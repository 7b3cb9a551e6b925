import NativeBridge.Module
import NativeBridge.Pass.StaticBindings
import NativeBridge.Pass.WorkerTypes
import NativeBridge.Proofs.Survivors

/-! What loading a module guarantees: every reference within a body names a live instruction, and
argument 0 is the receiver exactly in instance methods. -/

namespace NativeBridge

namespace Json

variable {α β : Type} {P : α → Prop} {Q : β → Prop}

/-- Whatever a decoder accepts has a property. -/
def Decoder.Ensures (decoder : Decoder α) (P : α → Prop) : Prop :=
  ∀ levels source value, decoder levels source = .ok value → P value

/-- Reading a field keeps a property of the record under construction. -/
def Field.Preserves (field : Field α) (P : α → Prop) : Prop :=
  ∀ levels source before after, P before → field.read levels source before = .ok after → P after

theorem Decoder.ensures_true (decoder : Decoder α) : decoder.Ensures fun _ => True :=
  fun _ _ _ _ => trivial

theorem mismatch_ne_ok (source : Source) (expected : String) (value : α) :
    mismatch source expected ≠ .ok value := by
  simp [mismatch]

theorem Decoder.deeper_ok {levels : Nat} {inner : Nat → Except DecodeError α} {value : α}
    (decoded : Decoder.deeper levels inner = .ok value) : ∃ levels, inner levels = .ok value := by
  cases levels with
  | zero => simp [Decoder.deeper] at decoded
  | succ levels => exact ⟨levels, decoded⟩

theorem Decoder.Ensures.list {decoder : Decoder α} (each : decoder.Ensures P) :
    (Decoder.list decoder).Ensures fun values => ∀ value ∈ values, P value := by
  intro levels source values decoded
  cases source with
  | array items =>
    obtain ⟨levels, decoded⟩ := Decoder.deeper_ok decoded
    intro value member
    obtain ⟨item, _, read⟩ := Success.exists_of_mem_mapM decoded member
    exact each levels item value read
  | _ => exact absurd decoded (mismatch_ne_ok _ _ _)

theorem Decoder.Ensures.option {decoder : Decoder α} (each : decoder.Ensures P) :
    (Decoder.option decoder).Ensures fun value => ∀ a ∈ value, P a := by
  intro levels source value decoded a held
  unfold Decoder.option at decoded
  split at decoded
  · cases decoded
    simp at held
  · rw [Success.map_ok_iff] at decoded
    obtain ⟨read, accepted, rfl⟩ := decoded
    cases held
    exact each _ _ a accepted

theorem Field.required_preserves (name : String) {decoder : Decoder β} {set : β → α → α}
    (each : decoder.Ensures Q) (kept : ∀ value record, Q value → P record → P (set value record)) :
    (Field.required name decoder set).Preserves P := by
  intro levels source before after holds read
  obtain ⟨value, accepted, rfl⟩ := (Success.map_ok_iff ..).mp read
  exact kept value before (each levels source value accepted) holds

theorem Field.optional_preserves (name : String) {decoder : Decoder β} {set : β → α → α}
    (each : decoder.Ensures Q) (kept : ∀ value record, Q value → P record → P (set value record)) :
    (Field.optional name decoder set).Preserves P :=
  Field.required_preserves name each kept

private theorem ofItems_ensures {record : Record α} {levels index : Nat} {fields : List (Field α)}
    {items : List Source} {before after : α} (kept : ∀ field ∈ fields, field.Preserves P)
    (holds : P before) (read : record.ofItems levels index fields items before = .ok after) :
    P after := by
  induction fields generalizing index items before with
  | nil =>
    cases items with
    | nil =>
      cases read
      exact holds
    | cons item items => cases read
  | cons field fields ih =>
    have rest := fun f member => kept f (List.mem_cons_of_mem field member)
    cases items with
    | nil =>
      -- The items have run out, so the field must be one that may be left out.
      unfold Record.ofItems at read
      split at read
      · cases read
      · exact ih rest holds read
    | cons item items =>
      obtain ⟨between, first, read⟩ := (Success.bind_ok_iff ..).mp read
      exact ih rest (kept field List.mem_cons_self levels item before between holds first) read

private theorem ofMembers_ensures {record : Record α} {levels : Nat} {seen : List String}
    {members : List (Option String × Source)} {before after : α}
    (kept : ∀ field ∈ record.fields, field.Preserves P)
    (holds : P before) (read : record.ofMembers levels seen members before = .ok after) :
    P after := by
  induction members generalizing seen before with
  | nil =>
    unfold Record.ofMembers at read
    split at read
    · cases read
    · cases read
      exact holds
  | cons member members ih =>
    obtain ⟨name, source⟩ := member
    cases name with
    | none => cases read
    | some name =>
      unfold Record.ofMembers at read
      split at read
      · split at read
        · exact ih holds read
        · cases read
      next field found =>
        -- A field that comes twice is refused.
        split at read
        · cases read
        · obtain ⟨between, first, read⟩ := (Success.bind_ok_iff ..).mp read
          have known := kept field (List.mem_of_find?_eq_some found)
          exact ih (known levels source before between holds first) read

/-- A record has what its defaults have and every field keeps. -/
theorem Record.decoder_ensures {record : Record α} (blank : P record.blank)
    (kept : ∀ field ∈ record.fields, field.Preserves P) : record.decoder.Ensures P := by
  intro levels source value decoded
  cases source with
  | array items =>
    obtain ⟨levels, decoded⟩ := Decoder.deeper_ok decoded
    exact ofItems_ensures kept blank decoded
  | object members =>
    obtain ⟨levels, decoded⟩ := Decoder.deeper_ok decoded
    exact ofMembers_ensures kept blank decoded
  | _ => exact absurd decoded (mismatch_ne_ok _ _ _)

end Json

open Json (Decoder Field Record)

theorem StoredBody.firstBeyond_eq_none_iff (limit : Nat) (places : List InstrId) :
    firstBeyond limit places = none ↔ ∀ id ∈ places, id.index < limit := by
  simp [firstBeyond, List.find?_eq_none]

/-- Branches and starts of regions name instructions of a stored body; the end of a region may also
be the place behind the last one. -/
structure StoredBody.InRange (b : StoredBody) : Prop where
  branch : ∀ i ∈ b.instructions, ∀ t, i.target? = some t → t.index < b.instructions.length
  start : ∀ h ∈ b.handlers, ∀ t ∈ h.starts, t.index < b.instructions.length
  finish : ∀ h ∈ b.handlers, ∀ t ∈ h.ends, t.index ≤ b.instructions.length

theorem StoredBody.fault?_eq_none_iff (b : StoredBody) : b.fault? = none ↔ b.InRange := by
  simp only [fault?, handlerFault, Option.or_eq_none_iff, firstBeyond_eq_none_iff,
    List.findSome?_eq_none_iff, List.mem_filterMap, Nat.lt_succ_iff]
  constructor
  · rintro ⟨branches, handlers⟩
    exact ⟨fun i member t named => branches t ⟨i, member, named⟩,
      fun h member => (handlers h member).1, fun h member => (handlers h member).2⟩
  · intro inside
    refine ⟨?_, fun h member => ⟨inside.start h member, inside.finish h member⟩⟩
    rintro t ⟨i, member, named⟩
    exact inside.branch i member t named

/-- A stored body whose places are all within it describes a body. -/
theorem StoredBody.toBody_ok_iff (stored : StoredBody) (b : Body) :
    stored.toBody = .ok b ↔ stored.InRange ∧
      b = { Body.ofInstructions false stored.instructions with
        locals := stored.locals
        handlers := stored.handlers.map (openEnds stored.instructions.length) } := by
  rw [← fault?_eq_none_iff, toBody]
  cases stored.fault? with
  | some target => simp
  | none => simp [eq_comm]

/-- The references of such a body are live. -/
theorem StoredBody.sound_of_toBody {stored : StoredBody} {b : Body}
    (described : stored.toBody = .ok b) : b.Sound := by
  obtain ⟨inside, equal⟩ := (stored.toBody_ok_iff b).mp described
  -- The live identities are the places of the stored list, all of them.
  have live : ∀ id, id ∈ b.order ↔ id.index < stored.instructions.length := by
    intro id
    rw [equal]
    simp only [Body.ofInstructions, List.mem_map, List.mem_range]
    exact ⟨fun ⟨_, inside, same⟩ => same ▸ inside, fun inside => ⟨id.index, inside, rfl⟩⟩
  have arena : b.arena = stored.instructions := by rw [equal]; rfl
  have regions : b.handlers = stored.handlers.map (openEnds stored.instructions.length) := by
    rw [equal]
  refine ⟨⟨?_, ?_⟩, ?_, ?_, ?_⟩
  · rw [equal]
    exact List.nodup_range.map fun _ _ same => InstrId.mk.inj same
  · intro id member
    rw [arena]
    exact (live id).mp member
  · intro entry member t named
    obtain ⟨_, held⟩ := (b.mem_code_iff entry.1 entry.2).mp member
    rw [Body.get?, arena] at held
    exact (live t).mpr (inside.branch _ (List.mem_of_getElem? held) t named)
  · intro h member t named
    rw [regions, List.mem_map] at member
    obtain ⟨original, member, rfl⟩ := member
    exact (live t).mpr (inside.start original member t named)
  · intro h member t named
    rw [regions, List.mem_map] at member
    obtain ⟨original, member, rfl⟩ := member
    rw [live]
    simp only [Handler.ends, openEnds, liveEnd, List.mem_append, Option.mem_toList,
      Option.filter_eq_some_iff, decide_eq_true_eq] at named
    rcases named with ⟨_, inside⟩ | ⟨_, inside⟩ <;> exact inside

theorem Body.decoder_ensures_sound : Body.decoder.Ensures Body.Sound := by
  intro levels source b decoded
  simp only [Body.decoder, Success.bind_ok_iff, Success.mapError_ok_iff] at decoded
  obtain ⟨stored, _, described⟩ := decoded
  exact StoredBody.sound_of_toBody described

/-- Every body of a module is sound and knows whether its method has a receiver. -/
def Module.Sound (m : Module) : Prop :=
  ∀ entry ∈ m.methods, ∀ b ∈ entry.2.body, b.Sound ∧ b.hasReceiver = !entry.2.isStatic

theorem MethodDef.decoder_ensures_sound :
    MethodDef.record.decoder.Ensures fun method => ∀ b ∈ method.body, b.Sound := by
  apply Record.decoder_ensures
  · simp [MethodDef.record]
  · simp only [MethodDef.record, List.forall_mem_cons, List.not_mem_nil, false_implies,
      implies_true, and_true]
    refine ⟨?_, ?_, ?_, ?_, ?_⟩
    · exact Field.required_preserves _ (Decoder.ensures_true _) fun _ _ _ sound => sound
    · exact Field.optional_preserves _ (Decoder.ensures_true _) fun _ _ _ sound => sound
    · exact Field.optional_preserves _ (Decoder.ensures_true _) fun _ _ _ sound => sound
    · exact Field.optional_preserves _ (Decoder.ensures_true _) fun _ _ _ sound => sound
    · exact Field.optional_preserves _ Body.decoder_ensures_sound.option fun _ _ sound _ => sound

theorem TypeDef.decoder_ensures_sound :
    TypeDef.record.decoder.Ensures fun t => ∀ method ∈ t.methods, ∀ b ∈ method.body, b.Sound := by
  apply Record.decoder_ensures
  · simp [TypeDef.record, default, instInhabitedTypeDef.default]
  · simp only [TypeDef.record, List.forall_mem_cons, List.not_mem_nil, false_implies,
      implies_true, and_true]
    refine ⟨?_, ?_, ?_, ?_, ?_⟩
    · exact Field.required_preserves _ (Decoder.ensures_true _) fun _ _ _ sound => sound
    · exact Field.optional_preserves _ (Decoder.ensures_true _) fun _ _ _ sound => sound
    · exact Field.optional_preserves _ (Decoder.ensures_true _) fun _ _ _ sound => sound
    · exact Field.optional_preserves _ (Decoder.ensures_true _) fun _ _ _ sound => sound
    · exact Field.optional_preserves _ MethodDef.decoder_ensures_sound.list fun _ _ sound _ => sound

theorem Module.decoder_ensures_sound :
    Module.record.decoder.Ensures fun m =>
      ∀ t ∈ m.types, ∀ method ∈ t.methods, ∀ b ∈ method.body, b.Sound := by
  apply Record.decoder_ensures
  · simp [Module.record, default, instInhabitedModule.default]
  · simp only [Module.record, List.forall_mem_cons, List.not_mem_nil, false_implies,
      implies_true, and_true]
    refine ⟨?_, ?_⟩
    · exact Field.required_preserves _ (Decoder.ensures_true _) fun _ _ _ sound => sound
    · exact Field.optional_preserves _ TypeDef.decoder_ensures_sound.list fun _ _ sound _ => sound

/-- The receiver flag has no part in soundness. -/
theorem Body.Sound.withReceiver {b : Body} (sound : b.Sound) (hasReceiver : Bool) :
    { b with hasReceiver := hasReceiver }.Sound :=
  ⟨⟨sound.distinct, sound.present⟩, sound.branch, sound.start, sound.finish⟩

/-- A module that was loaded is sound. -/
theorem Module.sound_of_load {document : Json.Document} {m : Module}
    (loaded : Module.load document = .ok m) : m.Sound := by
  simp only [Module.load, Decoder.run, Success.bind_ok_iff, Success.mapError_ok_iff,
    Success.pure_ok_iff] at loaded
  obtain ⟨stored, ⟨_, decoded, ended⟩, _, _, rfl⟩ := loaded
  -- Decoding makes the bodies sound; linking only sets whether they have a receiver.
  have bodies : ∀ t ∈ stored.types, ∀ method ∈ t.methods, ∀ b ∈ method.body, b.Sound := by
    split at ended
    · cases ended
      exact Module.decoder_ensures_sound _ _ _ decoded
    · simp at ended
  intro entry member b body
  simp only [Module.methods, Module.link, List.mem_flatMap, List.mem_map] at member
  obtain ⟨_, ⟨t, member, rfl⟩, _, linked, rfl⟩ := member
  obtain ⟨method, held, rfl⟩ := List.mem_map.mp linked
  simp only [MethodDef.link, Option.mem_def, Option.map_eq_some_iff] at body
  obtain ⟨b, body, rfl⟩ := body
  exact ⟨(bodies t member method held b body).withReceiver _, rfl⟩

theorem Module.wellFormed_of_load {document : Json.Document} {m : Module}
    (loaded : Module.load document = .ok m) :
    ∀ entry ∈ m.methods, ∀ b ∈ entry.2.body, b.WellFormed :=
  fun entry member b held => (Module.sound_of_load loaded entry member b held).1.toWellFormed

end NativeBridge

namespace NativeBridge.Sample

open Json (Source Document)

/-! Programs to try the pass on, with the interface that it resolves. Records are written as arrays
of their fields. -/

/-- An interface with an adapter. -/
def bindings : StaticBindings where
  designated := [.simple "" "Log"]
  adapters := [(.simple "" "Log", .simple "" "Adapter")]

/-- The bindings as they are stored. -/
def registry : Json :=
  .object [("rewrite", .array [.string "Log"]), ("adapters", .object [("Log", .string "Adapter")])]

/-- A generic method that looks workers up. -/
def factory : WorkerFactory := ⟨.simple "" "Host", "Find"⟩

def word (text : String) : Source := .string (some text)

def numeral (digit : Nat) : Source := .number ⟨false, [digit], [], none⟩

def operand (kind : String) (value : Source) : Source := .object [(some kind, value)]

def method (type name : String) (hasReceiver : Bool) (params : List String) (returns : String)
    (args : List String) : Source :=
  operand "method" (.array
    [word type, word name, .bool hasReceiver, .array (params.map word), word returns,
      .array (args.map word)])

/-- A delegate type with a native signature. -/
def callback : Source := .array [word "Callback", word "delegate", word "void (*)()"]

def construct : Source :=
  .array [word "newobj", method "Callback" ".ctor" true ["Object", "Address"] "System.Void" []]

def lookup (worker : String) : Source :=
  .array [word "call", method "Host" "Find" false [] "System.Void" [worker]]

/-- Calls through the interface, with a branch into code that goes. Makes two delegates in a row,
and looks one worker up twice. -/
def start : Source :=
  .array [word "Start", .bool true, .array [.array [word "log", word "Log"]], word "System.Void",
    .array [.array [], .array
      [.array [word "br", operand "target" (numeral 1)],
        .array [word "ldarg.0"],
        .array [word "callvirt", method "Log" "Write" true [] "System.Void" []],
        .array [word "ldnull"],
        .array [word "ldftn", method "Program" "Start" false ["Log"] "System.Void" []],
        construct,
        .array [word "ldnull"],
        .array [word "ldftn", method "Program" "Twice" false ["Log", "Int"] "Int" []],
        construct,
        .array [word "pop"],
        .array [word "pop"],
        lookup "Job",
        lookup "Task",
        lookup "Job",
        .array [word "ret"]]]]

/-- Copies a value of the interface and computes. -/
def twice : Source :=
  .array [word "Twice", .bool true,
    .array [.array [word "log", word "Log"], .array [word "n", word "Int"]], word "Int",
    .array [.array [.array [.null, word "Log"]], .array
      [.array [word "ldarg.0"],
        .array [word "stloc.0"],
        .array [word "ldarg.1"],
        .array [word "ldarg.1"],
        .array [word "add"],
        .array [word "ret"]]]]

/-- Copies a value of the interface and computes by nested calls. -/
def quad : Source :=
  .array [word "Quad", .bool true,
    .array [.array [word "log", word "Log"], .array [word "n", word "Int"]], word "Int",
    .array [.array [.array [.null, word "Log"]], .array
      [.array [word "ldarg.0"],
        .array [word "stloc.0"],
        .array [word "ldnull"],
        .array [word "ldnull"],
        .array [word "ldarg.1"],
        .array [word "call", method "Program" "Twice" false ["Log", "Int"] "Int" []],
        .array [word "call", method "Program" "Twice" false ["Log", "Int"] "Int" []],
        .array [word "ret"]]]]

/-- The stack before each instruction of a method, from its top on: whether a value is of the
interface. -/
def onStack (name : String) : List (List Bool) :=
  if name = "Start" then
    [[], [], [true], [], [false], [false, false], [false], [false, false], [false, false, false],
      [false, false], [false], [], [], [], []]
  else if name = "Twice" then
    [[], [true], [], [false], [false, false], [false]]
  else
    [[], [true], [], [false], [false, false], [false, false, false], [false, false], [false]]

/-- The program; the method of the adapter has the given parameters, and further types follow. -/
def documentWith (params types : List Source) : Document where
  root := .array [word "Sample", .array (
    [.array [word "Adapter", word "class", .null, .array [], .array
        [.array [word "Write", .bool true, .array params]]],
      callback,
      .array [word "Program", word "class", .null, .array [], .array [start, twice, quad]]] ++
      types)]
  ended := true

def document : Document := documentWith [] []

def program : Module := (Module.load document).toOption.getD default

theorem load_document : Module.load document = .ok program := by decide +kernel

/-- The method of the interface that is called. -/
def writeRef : MethodRef where
  declaringType := .simple "" "Log"
  name := "Write"
  hasReceiver := true
  params := []
  returnType := .void

def quadRef : MethodRef where
  declaringType := .simple "" "Program"
  name := "Quad"
  params := [.simple "" "Log", .simple "" "Int"]
  returnType := .simple "" "Int"

/-- A class whose objects keep a value of the interface in a field, and call through it. -/
def keeper : Source :=
  let field := operand "field" (.array [word "Keeper", word "log", word "Log"])
  .array [word "Keeper", word "class", .null, .array [.array [word "log", word "Log"]], .array
    [.array [word "Keep", .bool false, .array [.array [word "log", word "Log"]],
      word "System.Void", .array [.array [], .array
        [.array [word "ldarg.0"],
          .array [word "ldarg.1"],
          .array [word "stfld", field],
          .array [word "ldarg.0"],
          .array [word "ldfld", field],
          .array [word "callvirt", method "Log" "Write" true [] "System.Void" []],
          .array [word "ret"]]]]]]

/-- The program with that class. -/
def keeping : Document := documentWith [] [keeper]

/-- A delegate between whose address and construction a value of the interface is copied. -/
def interleaved : Document where
  root := .array [word "Interleaved", .array
    [callback,
      .array [word "Program", word "class", .null, .array [], .array
        [.array [word "Start", .bool true, .array [.array [word "log", word "Log"]],
          word "System.Void", .array [.array [.array [.null, word "Log"]], .array
            [.array [word "ldnull"],
              .array [word "ldftn", method "Program" "Start" false [] "System.Void" []],
              .array [word "ldarg.0"],
              .array [word "stloc.0"],
              construct,
              .array [word "pop"],
              .array [word "ret"]]]]]]]]
  ended := true

def interleavedProgram : Module := (Module.load interleaved).toOption.getD default

theorem load_interleaved : Module.load interleaved = .ok interleavedProgram := by decide +kernel

/-- A program whose adapter has an instance method before the static one of the same name. -/
def overlapping : Document where
  root :=
    let level (isStatic : Bool) (digit : Nat) : Source :=
      .array [word "Level", .bool isStatic, .array [], word "Int",
        .array [.array [], .array
          [.array [word "ldc.i4", operand "i32" (numeral digit)], .array [word "ret"]]]]
    .array [word "Overlap", .array
      [.array [word "Adapter", word "class", .null, .array [], .array
          [level false 7, level true 9]],
        .array [word "Program", word "class", .null, .array [], .array
          [.array [word "Main", .bool true, .array [.array [word "log", word "Log"]], word "Int",
            .array [.array [], .array
              [.array [word "ldarg.0"],
                .array [word "callvirt", method "Log" "Level" true [] "Int" []],
                .array [word "ret"]]]]]]]]
  ended := true

def overlappingProgram : Module := (Module.load overlapping).toOption.getD default

end NativeBridge.Sample
