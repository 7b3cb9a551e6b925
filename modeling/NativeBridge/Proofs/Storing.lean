import NativeBridge.Module
import NativeBridge.Proofs.Decoding
import NativeBridge.Proofs.StoredForm
import NativeBridge.Proofs.TypeText

/-! Storing a module and loading it again. What comes back is the module with its bodies renumbered:
identities are the places of the live instructions, and what was removed is gone. -/

namespace NativeBridge

open Json (Decoder Fills Record)
open Success

namespace TypeName

/-- The text of a type names that type. -/
def Readable (t : TypeName) : Prop := parse t.text = .ok t

theorem reads {t : TypeName} (readable : t.Readable) : decoder.Reads 0 t.toJson t :=
  Decoder.reads_parsed (congrArg (Except.mapError _) readable)

theorem reads_list {ts : List TypeName} (readable : ∀ t ∈ ts, t.Readable) :
    ∀ t ∈ ts, decoder.Reads 0 t.toJson (id t) := fun t member => reads (readable t member)

end TypeName

/-! The types that the parts of a module mention. -/

def MethodRef.mentioned (m : MethodRef) : List TypeName :=
  m.declaringType :: m.returnType :: (m.params ++ m.genericArgs)

def FieldRef.mentioned (f : FieldRef) : List TypeName := [f.declaringType, f.type]

def Operand.mentioned : Operand → List TypeName
  | .type t => [t]
  | .method m => m.mentioned
  | .field f => f.mentioned
  | _ => []

def Body.mentioned (b : Body) : List TypeName :=
  b.locals.map (·.type) ++ b.code.flatMap (·.2.operand.mentioned) ++
    b.handlers.flatMap (·.catchType.toList)

def MethodDef.mentioned (m : MethodDef) : List TypeName :=
  m.returnType :: (m.params.map (·.type) ++ m.body.toList.flatMap Body.mentioned)

def TypeDef.mentioned (t : TypeDef) : List TypeName :=
  t.name :: (t.fields.map (·.type) ++ t.methods.flatMap MethodDef.mentioned)

def Module.mentioned (m : Module) : List TypeName := m.types.flatMap TypeDef.mentioned

theorem Parameter.reads {p : Parameter} (readable : p.type.Readable) :
    record.decoder.Reads 1 p.toJson p := by
  refine Record.decoder_reads (by decide) fun levels _ => ?_
  exact .required (Decoder.reads_string _) (Nat.zero_le _) <|
    .required (TypeName.reads readable) (Nat.zero_le _) <| .nil p

theorem Local.reads {l : Local} (readable : l.type.Readable) :
    record.decoder.Reads 1 l.toJson l := by
  refine Record.decoder_reads (by decide) fun levels _ => ?_
  refine .held l.name (by cases l.name <;> rfl)
    (fun x _ => ⟨Decoder.reads_string (id x), by rintro ⟨⟩⟩) (Nat.zero_le _) rfl ?_
  rw [Option.map_id]
  exact .required (TypeName.reads readable) (Nat.zero_le _) <| .nil l

theorem FieldDef.reads {f : FieldDef} (readable : f.type.Readable) :
    record.decoder.Reads 1 f.toJson f := by
  refine Record.decoder_reads (by decide) fun levels _ => ?_
  exact .required (Decoder.reads_string _) (Nat.zero_le _) <|
    .required (TypeName.reads readable) (Nat.zero_le _) <| .ended <| .flag rfl <| .nil f

theorem FieldRef.reads {f : FieldRef} (readable : ∀ t ∈ f.mentioned, t.Readable) :
    record.decoder.Reads 1 f.toJson f := by
  obtain ⟨declaring, type, -⟩ : f.declaringType.Readable ∧ f.type.Readable ∧ True := by
    simpa [mentioned] using readable
  refine Record.decoder_reads (by decide) fun levels _ => ?_
  exact .required (TypeName.reads declaring) (Nat.zero_le _) <|
    .required (Decoder.reads_string _) (Nat.zero_le _) <|
    .required (TypeName.reads type) (Nat.zero_le _) <| .ended <| .flag rfl <| .nil f

theorem MethodRef.reads {m : MethodRef} (readable : ∀ t ∈ m.mentioned, t.Readable) :
    record.decoder.Reads 2 m.toJson m := by
  simp only [mentioned, List.forall_mem_cons, List.forall_mem_append] at readable
  obtain ⟨declaring, returned, params, args⟩ := readable
  refine Record.decoder_reads (by decide) fun levels enough => ?_
  simp only [List.append_assoc]
  refine .required (TypeName.reads declaring) (Nat.zero_le _) <|
    .required (Decoder.reads_string _) (Nat.zero_le _) <|
    .flag rfl <| .items (TypeName.reads_list params) enough rfl <|
    .optional (TypeName.reads returned) (Nat.zero_le _) <| .ended <|
    .items (TypeName.reads_list args) enough rfl ?_
  simp only [List.map_id]
  exact .nil m

theorem Opcode.ofMnemonic_mnemonic (op : Opcode) : Opcode.ofMnemonic? op.mnemonic = some op := by
  cases op <;> decide +kernel

theorem InstrId.reads {id : InstrId} (fits : id.index < UInt32.size) :
    decoder.Reads 0 id.toJson id :=
  fun levels enough => congrArg (Except.map InstrId.mk) (Decoder.reads_nat32 fits levels enough)

/-- An operand of types with a property, whose numbers fit the words they are written in. -/
structure Operand.Storable (P : TypeName → Prop) (operand : Operand) : Prop where
  types : ∀ t ∈ operand.mentioned, P t
  slot : ∀ slot, operand = .index slot → slot < UInt16.size
  target : ∀ id, operand = .target id → id.index < UInt32.size

theorem Operand.storable_mapTarget {P : TypeName → Prop} {operand : Operand}
    {move : InstrId → InstrId} (types : ∀ t ∈ operand.mentioned, P t)
    (slot : ∀ slot, operand = .index slot → slot < UInt16.size)
    (target : ∀ id, operand = .target id → (move id).index < UInt32.size) :
    (operand.mapTarget move).Storable P := by
  cases operand with
  | target id =>
    refine ⟨nofun, nofun, fun moved same => ?_⟩
    cases same
    exact target id rfl
  | _ => exact ⟨types, slot, nofun⟩

theorem Operand.reads {operand : Operand} (storable : operand.Storable TypeName.Readable) :
    decoder.Reads 3 operand.toJson operand := by
  cases operand with
  | none => exact (Decoder.reads_unit rfl).mono (by omega)
  | index slot =>
    exact ((Decoder.reads_nat16 (storable.slot slot rfl)).carrying rfl).mono (by omega)
  | int32 n => exact ((Decoder.reads_int32 n).carrying rfl).mono (by omega)
  | int64 n => exact ((Decoder.reads_int64 n).carrying rfl).mono (by omega)
  | string text => exact ((Decoder.reads_string text).carrying rfl).mono (by omega)
  | type t =>
    exact ((TypeName.reads (storable.types t List.mem_cons_self)).carrying rfl).mono (by omega)
  | method m => exact (MethodRef.reads storable.types).carrying rfl
  | field f => exact ((FieldRef.reads storable.types).carrying rfl).mono (by omega)
  | target id =>
    exact ((InstrId.reads (storable.target id rfl)).carrying rfl).mono (by omega)

theorem Instruction.reads {i : Instruction} (storable : i.operand.Storable TypeName.Readable) :
    record.decoder.Reads 4 i.toJson i := by
  have opcode : opcodeDecoder.Reads 0 (.string i.opcode.mnemonic) i.opcode :=
    Decoder.reads_parsed (by rw [Opcode.ofMnemonic_mnemonic])
  obtain ⟨op, operand⟩ := i
  refine Record.decoder_reads (by decide) fun levels enough => ?_
  refine .required opcode (Nat.zero_le _) ?_
  -- No operand is written by leaving the member out.
  cases operand with
  | none => exact .omitted rfl <| .nil _
  | _ => exact .optional (Operand.reads storable) enough <| .nil _

/-- The same of a handler. -/
structure Handler.Storable (P : TypeName → Prop) (h : Handler) : Prop where
  types : ∀ t ∈ h.catchType, P t
  places : ∀ id ∈ h.starts ++ h.ends, id.index < UInt32.size

theorem Handler.reads_end {place : Option InstrId} (fits : ∀ id ∈ place, id.index < UInt32.size) :
    (Decoder.option InstrId.decoder).Reads 0 (endToJson place) place := by
  cases place with
  | none => exact Decoder.reads_null
  | some id => exact (InstrId.reads (fits id rfl)).option (by rintro ⟨⟩)

theorem Handler.reads {h : Handler} (storable : h.Storable TypeName.Readable) :
    record.decoder.Reads 1 h.toJson h := by
  obtain ⟨readable, places⟩ := storable
  -- One bound for each of the four places of a handler.
  simp only [starts, ends, List.forall_mem_append, List.forall_mem_cons, List.not_mem_nil,
    false_implies, implies_true, and_true, Option.mem_toList] at places
  obtain ⟨⟨tryStart, handlerStart⟩, tryEnd, handlerEnd⟩ := places
  refine Record.decoder_reads (by decide) fun levels _ => ?_
  refine .required (show Decoder.Reads _ _ _ h.kind by
      cases h.kind <;> exact Decoder.reads_unit rfl) (Nat.zero_le _) <|
    .required (InstrId.reads tryStart) (Nat.zero_le _) <|
    .optional (reads_end tryEnd) (Nat.zero_le _) <|
    .required (InstrId.reads handlerStart) (Nat.zero_le _) <|
    .optional (reads_end handlerEnd) (Nat.zero_le _) <| .ended ?_
  refine .held h.catchType (by cases h.catchType <;> rfl)
    (fun t held => ⟨(TypeName.reads (readable t held) : Decoder.Reads _ _ _ (id t)),
      by rintro ⟨⟩⟩) (Nat.zero_le _) rfl ?_
  rw [Option.map_id]
  exact .nil h

/-- The same of a stored body. -/
structure StoredBody.Storable (P : TypeName → Prop) (b : StoredBody) : Prop where
  locals : ∀ l ∈ b.locals, P l.type
  instructions : ∀ i ∈ b.instructions, i.operand.Storable P
  handlers : ∀ h ∈ b.handlers, h.Storable P

theorem StoredBody.reads {b : StoredBody} (storable : b.Storable TypeName.Readable) :
    record.decoder.Reads 6 b.toJson b := by
  have locals : ∀ l ∈ b.locals, Local.record.decoder.Reads 1 l.toJson (id l) :=
    fun l member => Local.reads (storable.locals l member)
  have instructions : ∀ i ∈ b.instructions, Instruction.record.decoder.Reads 4 i.toJson (id i) :=
    fun i member => Instruction.reads (storable.instructions i member)
  have handlers : ∀ h ∈ b.handlers, Handler.record.decoder.Reads 1 h.toJson (id h) :=
    fun h member => Handler.reads (storable.handlers h member)
  refine Record.decoder_reads (by decide) fun levels enough => ?_
  simp only [List.append_assoc]
  refine .items locals (by omega) rfl <|
    .required (Decoder.reads_list instructions) enough <| .ended <|
    .items handlers (by omega) rfl ?_
  simp only [List.map_id]
  exact .nil b

namespace Body

/-- Slots and places fit the words they are written in. -/
structure Fits (b : Body) : Prop where
  slot : ∀ entry ∈ b.code, ∀ slot, entry.2.operand = .index slot → slot < UInt16.size
  branch : ∀ entry ∈ b.code, ∀ t, entry.2.target? = some t → (b.storedPlace t).index < UInt32.size
  bound : ∀ h ∈ b.handlers, ∀ t ∈ h.starts ++ h.ends, (b.storedPlace t).index < UInt32.size

theorem storable_toStored {b : Body} (readable : ∀ t ∈ b.mentioned, t.Readable) (fits : b.Fits) :
    b.toStored.Storable TypeName.Readable := by
  simp only [mentioned, List.forall_mem_append, List.forall_mem_map, List.mem_flatMap,
    forall_exists_index, and_imp] at readable
  obtain ⟨⟨locals, code⟩, handlers⟩ := readable
  refine ⟨locals, ?_, ?_⟩
  · intro i member
    obtain ⟨entry, there, rfl⟩ := List.mem_map.mp member
    refine Operand.storable_mapTarget (fun t => code t entry there) (fits.slot entry there) ?_
    intro t held
    exact fits.branch entry there t (by rw [Instruction.target?, held])
  · intro h member
    obtain ⟨h, there, rfl⟩ := List.mem_map.mp member
    refine ⟨fun t held => handlers t h there (Option.mem_toList.mpr held), fun id named => ?_⟩
    rw [Handler.starts_mapIds, Handler.ends_mapIds, ← List.map_append] at named
    obtain ⟨t, bounds, rfl⟩ := List.mem_map.mp named
    exact fits.bound h there t bounds

theorem liveEnd_storedPlace {b : Body} {place : Option InstrId} (live : ∀ t ∈ place, t ∈ b.order) :
    StoredBody.liveEnd b.size (place.map b.storedPlace) = place.map b.storedPlace := by
  cases place with
  | none => rfl
  | some t =>
    have below := storedPlace_lt (live t rfl)
    simp [StoredBody.liveEnd, below]

/-- No region of a sound body is stored with the place behind the last instruction as its end. -/
theorem openEnds_toStored {b : Body} (sound : b.Sound) :
    b.toStored.handlers.map (StoredBody.openEnds b.size) = b.toStored.handlers := by
  refine (List.map_congr_left fun moved member => ?_).trans (List.map_id _)
  obtain ⟨h, there, rfl⟩ := List.mem_map.mp member
  have finish := sound.finish h there
  simp only [Handler.ends, List.forall_mem_append, Option.mem_toList] at finish
  simp only [StoredBody.openEnds, Handler.mapIds, liveEnd_storedPlace finish.1,
    liveEnd_storedPlace finish.2, id]

/-- A sound body comes back from its stored form renumbered and without a receiver. -/
theorem toBody_toStored {b : Body} (sound : b.Sound) :
    b.toStored.toBody = .ok { b.renumber with hasReceiver := false } := by
  rw [toBody_toStored_ok_iff sound.toWellFormed, openEnds_toStored sound]
  exact ⟨⟨sound.branch, sound.start⟩, rfl⟩

theorem reads {b : Body} (sound : b.Sound) (readable : ∀ t ∈ b.mentioned, t.Readable)
    (fits : b.Fits) :
    decoder.Reads 6 b.toJson { b.renumber with hasReceiver := false } := by
  intro levels enough
  have stored := StoredBody.reads (storable_toStored readable fits) levels enough
  rw [decoder, toJson, stored, ok_bind, toBody_toStored sound]
  rfl

end Body

/-! What comes back before bodies are told whether they have a receiver. -/

def MethodDef.stripped (m : MethodDef) : MethodDef :=
  { m with body := m.body.map fun b => { b.renumber with hasReceiver := false } }

def TypeDef.stripped (t : TypeDef) : TypeDef :=
  { t with methods := t.methods.map MethodDef.stripped }

def Module.stripped (m : Module) : Module := { m with types := m.types.map TypeDef.stripped }

theorem MethodDef.link_stripped {m : MethodDef}
    (linked : ∀ b ∈ m.body, b.hasReceiver = !m.isStatic) : m.stripped.link = m.renumber := by
  obtain ⟨name, isStatic, params, returnType, body⟩ := m
  cases body with
  | none => rfl
  | some b =>
    have receiver : b.hasReceiver = !isStatic := linked b rfl
    change MethodDef.mk name isStatic params returnType
      (some { b.renumber with hasReceiver := !isStatic }) = _
    rw [← receiver]
    rfl

theorem MethodDef.reads {m : MethodDef} (readable : ∀ t ∈ m.mentioned, t.Readable)
    (bodies : ∀ b ∈ m.body, b.Sound ∧ b.Fits) : record.decoder.Reads 7 m.toJson m.stripped := by
  simp only [mentioned, List.forall_mem_cons, List.forall_mem_append, List.forall_mem_map,
    List.mem_flatMap, forall_exists_index, and_imp] at readable
  obtain ⟨returned, params, code⟩ := readable
  have parameters : ∀ p ∈ m.params, Parameter.record.decoder.Reads 1 p.toJson (id p) :=
    fun p member => Parameter.reads (params p member)
  have body : ∀ b ∈ m.body, Body.decoder.Reads 6 b.toJson { b.renumber with hasReceiver := false } ∧
      b.toJson.source ≠ .null := fun b held =>
    ⟨Body.reads (bodies b held).1 (fun t => code t b (Option.mem_toList.mpr held))
      (bodies b held).2, by rintro ⟨⟩⟩
  refine Record.decoder_reads (by decide) fun levels enough => ?_
  simp only [List.append_assoc]
  refine .required (Decoder.reads_string _) (Nat.zero_le _) <| .flag rfl <|
    .items parameters (by omega) rfl <| .optional (TypeName.reads returned) (Nat.zero_le _) <|
    .ended <| .held m.body (by cases m.body <;> rfl) body enough rfl ?_
  simp only [List.map_id]
  exact .nil m.stripped

theorem TypeKind.reads (kind : TypeKind) : decoder.Reads 0 (.string kind.keyword) kind := by
  cases kind <;> exact Decoder.reads_unit rfl

theorem TypeDef.reads {t : TypeDef} (readable : ∀ type ∈ t.mentioned, type.Readable)
    (bodies : ∀ m ∈ t.methods, ∀ b ∈ m.body, b.Sound ∧ b.Fits) :
    record.decoder.Reads 9 t.toJson t.stripped := by
  simp only [mentioned, List.forall_mem_cons, List.forall_mem_append, List.forall_mem_map,
    List.mem_flatMap, forall_exists_index, and_imp] at readable
  obtain ⟨name, fieldTypes, methodTypes⟩ := readable
  have fields : ∀ f ∈ t.fields, FieldDef.record.decoder.Reads 1 f.toJson (id f) :=
    fun f member => FieldDef.reads (fieldTypes f member)
  have methods : ∀ m ∈ t.methods, MethodDef.record.decoder.Reads 7 m.toJson m.stripped :=
    fun m member => MethodDef.reads (fun type => methodTypes type m member) (bodies m member)
  refine Record.decoder_reads (by decide) fun levels enough => ?_
  simp only [List.append_assoc, List.cons_append, List.nil_append]
  refine .required (TypeName.reads name) (Nat.zero_le _) <|
    .optional (TypeKind.reads t.kind) (Nat.zero_le _) <|
    .held t.nativeSignature (by cases t.nativeSignature <;> rfl)
      (fun signature _ => ⟨Decoder.reads_string (id signature), by rintro ⟨⟩⟩)
      (Nat.zero_le _) rfl <|
    .items fields (by omega) rfl <| .ended <| .items methods enough rfl ?_
  simp only [List.map_id, Option.map_id]
  exact .nil t.stripped

/-- A module whose parts can be written. -/
structure Module.Storable (m : Module) : Prop where
  readable : ∀ t ∈ m.mentioned, t.Readable
  fits : ∀ entry ∈ m.methods, ∀ b ∈ entry.2.body, b.Fits

namespace Module

variable {m : Module}

theorem mem_methods {t : TypeDef} {method : MethodDef} (defined : t ∈ m.types)
    (member : method ∈ t.methods) : (t, method) ∈ m.methods :=
  List.mem_flatMap.mpr ⟨t, defined, List.mem_map_of_mem member⟩

theorem reads (sound : m.Sound) (storable : m.Storable) :
    record.decoder.Reads 11 m.toJson m.stripped := by
  have types : ∀ t ∈ m.types, TypeDef.record.decoder.Reads 9 t.toJson t.stripped := by
    intro t defined
    refine TypeDef.reads (fun type member => ?_) fun method member b held => ?_
    · exact storable.readable type (List.mem_flatMap.mpr ⟨t, defined, member⟩)
    · have entry := mem_methods defined member
      exact ⟨(sound _ entry b held).1, storable.fits _ entry b held⟩
  refine Record.decoder_reads (by decide) fun levels enough => ?_
  exact .required (Decoder.reads_string _) (Nat.zero_le _) <|
    .optional (Decoder.reads_list types) enough <| .nil m.stripped

/-- Linking tells the bodies of a sound module what they knew before. -/
theorem link_stripped (sound : m.Sound) : m.stripped.link = m.renumber := by
  simp only [link, stripped, renumber, List.map_map]
  congr 1
  refine List.map_congr_left fun t defined => ?_
  simp only [Function.comp_apply, TypeDef.stripped, TypeDef.renumber, List.map_map]
  congr 1
  refine List.map_congr_left fun method member => ?_
  exact MethodDef.link_stripped fun b held => (sound _ (mem_methods defined member) b held).2

theorem firstDuplicate_map {f : TypeDef → TypeDef} (named : ∀ t, (f t).name = t.name)
    (types : List TypeDef) (seen : List TypeName) :
    firstDuplicate seen (types.map f) = firstDuplicate seen types := by
  induction types generalizing seen with
  | nil => rfl
  | cons t types ih => rw [List.map_cons, firstDuplicate, firstDuplicate, named, ih]

theorem validate_stripped (m : Module) : m.stripped.validate = m.validate := by
  rw [validate, validate, stripped, firstDuplicate_map (f := TypeDef.stripped) fun _ => rfl]

/-- A sound module that can be written comes back renumbered. -/
theorem load_store (sound : m.Sound) (unique : m.validate = .ok ()) (storable : m.Storable) :
    load (Json.read m.store) = .ok m.renumber := by
  -- Validation looks at the names of types only, and linking restores what is not stored.
  have decoded := Decoder.run_of_reads (reads sound storable) (by decide)
  rw [load, store, decoded]
  change (m.stripped.validate >>= fun _ => pure m.stripped.link) = _
  rw [validate_stripped, unique, ok_bind, link_stripped sound]
  rfl

end Module

end NativeBridge
