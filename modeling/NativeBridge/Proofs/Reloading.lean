import NativeBridge.Proofs.Provenance
import NativeBridge.Proofs.ReferenceScan

/-! What the pass leaves can be stored and loaded again. The pass brings in no type that the module
does not mention, and moves every reference to a place that is no further back. -/

namespace NativeBridge

theorem Handler.exists_of_starts_relocate {order live : List InstrId} {h : Handler} {t : InstrId}
    (named : t ∈ (h.relocate order live).starts) : ∃ s ∈ h.starts, landing order live s = t := by
  simp only [starts, relocate, List.mem_cons, List.not_mem_nil, or_false] at named
  rcases named with rfl | rfl
  · exact ⟨h.tryStart, List.mem_cons_self, rfl⟩
  · exact ⟨h.handlerStart, List.mem_cons_of_mem _ List.mem_cons_self, rfl⟩

theorem Handler.exists_of_ends_relocate {order live : List InstrId} {h : Handler} {t : InstrId}
    (named : t ∈ (h.relocate order live).ends) : ∃ s ∈ h.ends, survivor? order live s = some t := by
  simp only [ends, relocate, List.mem_append, Option.mem_toList, Option.bind_eq_some_iff] at named ⊢
  rcases named with ⟨s, held, lands⟩ | ⟨s, held, lands⟩
  · exact ⟨s, Or.inl held, lands⟩
  · exact ⟨s, Or.inr held, lands⟩

namespace Body

/-- What is left of an instruction stands no further back than the instruction did. -/
theorem storedPlace_survivor {b origin : Body} (formed : b.WellFormed) (whole : origin.WellFormed)
    (part : b.order.Sublist origin.order) {t s : InstrId} (live : t ∈ origin.order)
    (lands : survivor? origin.order b.order t = some s) :
    (b.storedPlace s).index ≤ (origin.storedPlace t).index := by
  -- The instructions left in front of `s` are some of those that stood in front of `t`.
  obtain ⟨front, rear, split⟩ := List.append_of_mem live
  rw [split] at part
  obtain ⟨before, after, order, first, second⟩ := List.sublist_append_iff.mp part
  have found := lands
  rw [split, order, survivor?_of_split (split ▸ whole.distinct) first.subset second.subset] at found
  obtain ⟨rest, rfl⟩ := List.head?_eq_some_iff.mp found
  have here : b.position? s = some before.length := by
    rw [position?_eq_some_iff formed, order]
    simp
  have there : origin.position? t = some front.length := by
    rw [position?_eq_some_iff whole, split]
    simp
  rw [storedPlace_of_position here, storedPlace_of_position there]
  exact first.length_le

/-- An instruction of types with a property, whose numbers fit and whose branch is one that the body
could have made. -/
structure Holds (b : Body) (P : TypeName → Prop) (i : Instruction) : Prop where
  types : ∀ t ∈ i.operand.mentioned, P t
  slot : ∀ slot, i.operand = .index slot → slot < UInt16.size
  target : ∀ t, i.target? = some t → t ∈ b.order ∧ (b.storedPlace t).index < UInt32.size

/-- The code that a body starts with is of this kind. -/
theorem holds_code {b : Body} {P : TypeName → Prop} (sound : b.Sound) (fits : b.Fits)
    (types : ∀ t ∈ b.mentioned, P t) : ∀ entry ∈ b.code, b.Holds P entry.2 := by
  simp only [mentioned, List.forall_mem_append, List.mem_flatMap, forall_exists_index,
    and_imp] at types
  obtain ⟨⟨-, code⟩, -⟩ := types
  intro entry member
  exact ⟨fun t => code t entry member, fits.slot entry member, fun t named =>
    ⟨sound.branch entry member t named, fits.branch entry member t named⟩⟩

theorem mentioned_mapTarget (move : InstrId → InstrId) (i : Instruction) :
    (i.mapTarget move).operand.mentioned = i.operand.mentioned := by
  obtain ⟨op, operand⟩ := i
  cases operand <;> rfl

namespace Retains

variable {b origin : Body} {kept : List (InstrId × Instruction)} {P : TypeName → Prop}

/-- A body that retains such instructions of another one mentions such types. -/
theorem mentions (retained : b.Retains origin kept) (distinct : origin.order.Nodup)
    (types : ∀ t ∈ origin.mentioned, P t) (holds : ∀ entry ∈ kept, origin.Holds P entry.2) :
    ∀ t ∈ b.mentioned, P t := by
  simp only [mentioned, List.forall_mem_append, List.forall_mem_map, List.mem_flatMap,
    Option.mem_toList, forall_exists_index, and_imp] at types ⊢
  obtain ⟨⟨locals, -⟩, handlers⟩ := types
  refine ⟨⟨retained.locals ▸ locals, fun t entry member => ?_⟩, fun t h member => ?_⟩
  · rw [retained.code_eq distinct] at member
    obtain ⟨original, among, rfl⟩ := List.mem_map.mp member
    rw [mentioned_mapTarget]
    exact (holds original among).types t
  · rw [retained.handlers] at member
    obtain ⟨original, among, rfl⟩ := List.mem_map.mp member
    exact handlers t original among

/-- What such a body names still fits. -/
theorem fits (retained : b.Retains origin kept) (sound : origin.Sound) (fits : origin.Fits)
    (holds : ∀ entry ∈ kept, origin.Holds P entry.2) : b.Fits := by
  have lands : ∀ t ∈ origin.order, (origin.storedPlace t).index < UInt32.size →
      ∀ s, survivor? origin.order b.order t = some s → (b.storedPlace s).index < UInt32.size :=
    fun t live small s survives => Nat.lt_of_le_of_lt (storedPlace_survivor
      (retained.wellFormed sound.distinct) sound.toWellFormed retained.part live survives) small
  have landing_lt : ∀ t ∈ origin.order, (origin.storedPlace t).index < UInt32.size →
      (survivor? origin.order b.order t).isSome →
      (b.storedPlace (landing origin.order b.order t)).index < UInt32.size := by
    intro t live small survives
    obtain ⟨s, found⟩ := Option.isSome_iff_exists.mp survives
    rw [landing, found]
    exact lands t live small s found
  have code : ∀ entry ∈ b.code, ∃ i, (entry.1, i) ∈ kept ∧
      entry.2 = i.mapTarget (landing origin.order b.order) := by
    intro entry member
    rw [retained.code_eq sound.distinct, ← retained.order] at member
    obtain ⟨original, among, rfl⟩ := List.mem_map.mp member
    exact ⟨original.2, among, rfl⟩
  refine ⟨fun entry member slot named => ?_, fun entry member t named => ?_,
    fun h member t named => ?_⟩
  · obtain ⟨i, among, same⟩ := code entry member
    refine (holds _ among).slot slot ?_
    rw [same] at named
    obtain ⟨op, operand⟩ := i
    cases operand <;> first | exact named | cases named
  · obtain ⟨i, among, same⟩ := code entry member
    rw [same, Instruction.target?_mapTarget, Option.map_eq_some_iff] at named
    obtain ⟨t, named, rfl⟩ := named
    obtain ⟨live, small⟩ := (holds _ among).target t named
    exact landing_lt t live small (retained.branch _ _ among t named)
  · rw [retained.handlers] at member
    obtain ⟨original, among, rfl⟩ := List.mem_map.mp member
    rcases List.mem_append.mp named with starts | ends
    · obtain ⟨s, start, rfl⟩ := Handler.exists_of_starts_relocate starts
      exact landing_lt s (sound.start original among s start)
        (fits.bound original among s (List.mem_append_left _ start))
        (retained.start original among s start)
    · obtain ⟨s, finish, survives⟩ := Handler.exists_of_ends_relocate ends
      exact lands s (sound.finish original among s finish)
        (fits.bound original among s (List.mem_append_right _ finish)) t survives

end Retains

end Body

theorem MethodDef.mem_mentioned_iff (m : MethodDef) (type : TypeName) :
    type ∈ m.mentioned ↔ type ∈ m.bare.mentioned ∨ ∃ b ∈ m.body, type ∈ b.mentioned := by
  simp [mentioned, bare, or_assoc]

theorem TypeDef.mem_mentioned_iff (t : TypeDef) (type : TypeName) :
    type ∈ t.mentioned ↔ type ∈ t.bare.mentioned ∨
      ∃ m ∈ t.methods, ∃ b ∈ m.body, type ∈ b.mentioned := by
  have split : (∃ m ∈ t.methods, type ∈ m.mentioned) ↔ ∃ m ∈ t.methods,
      (type ∈ m.bare.mentioned ∨ ∃ b ∈ m.body, type ∈ b.mentioned) :=
    exists_congr fun m => and_congr_right fun _ => m.mem_mentioned_iff type
  simp only [mentioned, bare, List.mem_cons, List.mem_append, List.flatMap_map, List.mem_flatMap,
    split, and_or_left, exists_or, or_assoc]

namespace Module

variable {m : Module}

theorem mentioned_name {t : TypeDef} (defined : t ∈ m.types) : t.name ∈ m.mentioned :=
  List.mem_flatMap.mpr ⟨t, defined, List.mem_cons_self⟩

theorem mentioned_method {t : TypeDef} {method : MethodDef} (defined : t ∈ m.types)
    (member : method ∈ t.methods) {type : TypeName} (named : type ∈ method.mentioned) :
    type ∈ m.mentioned := by
  refine List.mem_flatMap.mpr ⟨t, defined, List.mem_cons_of_mem _ (List.mem_append_right _ ?_)⟩
  exact List.mem_flatMap.mpr ⟨method, member, named⟩

/-- A type is mentioned in a header or in a body. -/
theorem mem_mentioned_iff (type : TypeName) :
    type ∈ m.mentioned ↔ type ∈ m.bare.mentioned ∨
      ∃ entry ∈ m.methods, ∃ b ∈ entry.2.body, type ∈ b.mentioned := by
  have bodies : (∃ entry ∈ m.methods, ∃ b ∈ entry.2.body, type ∈ b.mentioned) ↔
      ∃ t ∈ m.types, ∃ method ∈ t.methods, ∃ b ∈ method.body, type ∈ b.mentioned := by
    simp only [methods, List.mem_flatMap, List.mem_map]
    constructor
    · rintro ⟨_, ⟨t, defined, method, member, rfl⟩, held⟩
      exact ⟨t, defined, method, member, held⟩
    · rintro ⟨t, defined, method, member, held⟩
      exact ⟨_, ⟨t, defined, method, member, rfl⟩, held⟩
  have split : (∃ t ∈ m.types, type ∈ t.mentioned) ↔ ∃ t ∈ m.types,
      (type ∈ t.bare.mentioned ∨
        ∃ method ∈ t.methods, ∃ b ∈ method.body, type ∈ b.mentioned) :=
    exists_congr fun t => and_congr_right fun _ => t.mem_mentioned_iff type
  rw [bodies]
  simp only [mentioned, bare, List.flatMap_map, List.mem_flatMap, split, and_or_left, exists_or]

end Module

namespace Pass

/-- An adapter's method that takes the place of a callee mentions what the module and the callee
mention. -/
theorem mentioned_adapterTarget {m : Module} {adapter : TypeName} {callee target : MethodRef}
    (chosen : adapterTarget m adapter callee = .ok target) {t : TypeName}
    (named : t ∈ target.mentioned) : t ∈ m.mentioned ∨ t ∈ callee.mentioned := by
  unfold adapterTarget at chosen
  cases found : m.findType? adapter with
  | none => simp [found] at chosen
  | some type =>
    cases picked : adapterMethod? type callee with
    | none => simp [found, picked] at chosen
    | some method =>
      simp only [found, picked, Except.ok.injEq] at chosen
      subst chosen
      have defined := List.mem_of_find?_eq_some found
      have adapts : type.name = adapter := by simpa using List.find?_some found
      -- The arguments of a generic method are the callee's; all else is the adapter's own.
      have member : method ∈ type.methods := by
        rcases Option.or_eq_some_iff.mp picked with first | ⟨-, second⟩
        · exact List.mem_of_find?_eq_some first
        · exact List.mem_of_find?_eq_some second
      have inside : ∀ t ∈ method.mentioned, t ∈ m.mentioned :=
        fun t named => m.mentioned_method defined member named
      simp only [MethodRef.mentioned, MethodDef.ref, List.mem_cons, List.mem_append] at named ⊢
      rcases named with rfl | rfl | param | arg
      · exact Or.inl (adapts ▸ m.mentioned_name defined)
      · exact Or.inl (inside _ List.mem_cons_self)
      · exact Or.inl (inside t (List.mem_cons_of_mem _ (List.mem_append_left _ param)))
      · exact Or.inr (Or.inr (Or.inr (Or.inr arg)))

variable {bindings : StaticBindings} {factory : WorkerFactory} {m : Module} {method : MethodDef}
  {b : Body} {P : TypeName → Prop}

theorem holds_redirect (types : ∀ t ∈ m.mentioned, P t) {i : Instruction} (holds : b.Holds P i) :
    b.Holds P (redirect bindings m i) := by
  unfold redirect
  split
  next target redirected =>
    simp only [redirection?, Option.bind_eq_bind, Option.bind_eq_some_iff] at redirected
    obtain ⟨callee, names, adapter, -, chosen⟩ := redirected
    have operand : i.operand = .method callee := by
      unfold Instruction.method? at names
      split at names
      next method held => rw [held, Option.some.inj names]
      · cases names
    cases result : adapterTarget m adapter callee with
    | error e => simp [result, Except.toOption] at chosen
    | ok reached =>
      obtain rfl : reached = target := by simpa [result, Except.toOption] using chosen
      refine ⟨fun t named => ?_, by rintro _ ⟨⟩, by rintro _ ⟨⟩⟩
      rcases mentioned_adapterTarget result named with known | called
      · exact types t known
      · exact holds.types t (operand ▸ called)
  · exact holds

theorem holds_elide (types : ∀ t ∈ m.mentioned, P t) {output : List (InstrId × Instruction)}
    {entry : InstrId × Instruction} (before : ∀ kept ∈ output, b.Holds P kept.2)
    (holds : b.Holds P entry.2) :
    ∀ kept ∈ elide bindings m method b output entry, b.Holds P kept.2 := by
  have added : ∀ kept ∈ entry :: output, b.Holds P kept.2 :=
    List.forall_mem_cons.mpr ⟨holds, before⟩
  have dropped : ∀ kept ∈ dropReceiver b output, b.Holds P kept.2 := by
    cases output with
    | nil => exact nofun
    | cons top output =>
      rw [dropReceiver]
      split
      · exact (List.forall_mem_cons.mp before).2
      · exact before
  -- The four kinds of slot access go or stay; the two of field access may take a load along.
  unfold elide
  split
  iterate 4
    split
    · exact before
    · exact added
  iterate 2
    split
    · exact added
    · split
      · split
        · exact before
        · exact dropped
      · exact added
  · exact List.forall_mem_cons.mpr ⟨holds_redirect types holds, before⟩
  · exact added
  · exact added

/-- One step of the scan puts out what was there, a call of an adapter or a handle. -/
theorem holds_scanStep (types : ∀ t ∈ m.mentioned, P t)
    {s : List (InstrId × Instruction) × Tables} {entry : InstrId × Instruction}
    (output : ∀ kept ∈ s.1, b.Holds P kept.2) (holds : b.Holds P entry.2) :
    ∀ kept ∈ (scanStep bindings factory m method b s entry).1, b.Holds P kept.2 := by
  have added : ∀ kept ∈ entry :: s.1, b.Holds P kept.2 := List.forall_mem_cons.mpr ⟨holds, output⟩
  unfold scanStep
  split
  · unfold foldDelegate
    split
    next above =>
      rw [above] at output
      split
      · refine List.forall_mem_cons.mpr ⟨⟨nofun, nofun, nofun⟩, ?_⟩
        exact (List.forall_mem_cons.mp (List.forall_mem_cons.mp output).2).2
      · exact above ▸ added
    · exact added
  · exact holds_elide types output holds
  · exact holds_elide types output holds

theorem holds_scan (types : ∀ t ∈ m.mentioned, P t) {code : List (InstrId × Instruction)}
    (holds : ∀ entry ∈ code, b.Holds P entry.2) {s : List (InstrId × Instruction) × Tables}
    (output : ∀ kept ∈ s.1, b.Holds P kept.2) :
    ∀ kept ∈ (code.foldl (scanStep bindings factory m method b) s).1, b.Holds P kept.2 := by
  induction code generalizing s with
  | nil => exact output
  | cons entry code ih =>
    obtain ⟨first, others⟩ := List.forall_mem_cons.mp holds
    exact ih others (holds_scanStep types output first)

/-- What the rules make of a body fits as the body did, and mentions what the body and the module
mention. -/
theorem fits_of_visited {edited : MethodDef} {tables after : Tables}
    (types : ∀ t ∈ m.mentioned, P t)
    (bodies : ∀ b ∈ method.body, b.Sound ∧ b.Fits ∧ ∀ t ∈ b.mentioned, P t)
    (visited : MethodVisited (standardRules bindings factory) m tables method edited after) :
    ∀ b ∈ edited.body, b.Fits ∧ ∀ t ∈ b.mentioned, P t := by
  rcases visited with ⟨bodiless, rfl, -⟩ | ⟨b, c, held, rfl, visited⟩
  · simp [bodiless]
  · obtain ⟨sound, fits, own⟩ := bodies b held
    obtain ⟨retained, -⟩ := retains_scan sound visited
    -- The scan lists what it keeps in reverse.
    have kept : ∀ entry ∈ (b.code.foldl (scanStep bindings factory m method b)
        ([], tables)).1.reverse, b.Holds P entry.2 := fun entry member =>
      holds_scan types (Body.holds_code sound fits own) (by simp) entry
        (List.mem_reverse.mp member)
    rintro d ⟨⟩
    exact ⟨retained.fits sound fits kept, retained.mentions sound.distinct own kept⟩

end Pass

namespace Module

/-- Modules with the same headers name the same types twice. -/
theorem validate_of_bare {m n : Module} (same : n.bare = m.bare) : n.validate = m.validate := by
  have hidden : ∀ k : Module, k.bare.validate = k.validate := fun k => by
    rw [validate, validate, bare, firstDuplicate_map (f := TypeDef.bare) fun _ => rfl]
  rw [← hidden n, same, hidden m]

theorem bare_renumber (m : Module) : m.renumber.bare = m.bare := by
  have methods : ∀ method : MethodDef, method.renumber.bare = method.bare := fun _ => rfl
  simp [bare, renumber, TypeDef.bare, TypeDef.renumber, methods, Function.comp_def]

end Module

namespace Pass

variable {bindings : StaticBindings} {factory : WorkerFactory} {checked : Bool} {m : Module}
  {tables : Tables} {report : Report}

/-- The pass leaves a module whose bodies fit and that mentions no new types. -/
theorem run_fits (sound : m.Sound) (fits : ∀ entry ∈ m.methods, ∀ b ∈ entry.2.body, b.Fits)
    (succeeded : (run (standardRules bindings factory) checked m tables).result = .ok report) :
    let edited := (run (standardRules bindings factory) checked m tables).edited
    (∀ entry ∈ edited.methods, ∀ b ∈ entry.2.body, b.Fits) ∧
      ∀ t ∈ edited.mentioned, t ∈ m.mentioned := by
  obtain ⟨headers, threads⟩ := run_methods succeeded
  have bodies : ∀ entry ∈ (run (standardRules bindings factory) checked m tables).edited.methods,
      ∀ b ∈ entry.2.body, b.Fits ∧ ∀ t ∈ b.mentioned, t ∈ m.mentioned := by
    intro entry member
    obtain ⟨method, origin, _, _, visited⟩ :=
      threads.exists_of_mem_right (List.mem_map_of_mem member)
    obtain ⟨original, there, rfl⟩ := List.mem_map.mp origin
    exact fits_of_visited (fun _ => id) (fun b held =>
      ⟨(sound original there b held).1, fits original there b held, fun t named =>
        (m.mem_mentioned_iff t).mpr (Or.inr ⟨original, there, b, held, named⟩)⟩) visited
  refine ⟨fun entry member b held => (bodies entry member b held).1, fun t named => ?_⟩
  rcases (Module.mem_mentioned_iff t).mp named with header | ⟨entry, member, b, held, inside⟩
  · rw [headers] at header
    exact (m.mem_mentioned_iff t).mpr (Or.inl header)
  · exact (bodies entry member b held).2 t inside

/-- What is seen of a body with its instructions named otherwise. -/
def Contents.mapIds (move : InstrId → InstrId) (c : Contents) : Contents where
  code := c.code.map fun entry => (move entry.1, entry.2.mapTarget move)
  locals := c.locals
  handlers := c.handlers.map (·.mapIds move)
  hasReceiver := c.hasReceiver

theorem contents_renumber {b : Body} (sound : b.Sound) :
    contents b.renumber = (contents b).mapIds b.storedPlace := by
  rw [contents, Body.code_renumber sound.toWellFormed]
  rfl

/-- Whenever the pass with the three rules succeeds on a module that was loaded and whose types are
plain, the text of the result can be loaded again. The new module has the same headers, the same
bodies with every instruction named by its place, gives the same result for every call, and its
stacks are found in order or at fault at the same places. -/
theorem reload_of_run (document : Json.Document) (m : Module) (bindings : StaticBindings)
    (factory : WorkerFactory) (checked : Bool) (tables : Tables) (report : Report)
    (loaded : Module.load document = .ok m) (plain : ∀ t ∈ m.mentioned, t.Plain)
    (succeeded : (run (standardRules bindings factory) checked m tables).result = .ok report) :
    let edited := (run (standardRules bindings factory) checked m tables).edited
    ∃ reloaded, Module.load (Json.read edited.store) = .ok reloaded ∧
      reloaded.bare = edited.bare ∧
      (reloaded.methods.map fun entry => entry.2.body.map contents) =
        (edited.methods.map fun entry =>
          entry.2.body.map fun b => (contents b).mapIds b.storedPlace) ∧
      (∀ limit method args, reloaded.call limit method args = edited.call limit method args) ∧
      reloaded.checkStacks = edited.methods.forM fun entry =>
        (Module.checkMethod entry).mapError entry.2.placed := by
  intro edited
  have sound := Module.sound_of_load loaded
  obtain ⟨parsed, fits, unique⟩ := Module.parsed_of_load loaded
  obtain ⟨headers, threads⟩ := run_methods succeeded
  have formed : edited.Sound := List.forall_mem_map.mp
    (scanMethods_of_threads (List.forall_mem_map.mpr sound) threads).2
  obtain ⟨small, known⟩ := run_fits sound fits succeeded
  -- Every type that is left was read with the module, so its text can be read again.
  have storable : edited.Storable := ⟨fun t named =>
    TypeName.parse_text (parsed t (known t named)) (plain t (known t named)), small⟩
  refine ⟨edited.renumber, Module.load_store formed ?_ storable, ?_, ?_,
    Module.call_renumber formed, Module.checkStacks_renumber formed⟩
  · exact (Module.validate_of_bare headers).trans unique
  · exact edited.bare_renumber
  · rw [Module.methods_renumber, List.map_map]
    refine List.map_congr_left fun entry member => ?_
    rw [Function.comp_apply, MethodDef.renumber, Option.map_map]
    exact Option.map_congr fun b held => contents_renumber (formed entry member b held).1

/-- The sample program has plain types, the pass succeeds on it, and what it leaves survives being
stored and loaded. -/
theorem reload_of_run_sample :
    let outcome := run (standardRules Sample.bindings Sample.factory) true Sample.program {}
    (∀ t ∈ Sample.program.mentioned, t.Plain) ∧ outcome.result = .ok ⟨3, 29, 9⟩ ∧
    ∃ reloaded, Module.load (Json.read outcome.edited.store) = .ok reloaded ∧
      reloaded.bare = outcome.edited.bare ∧
      (reloaded.methods.map fun entry => entry.2.body.map contents) =
        (outcome.edited.methods.map fun entry =>
          entry.2.body.map fun b => (contents b).mapIds b.storedPlace) ∧
      (∀ limit method args,
        reloaded.call limit method args = outcome.edited.call limit method args) ∧
      reloaded.checkStacks = outcome.edited.methods.forM fun entry =>
        (Module.checkMethod entry).mapError entry.2.placed := by
  have plain : ∀ t ∈ Sample.program.mentioned, t.Plain := by decide +kernel
  exact ⟨plain, run_sample,
    reload_of_run _ _ _ _ _ _ _ Sample.load_document plain run_sample⟩

end Pass

end NativeBridge
