import NativeBridge.Proofs.Elision
import NativeBridge.Proofs.Thinning

/-! Disciplined bodies. A stack shape marks which values of the stack are designated ones. In a
disciplined body designated values only go from slots and static fields to other such places or to
the receiver of a call on an interface with an adapter, so that the rule for interfaces takes out
exactly the instructions that handle them. -/

namespace NativeBridge.Pass

/-- What a stack shape tells of a value. -/
inductive Mark where
  | designated
  | ordinary
deriving DecidableEq, Repr

/-- The declared type of what an instruction loads or stores. -/
def valueType? (method : MethodDef) (b : Body) (i : Instruction) : Option TypeName :=
  match i.opcode.category with
  | .loadField | .storeField => i.field?.map (·.type)
  | _ => slotType? method b i

/-- Whether an instruction loads or stores a designated value. -/
def movesDesignated (bindings : StaticBindings) (method : MethodDef) (b : Body) (i : Instruction) :
    Bool :=
  (valueType? method b i).any bindings.isDesignated

/-- The method that a call on an interface with an adapter names. -/
def mappedCallee? (bindings : StaticBindings) (i : Instruction) : Option MethodRef :=
  match i.opcode.category with
  | .call => i.method?.filter fun callee => (bindings.adapter? callee.declaringType).isSome
  | _ => none

/-- The marks an instruction takes from a stack and those it puts there, the top first. -/
structure ShapeEffect where
  pops : List Mark
  pushes : List Mark
deriving DecidableEq, Repr

/-- What an instruction does to a stack shape; `none` if its operand is of the wrong kind. Loads and
stores of designated values move designated marks, a mapped call takes one for its receiver, and
all else works on ordinary values. -/
def shapeEffect? (bindings : StaticBindings) (method : MethodDef) (b : Body) (i : Instruction) :
    Option ShapeEffect :=
  (i.stackEffect? method.returnsValue).map fun effect =>
    if movesDesignated bindings method b i then
      ⟨List.replicate effect.pops .designated, List.replicate effect.pushes .designated⟩
    else
      match mappedCallee? bindings i with
      | some callee =>
        ⟨List.replicate callee.params.length .ordinary ++
            List.replicate callee.hasReceiver.toNat .designated,
          List.replicate callee.outputs .ordinary⟩
      | none => ⟨List.replicate effect.pops .ordinary, List.replicate effect.pushes .ordinary⟩

/-- Fields of designated types are accessed by the static opcodes and as static ones. -/
def StaticFields (bindings : StaticBindings) (b : Body) : Prop :=
  ∀ entry ∈ b.code, ∀ field ∈ entry.2.field?,
    (entry.2.opcode.category = .loadField ∨ entry.2.opcode.category = .storeField) →
    bindings.isDesignated field.type = true →
    (entry.2.opcode = .ldsfld ∨ entry.2.opcode = .stsfld) ∧ field.isStatic = true

instance (bindings : StaticBindings) (b : Body) : Decidable (StaticFields bindings b) :=
  inferInstanceAs (Decidable (∀ entry ∈ b.code, ∀ field ∈ entry.2.field?,
    (entry.2.opcode.category = .loadField ∨ entry.2.opcode.category = .storeField) →
    bindings.isDesignated field.type = true →
    (entry.2.opcode = .ldsfld ∨ entry.2.opcode = .stsfld) ∧ field.isStatic = true))

/-- A shape for some places of a body that holds at the start and that every instruction there
passes on to the places that follow. A return leaves nothing behind. -/
structure Shapes (bindings : StaticBindings) (method : MethodDef) (b : Body)
    (shape : Nat → Option (List Mark)) : Prop where
  start : b.size ≠ 0 → shape 0 = some []
  flow : ∀ place s, shape place = some s → ∃ id i effect rest,
    b.code[place]? = some (id, i) ∧ shapeEffect? bindings method b i = some effect ∧
      s = effect.pops ++ rest ∧ (i.opcode = .ret → effect.pushes ++ rest = []) ∧
      ∀ next, b.Follows place i next → shape next = some (effect.pushes ++ rest)

/-- What the rule leaves of an instruction of a disciplined body. -/
def survive (bindings : StaticBindings) (m : Module) (method : MethodDef) (b : Body)
    (entry : InstrId × Instruction) : Option (InstrId × Instruction) :=
  if movesDesignated bindings method b entry.2 then none
  else
    match entry.2.opcode.category with
    | .call => some (entry.1, redirect bindings m entry.2)
    | _ => some entry

section scan

variable {bindings : StaticBindings} {m : Module} {method : MethodDef} {b : Body}

theorem survive_fst {entry kept : InstrId × Instruction}
    (survives : survive bindings m method b entry = some kept) : kept.1 = entry.1 := by
  unfold survive at survives
  split at survives
  · cases survives
  · -- A call may be led elsewhere, but under its own identity.
    split at survives <;> cases survives <;> rfl

/-- Where all designated fields are static, the scan never takes anything off its output. -/
theorem elide_eq_survive (static : StaticFields bindings b) {id : InstrId} {i : Instruction}
    (member : (id, i) ∈ b.code) (output : List (InstrId × Instruction)) :
    elide bindings m method b output (id, i) =
      (survive bindings m method b (id, i)).toList ++ output := by
  have fields := static (id, i) member
  unfold elide survive movesDesignated valueType?
  cases kind : i.opcode.category with
  | loadArgument | storeArgument | loadLocal | storeLocal =>
    dsimp only
    split <;> simp
  | loadField | storeField =>
    -- Only an access to an object would take its load off the output.
    dsimp only
    cases named : i.field? with
    | none => simp
    | some field =>
      cases designated : bindings.isDesignated field.type with
      | false => simp [designated]
      | true => simp [designated, (fields field named (by simp [kind]) designated).2]
  | call | newObject | other => simp [kind, slotType?]

theorem elideAll_eq_filterMap (static : StaticFields bindings b) :
    elideAll bindings m method b = b.code.filterMap (survive bindings m method b) := by
  -- The output has its last instruction first, so what is kept goes there in reverse.
  have scanned : ∀ entries output, entries ⊆ b.code →
      entries.foldl (elide bindings m method b) output =
        (entries.filterMap (survive bindings m method b)).reverse ++ output := by
    intro entries
    induction entries with
    | nil => simp
    | cons entry entries ih =>
      intro output inside
      obtain ⟨member, rest⟩ := List.cons_subset.mp inside
      rw [List.foldl_cons, elide_eq_survive static member, ih _ rest, List.filterMap_cons]
      cases survive bindings m method b entry <;> simp
  simp [elideAll, scanned b.code [] (List.Subset.refl _)]

/-- The rule by itself thins a body out whose designated fields are static. -/
theorem thinned_of_visited {σ : Type} {state final : σ} {edited : Body} (sound : b.Sound)
    (static : StaticFields bindings b)
    (visited : Visited [interfaceCalls bindings] m method state b edited final) :
    Body.Thinned (survive bindings m method b) b edited where
  keeps _ _ := survive_fst
  sound := sound
  retained := elideAll_eq_filterMap static ▸ (retains_elideAll sound visited).1

/-- Instructions that move designated values run on to the next one. -/
theorem isTerminator_of_movesDesignated {i : Instruction}
    (moves : movesDesignated bindings method b i = true) : i.opcode.isTerminator = false := by
  rcases i with ⟨op, operand⟩
  cases op <;> simp_all [movesDesignated, valueType?, slotType?, Opcode.category,
    Opcode.isTerminator]

/-- They take and put designated values only. -/
theorem shapeEffect?_of_moves {i : Instruction} {effect : ShapeEffect}
    (moves : movesDesignated bindings method b i = true)
    (known : shapeEffect? bindings method b i = some effect) :
    ∃ counts, i.stackEffect? method.returnsValue = some counts ∧
      effect = ⟨List.replicate counts.pops .designated,
        List.replicate counts.pushes .designated⟩ := by
  simp only [shapeEffect?, Option.map_eq_some_iff, moves, if_true] at known
  obtain ⟨counts, known, rfl⟩ := known
  exact ⟨counts, known, rfl⟩

theorem mappedCallee?_eq_some_iff {i : Instruction} {callee : MethodRef} :
    mappedCallee? bindings i = some callee ↔ i.opcode.category = .call ∧ i.method? = some callee ∧
      ∃ adapter, bindings.adapter? callee.declaringType = some adapter := by
  unfold mappedCallee?
  split
  next kind => simp [kind, Option.filter_eq_some_iff, Option.isSome_iff_exists]
  next other => simp [show i.opcode.category ≠ .call from other]

/-- A call that is not mapped stays as it is. -/
theorem redirect_of_not_mapped {i : Instruction} (kind : i.opcode.category = .call)
    (unmapped : mappedCallee? bindings i = none) : redirect bindings m i = i := by
  have none : redirection? bindings m i = none := by
    unfold redirection?
    cases named : i.method? with
    | none => rfl
    | some callee =>
      cases bound : bindings.adapter? callee.declaringType with
      | none => simp [bound]
      | some adapter =>
        have mapped := mappedCallee?_eq_some_iff.mpr ⟨kind, named, adapter, bound⟩
        simp [mapped] at unmapped
  simp [redirect, none]

/-- An instruction that neither moves designated values nor is a mapped call takes and puts ordinary
values only. -/
theorem shapeEffect?_of_plain {i : Instruction} {effect : ShapeEffect}
    (still : movesDesignated bindings method b i = false)
    (unmapped : mappedCallee? bindings i = none)
    (known : shapeEffect? bindings method b i = some effect) :
    ∃ counts, i.stackEffect? method.returnsValue = some counts ∧
      effect = ⟨List.replicate counts.pops .ordinary, List.replicate counts.pushes .ordinary⟩ := by
  simp only [shapeEffect?, still, unmapped, Bool.false_eq_true, if_false,
    Option.map_eq_some_iff] at known
  obtain ⟨counts, known, rfl⟩ := known
  exact ⟨counts, known, rfl⟩

/-- Such an instruction stays as it is. -/
theorem survive_of_plain {id : InstrId} {i : Instruction}
    (still : movesDesignated bindings method b i = false)
    (unmapped : mappedCallee? bindings i = none) :
    survive bindings m method b (id, i) = some (id, i) := by
  rw [survive, if_neg (by simp [still])]
  split
  next kind => rw [redirect_of_not_mapped kind unmapped]
  next => rfl

/-- The method of an adapter that a call is led to is static. -/
theorem hasReceiver_of_adapterTarget {adapter : TypeName} {callee target : MethodRef}
    (chosen : adapterTarget m adapter callee = .ok target) : target.hasReceiver = false := by
  unfold adapterTarget at chosen
  split at chosen
  · cases chosen
  next type _ =>
    split at chosen
    · cases chosen
    next selected found =>
      cases chosen
      have static : selected.isStatic = true := by
        simp only [adapterMethod?, TypeDef.staticMethod?, Option.or_eq_some_iff] at found
        rcases found with found | ⟨_, found⟩
        · have holds := List.find?_some found
          simp only [Bool.and_eq_true] at holds
          exact holds.1
        · have holds := List.find?_some found
          simp only [Bool.and_eq_true] at holds
          exact holds.1
      simp [MethodDef.ref, static]

end scan

section table

variable {bindings : StaticBindings} {method : MethodDef} {b : Body}
  {table : List (Option (List Mark))}

/-- For shapes in a table it can be checked whether they are shapes of a body. -/
theorem shapes_recorded_iff :
    Shapes bindings method b (Body.recorded table) ↔
      (b.size ≠ 0 → Body.recorded table 0 = some []) ∧
      ∀ place < table.length, ∀ s ∈ Body.recorded table place,
        ∃ entry ∈ b.code[place]?, ∃ effect ∈ shapeEffect? bindings method b entry.2,
          effect.pops <+: s ∧
          (entry.2.opcode = .ret → effect.pushes ++ s.drop effect.pops.length = []) ∧
          ∀ next ∈ b.successors place entry.2, next < b.size →
            Body.recorded table next = some (effect.pushes ++ s.drop effect.pops.length) := by
  constructor
  · intro shapes
    refine ⟨shapes.start, fun place _ s shaped => ?_⟩
    obtain ⟨id, i, effect, rest, there, known, rfl, returns, flow⟩ := shapes.flow place s shaped
    refine ⟨(id, i), there, effect, known, List.prefix_append .., ?_⟩
    -- What is below the marks that are taken is what is left when they are dropped.
    rw [List.drop_left]
    exact ⟨returns, fun next member inside =>
      flow next ((b.follows_iff place i next).mpr ⟨member, inside⟩)⟩
  · rintro ⟨start, flow⟩
    refine ⟨start, fun place s shaped => ?_⟩
    obtain ⟨⟨id, i⟩, there, effect, known, ⟨rest, rfl⟩, returns, passes⟩ :=
      flow place (Body.lt_length_of_recorded shaped) s shaped
    rw [List.drop_left] at returns passes
    refine ⟨id, i, effect, rest, there, known, rfl, returns, fun next follows => ?_⟩
    obtain ⟨member, inside⟩ := (b.follows_iff place i next).mp follows
    exact passes next member inside

instance : Decidable (Shapes bindings method b (Body.recorded table)) :=
  decidable_of_iff' _ shapes_recorded_iff

end table

/-- A table of shapes, given by whether each value is designated. -/
def shapesOf (table : List (List Bool)) : List (Option (List Mark)) :=
  table.map fun stack =>
    some (stack.map fun designated => if designated then .designated else .ordinary)

end NativeBridge.Pass
