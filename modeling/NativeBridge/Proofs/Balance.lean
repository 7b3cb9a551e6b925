import NativeBridge.Proofs.Discipline
import NativeBridge.Proofs.Loading
import NativeBridge.Proofs.Thinning
import NativeBridge.Proofs.Worklist

/-! Taking designated values out keeps disciplined code balanced. The depth at what is left of an
instruction is the number of ordinary values in the shape that the instruction had. -/

namespace NativeBridge

@[simp] theorem Instruction.stackEffect?_mapTarget (i : Instruction) (f : InstrId → InstrId)
    (returnsValue : Bool) :
    (i.mapTarget f).stackEffect? returnsValue = i.stackEffect? returnsValue := by
  simp [Instruction.stackEffect?]

theorem Instruction.pushes_of_isTerminator {i : Instruction} {returnsValue : Bool}
    {counts : StackEffect} (ends : i.opcode.isTerminator = true)
    (known : i.stackEffect? returnsValue = some counts) : counts.pushes = 0 := by
  obtain ⟨op, operand⟩ := i
  unfold Instruction.stackEffect? at known
  cases op <;> cases ends <;> split at known <;> cases known <;> rfl

namespace Pass

/-- A body is disciplined: its shapes hold where handlers are entered too, no stack grows beyond the
limit, and control does not run off the end. -/
structure Disciplined (bindings : StaticBindings) (method : MethodDef) (b : Body)
    (shape : Nat → Option (List Mark)) : Prop extends Shapes bindings method b shape where
  handler : ∀ h ∈ b.handlers, ∀ place, b.position? h.handlerStart = some place →
    shape place = some (List.replicate (Body.entryDepth h.kind) .ordinary)
  bounded : ∀ place s, shape place = some s → s.length ≤ maxStackDepth
  inside : ∀ place s id i, shape place = some s → b.code[place]? = some (id, i) →
    i.opcode.isTerminator = false → place + 1 < b.size

theorem disciplined_recorded_iff {bindings : StaticBindings} {method : MethodDef} {b : Body}
    {table : List (Option (List Mark))} :
    Disciplined bindings method b (Body.recorded table) ↔
      Shapes bindings method b (Body.recorded table) ∧
      (∀ h ∈ b.handlers, ∀ place ∈ b.position? h.handlerStart,
        Body.recorded table place = some (List.replicate (Body.entryDepth h.kind) .ordinary)) ∧
      ∀ place < table.length, ∀ s ∈ Body.recorded table place, s.length ≤ maxStackDepth ∧
        ∀ entry ∈ b.code[place]?, entry.2.opcode.isTerminator = false → place + 1 < b.size := by
  constructor
  · intro disciplined
    exact ⟨disciplined.toShapes, disciplined.handler, fun place _ s shaped =>
      ⟨disciplined.bounded place s shaped, fun entry => disciplined.inside place s _ _ shaped⟩⟩
  · rintro ⟨shapes, handler, places⟩
    have inside := fun place s (shaped : Body.recorded table place = some s) =>
      places place (Body.lt_length_of_recorded shaped) s shaped
    exact ⟨shapes, handler, fun place s shaped => (inside place s shaped).1,
      fun place s id i shaped => (inside place s shaped).2 (id, i)⟩

instance (bindings : StaticBindings) (method : MethodDef) (b : Body)
    (table : List (Option (List Mark))) :
    Decidable (Disciplined bindings method b (Body.recorded table)) :=
  decidable_of_iff' _ disciplined_recorded_iff

/-- The methods that mapped calls are led to take as many arguments as the calls give, and return a
value if the calls want one. The rule does not see to this. -/
def AdaptersAgree (bindings : StaticBindings) (m : Module) (b : Body) : Prop :=
  ∀ entry ∈ b.code, ∀ callee ∈ mappedCallee? bindings entry.2,
    ∀ target ∈ redirection? bindings m entry.2,
      target.params.length = callee.params.length ∧ target.outputs = callee.outputs

instance (bindings : StaticBindings) (m : Module) (b : Body) :
    Decidable (AdaptersAgree bindings m b) :=
  inferInstanceAs (Decidable (∀ entry ∈ b.code, ∀ callee ∈ mappedCallee? bindings entry.2,
    ∀ target ∈ redirection? bindings m entry.2,
      target.params.length = callee.params.length ∧ target.outputs = callee.outputs))

section instructions

variable {bindings : StaticBindings} {m : Module} {method : MethodDef} {b : Body} {id : InstrId}
  {i : Instruction} {kept : InstrId × Instruction} {effect : ShapeEffect}

/-- A mapped call becomes the call of a static method. -/
theorem redirection?_of_mapped {callee : MethodRef}
    (mapped : mappedCallee? bindings i = some callee)
    (resolved : ∀ callee adapter, i.method? = some callee →
      bindings.adapter? callee.declaringType = some adapter →
      ∃ target, adapterTarget m adapter callee = .ok target) :
    ∃ target, redirection? bindings m i = some target ∧ target.hasReceiver = false := by
  obtain ⟨_, named, adapter, bound⟩ := mappedCallee?_eq_some_iff.mp mapped
  obtain ⟨target, chosen⟩ := resolved callee adapter named bound
  refine ⟨target, ?_, hasReceiver_of_adapterTarget chosen⟩
  simp [redirection?, named, bound, chosen, Except.toOption]

/-- An instruction that stands in for another one: it does to the ordinary values what the other one
did, and control goes on in the same way. -/
structure StandsIn (returnsValue : Bool) (i j : Instruction) (effect : ShapeEffect) : Prop where
  known : j.stackEffect? returnsValue =
    some ⟨effect.pops.count .ordinary, effect.pushes.count .ordinary⟩
  ends : j.opcode.isTerminator = i.opcode.isTerminator
  returns : j.opcode = .ret → i.opcode = .ret
  target : j.target? = i.target?

theorem shapeEffect?_of_mapped {callee : MethodRef}
    (mapped : mappedCallee? bindings i = some callee)
    (still : movesDesignated bindings method b i = false)
    (known : shapeEffect? bindings method b i = some effect) :
    effect.pops.count .ordinary = callee.params.length ∧
      effect.pushes.count .ordinary = callee.outputs := by
  simp only [shapeEffect?, still, mapped, Bool.false_eq_true, if_false,
    Option.map_eq_some_iff] at known
  obtain ⟨_, _, rfl⟩ := known
  simp [List.count_replicate]

/-- What is kept of an instruction stands in for it. -/
theorem standsIn_of_survive (known : shapeEffect? bindings method b i = some effect)
    (resolved : i.opcode.category = .call → ∀ callee adapter, i.method? = some callee →
      bindings.adapter? callee.declaringType = some adapter →
      ∃ target, adapterTarget m adapter callee = .ok target)
    (agree : ∀ callee ∈ mappedCallee? bindings i, ∀ target ∈ redirection? bindings m i,
      target.params.length = callee.params.length ∧ target.outputs = callee.outputs)
    (stays : survive bindings m method b (id, i) = some kept) :
    StandsIn method.returnsValue i kept.2 effect := by
  cases still : movesDesignated bindings method b i with
  | true => simp [survive, still] at stays
  | false =>
    cases mapped : mappedCallee? bindings i with
    | none =>
      obtain ⟨counts, plain, rfl⟩ := shapeEffect?_of_plain still mapped known
      cases (survive_of_plain still mapped).symm.trans stays
      exact ⟨by simpa [List.count_replicate] using plain, rfl, fun returns => returns, rfl⟩
    | some callee =>
      -- The receiver was the one designated value that the call took, and its adapter has none.
      obtain ⟨kind, named, _⟩ := mappedCallee?_eq_some_iff.mp mapped
      obtain ⟨target, led, static⟩ := redirection?_of_mapped mapped (resolved kind)
      obtain ⟨pops, pushes⟩ := shapeEffect?_of_mapped mapped still known
      obtain ⟨params, outputs⟩ := agree callee mapped target led
      simp only [survive, still, Bool.false_eq_true, if_false, kind, redirect, led,
        Option.some.injEq] at stays
      subst stays
      refine ⟨?_, ?_, by simp, ?_⟩
      · rw [pops, pushes, ← params, ← outputs]
        simp [Instruction.stackEffect?, Instruction.isMatched, Instruction.method?,
          Opcode.operandKind, Operand.kind, MethodRef.inputs, static]
      · rcases i with ⟨op, operand⟩
        cases op <;> simp_all [Opcode.category, Opcode.isTerminator]
      · rcases i with ⟨op, operand⟩
        cases operand <;> simp_all [Instruction.method?, Instruction.target?]

/-- Where control does not run on, nothing is put on the stack. -/
theorem pushes_of_isTerminator (ends : i.opcode.isTerminator = true)
    (known : shapeEffect? bindings method b i = some effect) : effect.pushes = [] := by
  have still : movesDesignated bindings method b i = false := by
    by_contra moves
    rw [Bool.not_eq_false] at moves
    simp [isTerminator_of_movesDesignated moves] at ends
  have unmapped : mappedCallee? bindings i = none := by
    rcases i with ⟨op, operand⟩
    cases op <;> cases ends <;> rfl
  obtain ⟨counts, plain, rfl⟩ := shapeEffect?_of_plain still unmapped known
  rw [Instruction.pushes_of_isTerminator ends plain]
  rfl

end instructions

section bodies

variable {bindings : StaticBindings} {m : Module} {method : MethodDef} {b edited : Body}
  {shape : Nat → Option (List Mark)}

/-- The number of ordinary values at what is left of a place. -/
def keptDepth (b edited : Body) (shape : Nat → Option (List Mark)) (place : Nat) : Option Nat := do
  let id ← edited.order[place]?
  let original ← b.position? id
  let s ← shape original
  pure (s.count .ordinary)

/-- What a place has become has the depth that the ordinary values of its shape make. The
instructions that are gone between the two do not change that number. -/
theorem keptDepth_rank (thinned : Body.Thinned (survive bindings m method b) b edited)
    (disciplined : Disciplined bindings method b shape) {place : Nat} {s : List Mark}
    (shaped : shape place = some s) :
    keptDepth b edited shape (Body.rank (survive bindings m method b) b.code place) =
      some (s.count .ordinary) := by
  have formed := thinned.sound.toWellFormed
  -- The induction is on the number of places up to the end: an instruction that is gone has the
  -- rank of the next one, and it moves no ordinary values.
  induction remaining : b.size - place generalizing place s with
  | zero =>
    obtain ⟨id, i, _, _, there, _⟩ := disciplined.flow place s shaped
    have inside := (List.getElem?_eq_some_iff.mp there).1
    rw [Body.length_code formed] at inside
    omega
  | succ remaining ih =>
    obtain ⟨id, i, effect, rest, there, known, rfl, _, flow⟩ := disciplined.flow place s shaped
    cases stays : survive bindings m method b (id, i) with
    | some kept =>
      have live := ((Body.code_getElem?_iff thinned.wellFormed ..).mp
        (thinned.code_rank there stays)).1
      have original := (Body.position?_eq_some_iff formed id place).mpr
        ((Body.code_getElem?_iff formed ..).mp there).1
      simp [keptDepth, live, original, shaped]
    | none =>
      have moves : movesDesignated bindings method b i = true := by
        by_contra still
        rw [survive, if_neg still] at stays
        split at stays <;> cases stays
      have onward := isTerminator_of_movesDesignated moves
      have inside := disciplined.inside place _ id i shaped there onward
      have next := flow (place + 1) (Or.inl ⟨onward, rfl, inside⟩)
      obtain ⟨counts, _, rfl⟩ := shapeEffect?_of_moves moves known
      rw [← Body.rank_succ_of_none there stays, ih next (by omega)]
      simp [List.count_replicate]

/-- Every mapped call has found a method that takes and returns as many values. -/
structure CallsFit (bindings : StaticBindings) (m : Module) (b : Body) : Prop where
  resolved : ∀ id i, (id, i) ∈ b.code → i.opcode.category = .call → ∀ callee adapter,
    i.method? = some callee → bindings.adapter? callee.declaringType = some adapter →
    ∃ target, adapterTarget m adapter callee = .ok target
  agree : AdaptersAgree bindings m b

/-- What is left of a place with a shape is not the end of the body. -/
theorem rank_lt_size (thinned : Body.Thinned (survive bindings m method b) b edited)
    (disciplined : Disciplined bindings method b shape) {place : Nat} {s : List Mark}
    (shaped : shape place = some s) :
    Body.rank (survive bindings m method b) b.code place < edited.size := by
  have depth := keptDepth_rank thinned disciplined shaped
  by_contra outside
  rw [keptDepth, List.getElem?_eq_none (Nat.not_lt.mp outside)] at depth
  cases depth

/-- A shape passes on to what is left of a place. -/
theorem typed_of_shape (thinned : Body.Thinned (survive bindings m method b) b edited)
    (disciplined : Disciplined bindings method b shape) (fit : CallsFit bindings m b)
    {place : Nat} {s : List Mark} {id : InstrId} {i : Instruction} {kept : InstrId × Instruction}
    (shaped : shape place = some s) (there : b.code[place]? = some (id, i))
    (stays : survive bindings m method b (id, i) = some kept) :
    edited.Typed method.returnsValue (keptDepth b edited shape)
      (Body.rank (survive bindings m method b) b.code place) (s.count .ordinary) := by
  obtain ⟨_, _, effect, rest, here, known, rfl, returns, flow⟩ := disciplined.flow place s shaped
  obtain ⟨rfl, rfl⟩ := Prod.mk.inj (Option.some.inj (there.symm.trans here))
  have member := List.mem_of_getElem? there
  have stands := standsIn_of_survive known (fit.resolved id i member) (fit.agree (id, i) member)
    stays
  have inside := disciplined.inside place _ id i shaped there
  have behind : i.opcode.isTerminator = false →
      shape (place + 1) = some (effect.pushes ++ rest) := fun onward =>
    flow (place + 1) (Or.inl ⟨onward, rfl, inside onward⟩)
  have after : (effect.pops ++ rest).count .ordinary - effect.pops.count .ordinary +
      effect.pushes.count .ordinary = (effect.pushes ++ rest).count .ordinary := by
    simp only [List.count_append]
    omega
  have code := thinned.code_rank there stays
  refine ⟨id, _, ⟨effect.pops.count .ordinary, effect.pushes.count .ordinary⟩, code,
    ⟨?known, by simp, ?bounded, ?balanced, ?target, ?inside⟩, ?flow⟩
  case known =>
    rw [Instruction.stackEffect?_mapTarget]
    exact stands.known
  case bounded =>
    rw [after]
    cases ends : i.opcode.isTerminator with
    | true =>
      -- There is no shape behind, but then nothing is put on the stack.
      have few := disciplined.bounded place _ shaped
      have counted := List.count_le_length (a := Mark.ordinary) (l := rest)
      simp only [pushes_of_isTerminator ends known, List.nil_append, List.length_append] at few ⊢
      omega
    | false =>
      exact Nat.le_trans List.count_le_length (disciplined.bounded (place + 1) _ (behind ends))
  case balanced =>
    intro ret
    rw [after, returns (stands.returns ret)]
    rfl
  case target =>
    exact (thinned.retained.sound thinned.sound.distinct).branch _ (List.mem_of_getElem? code)
  case inside =>
    intro onward
    -- The place behind has a shape, so something is left of it or of what comes after it.
    rw [Instruction.opcode_mapTarget, stands.ends] at onward
    rw [← Body.rank_succ_of_some there stays]
    exact rank_lt_size thinned disciplined (behind onward)
  case flow =>
    intro next follows
    obtain ⟨original, followed, rfl⟩ := thinned.follows_rank there stays inside stands.ends
      stands.target follows
    rw [after]
    exact keptDepth_rank thinned disciplined (flow original followed)

/-- What is left of a disciplined body has a depth typing. -/
theorem depthTyping_of_disciplined (thinned : Body.Thinned (survive bindings m method b) b edited)
    (disciplined : Disciplined bindings method b shape) (fit : CallsFit bindings m b)
    (nonempty : b.size ≠ 0) :
    edited.DepthTyping method.returnsValue (keptDepth b edited shape) where
  start := by
    have begun := keptDepth_rank thinned disciplined (disciplined.start nonempty)
    rwa [Body.rank_zero] at begun
  handler := by
    intro h member place found
    rw [thinned.retained.handlers, List.mem_map] at member
    obtain ⟨h, member, rfl⟩ := member
    -- The start of the handler has been led to what is left of its place.
    have named : h.handlerStart ∈ h.starts := by simp [Handler.starts]
    obtain ⟨original, position⟩ :=
      (b.position?_isSome_iff h.handlerStart).mpr (thinned.sound.start h member _ named)
    have lands := thinned.position?_landing
      ((Body.position?_eq_some_iff thinned.sound.toWellFormed ..).mp position)
      (thinned.retained.start h member _ named)
    obtain rfl := Option.some.inj (found.symm.trans lands)
    rw [keptDepth_rank thinned disciplined (disciplined.handler h member original position)]
    simp [Handler.relocate]
  flow := by
    intro place n depth
    simp only [keptDepth, Option.bind_eq_bind, Option.bind_eq_some_iff, Option.pure_def,
      Option.some.injEq] at depth
    -- A place with a depth is the rank of a place with a shape whose instruction is kept.
    obtain ⟨id, live, original, position, s, shaped, rfl⟩ := depth
    obtain ⟨spot, i, kept, there, stays, rfl⟩ := thinned.exists_of_order live
    have formed := thinned.sound.toWellFormed
    have same := (Body.position?_eq_some_iff formed id spot).mpr
      ((Body.code_getElem?_iff formed ..).mp there).1
    obtain rfl := Option.some.inj (position.symm.trans same)
    exact typed_of_shape thinned disciplined fit shaped there stays

/-- What is left of a disciplined body passes the stack check. -/
theorem checkStack_of_disciplined (thinned : Body.Thinned (survive bindings m method b) b edited)
    (disciplined : Disciplined bindings method b shape) (fit : CallsFit bindings m b) :
    edited.checkStack method.returnsValue = .ok () := by
  rw [Body.checkStack_ok_iff thinned.wellFormed]
  by_cases empty : b.size = 0
  · left
    rw [thinned.size_eq, empty, Body.rank_zero]
  · right
    exact ⟨_, depthTyping_of_disciplined thinned disciplined fit empty⟩

end bodies

/-- What is left of a method with disciplined code passes the stack check. -/
theorem checkMethod_of_visited {σ : Type} {bindings : StaticBindings} {m : Module} {type : TypeDef}
    {method edited : MethodDef} {before after : σ} (sound : ∀ b ∈ method.body, b.Sound)
    (disciplined : ∀ b ∈ method.body,
      StaticFields bindings b ∧ ∃ shape, Disciplined bindings method b shape)
    (agree : ∀ b ∈ method.body, AdaptersAgree bindings m b)
    (visited : MethodVisited [interfaceCalls bindings] m before method edited after) :
    Module.checkMethod (type, edited) = .ok () := by
  unfold Module.checkMethod
  rcases visited with ⟨bodiless, rfl, _⟩ | ⟨b, c, held, rfl, visited⟩
  · rw [bodiless]
  · obtain ⟨static, shape, shaped⟩ := disciplined b held
    have formed := sound b held
    -- The rule has found a method for every mapped call, or it would have failed.
    have fit : CallsFit bindings m b :=
      ⟨fun id i inside => ((retains_elideAll formed visited).2 id i inside).2, agree b held⟩
    have balanced :=
      checkStack_of_disciplined (thinned_of_visited formed static visited) shaped fit
    exact (Success.mapError_ok_iff ..).mpr balanced

/-- A pass with the rule for interfaces keeps disciplined code balanced: if it succeeds, the result
passes the stack check, and to ask for that check never makes it fail. -/
theorem run_balanced {σ : Type} (document : Json.Document) (m : Module)
    (bindings : StaticBindings) (state : σ) (loaded : Module.load document = .ok m)
    (disciplined : ∀ entry ∈ m.methods, ∀ b ∈ entry.2.body,
      StaticFields bindings b ∧ ∃ shape, Disciplined bindings entry.2 b shape)
    (agree : ∀ entry ∈ m.methods, ∀ b ∈ entry.2.body, AdaptersAgree bindings m b) :
    (∀ checked report, (run [interfaceCalls bindings] checked m state).result = .ok report →
      (run [interfaceCalls bindings] checked m state).edited.checkStacks = .ok ()) ∧
    (run [interfaceCalls bindings] true m state).result =
      (run [interfaceCalls bindings] false m state).result := by
  have passes : ∀ checked report,
      (run [interfaceCalls bindings] checked m state).result = .ok report →
      (run [interfaceCalls bindings] checked m state).edited.checkStacks = .ok () := by
    intro checked report succeeded
    obtain ⟨_, threads⟩ := run_methods succeeded
    rw [Module.checkStacks, Success.forM_ok_iff]
    intro entry member
    obtain ⟨_, listed, _, _, visited⟩ :=
      threads.exists_of_mem_right (List.mem_map_of_mem (f := (·.2)) member)
    obtain ⟨original, inside, rfl⟩ := List.mem_map.mp listed
    exact checkMethod_of_visited
      (fun b held => (Module.sound_of_load loaded original inside b held).1)
      (disciplined original inside) (agree original inside) visited
  refine ⟨passes, ?_⟩
  obtain ⟨unchecked, _, result⟩ := run_eq [interfaceCalls bindings] false m state
  obtain ⟨edited, _, verified⟩ := run_eq [interfaceCalls bindings] true m state
  rw [verified, result]
  cases visited : (visitAll [interfaceCalls bindings] m state).1 with
  | error e => rfl
  | ok value =>
    -- Without the check the pass succeeds, and it leaves the same module with it.
    have balanced := passes false _ (by rw [result, visited]; rfl)
    rw [edited, ← unchecked, balanced]
    rfl

/-- The pass succeeds on the sample program, whose code is disciplined, and leaves it balanced. -/
theorem run_balanced_sample :
    let outcome := run [interfaceCalls Sample.bindings] true Sample.program ()
    outcome.result = .ok ⟨3, 29, 5⟩ ∧ outcome.edited.checkStacks = .ok () := by
  have disciplined : ∀ entry ∈ Sample.program.methods, ∀ b ∈ entry.2.body,
      StaticFields Sample.bindings b ∧
        Disciplined Sample.bindings entry.2 b
          (Body.recorded (shapesOf (Sample.onStack entry.2.name))) := by
    decide +kernel
  have agree : ∀ entry ∈ Sample.program.methods, ∀ b ∈ entry.2.body,
      AdaptersAgree Sample.bindings Sample.program b := by decide +kernel
  have succeeded : (run [interfaceCalls Sample.bindings] true Sample.program ()).result =
      .ok ⟨3, 29, 5⟩ := by decide +kernel
  exact ⟨succeeded, (run_balanced _ _ _ () Sample.load_document
    (fun entry member b held => ⟨(disciplined entry member b held).1, _,
      (disciplined entry member b held).2⟩) agree).1 true _ succeeded⟩

/-- Disciplined code alone is not enough: when the method of the adapter takes an argument that the
call does not give, the pass succeeds without the stack check and fails with it. -/
theorem unbalanced_without_agreement :
    ∃ document m, Module.load document = .ok m ∧
      (∀ entry ∈ m.methods, ∀ b ∈ entry.2.body, StaticFields Sample.bindings b ∧
        ∃ shape, Disciplined Sample.bindings entry.2 b shape) ∧
      (run [interfaceCalls Sample.bindings] false m ()).result = .ok ⟨3, 29, 5⟩ ∧
      (run [interfaceCalls Sample.bindings] true m ()).result.isOk = false := by
  let document := Sample.documentWith [.array [Sample.word "line", Sample.word "Int"]] []
  let m := (Module.load document).toOption.getD default
  have disciplined : ∀ entry ∈ m.methods, ∀ b ∈ entry.2.body, StaticFields Sample.bindings b ∧
      Disciplined Sample.bindings entry.2 b
        (Body.recorded (shapesOf (Sample.onStack entry.2.name))) := by
    decide +kernel
  refine ⟨document, m, by decide +kernel, fun entry member b held => ?_, by decide +kernel,
    by decide +kernel⟩
  exact ⟨(disciplined entry member b held).1, _, (disciplined entry member b held).2⟩

end Pass

end NativeBridge
