import NativeBridge.Proofs.Contraction

/-! Which delegates the pass recognises. It looks at the code as edited so far, but of the edits
only those of the rule for interfaces matter: a delegate becomes a handle if and only if its three
instructions are next to each other once the loads and stores of designated values are out. -/

namespace NativeBridge

theorem Instruction.method?_isSome_of_isMatched {i : Instruction} (matched : i.isMatched = true)
    (kind : i.opcode.operandKind = .method) : i.method?.isSome = true := by
  obtain ⟨op, operand⟩ := i
  have same : op.operandKind = operand.kind := by simpa [isMatched] using matched
  have named : operand.kind = .method := same.symm.trans kind
  cases operand with
  | method callee => rfl
  | _ => cases named

namespace Pass

/-- At a place of some code stand a plain load, the load of a method's address and a third
instruction. -/
structure IdiomAt (code : List (InstrId × Instruction)) (place : Nat)
    (plain address construct : InstrId × Instruction) : Prop where
  first : code[place]? = some plain
  second : code[place + 1]? = some address
  third : code[place + 2]? = some construct
  simple : plain.2.opcode.isPlainLoad = true
  loads : address.2.opcode = .ldftn

/-- The delegates of a body that became handles are those whose idiom stands in some code. Where it
does, the load of a handle took the place of the plain load, and the address is gone too. -/
structure Recognised (m : Module) (code : List (InstrId × Instruction)) (b c : Body) : Prop where
  replaced : ∀ construct ∈ b.code, (nativeSignature? m construct.2).isSome = true →
    (construct.1 ∉ c.order ↔ ∃ place plain address, IdiomAt code place plain address construct)
  overwritten : ∀ construct ∈ b.code, (nativeSignature? m construct.2).isSome = true →
    ∀ place plain address, IdiomAt code place plain address construct →
      address.1 ∉ c.order ∧ plain.1 ∈ c.order ∧
        ∃ handle, c.get? plain.1 = some ⟨.ldcI4, .int32 handle⟩

/-- The delegates of a method are recognised in the code given for its body. -/
def MethodRecognised (m : Module) (code : MethodDef → Body → List (InstrId × Instruction))
    (method edited : MethodDef) : Prop :=
  ∀ b ∈ method.body, ∃ c ∈ edited.body, Recognised m (code method b) b c

section bodies

variable {m : Module} {b c : Body} {code output : List (InstrId × Instruction)} {folds : List Fold}
  {place : Nat} {plain address construct : InstrId × Instruction}

theorem IdiomAt.split (idiom : IdiomAt code place plain address construct) :
    ∃ front rear, code = front ++ plain :: address :: construct :: rear := by
  obtain ⟨first, second, third, _, _⟩ := idiom
  obtain ⟨inside, rfl⟩ := List.getElem?_eq_some_iff.mp first
  obtain ⟨inside', rfl⟩ := List.getElem?_eq_some_iff.mp second
  obtain ⟨inside'', rfl⟩ := List.getElem?_eq_some_iff.mp third
  refine ⟨code.take place, code.drop (place + 3), ?_⟩
  rw [← List.drop_eq_getElem_cons inside'', ← List.drop_eq_getElem_cons inside',
    ← List.drop_eq_getElem_cons inside, List.take_append_drop]

theorem idiomAt_length (front rear : List (InstrId × Instruction))
    (simple : plain.2.opcode.isPlainLoad = true) (loads : address.2.opcode = .ldftn) :
    IdiomAt (front ++ plain :: address :: construct :: rear) front.length plain address
      construct := by
  refine ⟨?_, ?_, ?_, simple, loads⟩ <;> simp

theorem Contracted.exists_fold_of_idiom (contracted : Contracted m b c code output folds)
    (idiom : IdiomAt code.reverse place plain address construct)
    (signed : (nativeSignature? m construct.2).isSome = true) :
    ∃ f ∈ folds, f.construct = construct ∧ f.address = address ∧ f.plain = plain := by
  obtain ⟨front, rear, split⟩ := idiom.split
  have stacked : code = rear.reverse ++ construct :: address :: plain :: front.reverse := by
    rw [← List.reverse_reverse code, split]
    simp
  -- The address was loaded in the original body as well, so it names a method.
  have original : address ∈ b.code := by
    have inCode : address ∈ code := by simp [stacked]
    simpa using contracted.sifts.mem_of_ne_call inCode (by rw [idiom.loads]; rintro ⟨⟩)
  have target : address.2.method?.isSome = true :=
    Instruction.method?_isSome_of_isMatched (contracted.matched address original)
      (by rw [idiom.loads]; rfl)
  exact contracted.contracts.exists_fold stacked
    ⟨_, _, _, rfl, idiom.simple, idiom.loads, target, signed⟩

/-- The delegates of a body are recognised in what the rule for interfaces leaves of it. -/
theorem Contracted.recognised (contracted : Contracted m b c code output folds) :
    Recognised m code.reverse b c where
  replaced := by
    intro construct member signed
    constructor
    · -- Constructions go with folds only, and a fold has its instructions next to each other.
      intro gone
      have dropped : construct ∈ droppedConstructions b.code c.order := by
        simp [droppedConstructions, member, opcode_of_nativeSignature? signed, gone]
      rw [contracted.droppedConstructions_eq, List.mem_map] at dropped
      obtain ⟨f, inFolds, rfl⟩ := dropped
      obtain ⟨made, _, _, _, rear, front, rfl⟩ :=
        contracted.contracts.of_mem contracted.distinct (List.mem_reverse.mp inFolds)
      refine ⟨front.reverse.length, f.plain, f.address, ?_⟩
      simpa using idiomAt_length front.reverse rear.reverse made.simple made.loads
    · rintro ⟨place, plain, address, idiom⟩
      obtain ⟨f, inFolds, rfl, _, _⟩ := contracted.exists_fold_of_idiom idiom signed
      obtain ⟨_, _, gone, _⟩ := contracted.contracts.of_mem contracted.distinct inFolds
      rw [contracted.mem_order_iff]
      exact gone
  overwritten := by
    intro construct member signed place plain address idiom
    obtain ⟨f, inFolds, rfl, rfl, rfl⟩ := contracted.exists_fold_of_idiom idiom signed
    obtain ⟨_, _, _, gone, _⟩ := contracted.contracts.of_mem contracted.distinct inFolds
    obtain ⟨live, held⟩ := contracted.get?_load inFolds
    rw [contracted.mem_order_iff]
    exact ⟨gone, live, _, held⟩

end bodies

theorem methodRecognised_of_threads {bindings : StaticBindings} {factory : WorkerFactory}
    {m : Module} {tables after : Tables} {methods edited : List MethodDef}
    (formed : ∀ method ∈ methods, ∀ b ∈ method.body, b.WellFormed)
    (visited : Threads (MethodVisited (standardRules bindings factory) m) tables methods edited
      after) :
    List.Forall₂ (MethodRecognised m (elideAll bindings m)) methods edited := by
  induction visited with
  | nil => exact .nil
  | cons head _ ih =>
    refine .cons ?_ (ih fun method member => formed method (List.mem_cons_of_mem _ member))
    intro b held
    -- The visit was of this body, or there is none.
    rcases head with ⟨bodiless, _, _⟩ | ⟨_, c, held', rfl, visited⟩
    · rw [bodiless] at held
      cases held
    · obtain rfl := Option.some.inj (held.symm.trans held')
      obtain ⟨_, _, contracted, _⟩ :=
        contracted_of_visited (formed _ List.mem_cons_self b held) visited
      exact ⟨c, rfl, by simpa using contracted.recognised⟩

/-- Whenever the pass with the three rules succeeds, a construction of a type with a native
signature was replaced if and only if it follows a plain load and the load of an address in what the
rule for interfaces by itself leaves of the body; the load of the handle is where the plain load
was. -/
theorem delegates_recognised (m : Module) (bindings : StaticBindings) (factory : WorkerFactory)
    (checked : Bool) (tables : Tables) (report : Report)
    (formed : ∀ entry ∈ m.methods, ∀ b ∈ entry.2.body, b.WellFormed)
    (succeeded : (run (standardRules bindings factory) checked m tables).result = .ok report) :
    List.Forall₂ (MethodRecognised m (elideAll bindings m)) (m.methods.map (·.2))
      ((run (standardRules bindings factory) checked m tables).edited.methods.map (·.2)) :=
  methodRecognised_of_threads (List.forall_mem_map.mpr formed) (run_methods succeeded).2

/-- Whether some code has an instruction right behind the load of an address. -/
def followsAddress (code : List (InstrId × Instruction)) (entry : InstrId × Instruction) : Bool :=
  (List.range code.length).any fun place =>
    code[place + 2]? == some entry && code[place + 1]?.any (·.2.opcode == .ldftn)

theorem IdiomAt.followsAddress {code : List (InstrId × Instruction)} {place : Nat}
    {plain address construct : InstrId × Instruction}
    (idiom : IdiomAt code place plain address construct) :
    followsAddress code construct = true := by
  have inside : place < code.length := (List.getElem?_eq_some_iff.mp idiom.first).1
  refine List.any_eq_true.mpr ⟨place, List.mem_range.mpr inside, ?_⟩
  simp [idiom.second, idiom.third, idiom.loads]

/-- The delegate is recognised once the copy is out. -/
theorem delegates_recognised_interleaved :
    let outcome := run (standardRules Sample.bindings Sample.factory) true
      Sample.interleavedProgram {}
    outcome.result = .ok ⟨1, 7, 4⟩ ∧
      List.Forall₂
        (MethodRecognised Sample.interleavedProgram
          (elideAll Sample.bindings Sample.interleavedProgram))
        (Sample.interleavedProgram.methods.map (·.2)) (outcome.edited.methods.map (·.2)) := by
  have formed := Module.wellFormed_of_load Sample.load_interleaved
  have succeeded : (run (standardRules Sample.bindings Sample.factory) true
      Sample.interleavedProgram {}).result = .ok ⟨1, 7, 4⟩ := by decide +kernel
  exact ⟨succeeded, delegates_recognised _ _ _ _ _ _ formed succeeded⟩

/-- The pass succeeds on a balanced program and replaces a construction that does not follow the
load of an address in the program as it was loaded. -/
theorem interleaved_delegate_replaced :
    let outcome := run (standardRules Sample.bindings Sample.factory) true
      Sample.interleavedProgram {}
    Module.load Sample.interleaved = .ok Sample.interleavedProgram ∧
      Sample.interleavedProgram.checkStacks = .ok () ∧ outcome.result = .ok ⟨1, 7, 4⟩ ∧
      ¬ List.Forall₂ (MethodRecognised Sample.interleavedProgram fun _ b => b.code)
        (Sample.interleavedProgram.methods.map (·.2)) (outcome.edited.methods.map (·.2)) := by
  refine ⟨Sample.load_interleaved, by decide +kernel, by decide +kernel, fun recognised => ?_⟩
  -- An address would have to be loaded right before each construction that is gone.
  have follows : ∀ pair ∈ (Sample.interleavedProgram.methods.map (·.2)).zip ((run (standardRules
      Sample.bindings Sample.factory) true Sample.interleavedProgram {}).edited.methods.map (·.2)),
      ∀ b ∈ pair.1.body, ∃ c ∈ pair.2.body, ∀ construct ∈ droppedConstructions b.code c.order,
        (nativeSignature? Sample.interleavedProgram construct.2).isSome = true →
        followsAddress b.code construct = true := by
    intro pair paired b held
    obtain ⟨c, there, recognised⟩ := (List.forall₂_iff_zip.mp recognised).2 paired b held
    refine ⟨c, there, fun construct dropped signed => ?_⟩
    simp only [droppedConstructions, List.mem_filter, decide_eq_true_eq] at dropped
    obtain ⟨member, _, gone⟩ := dropped
    obtain ⟨_, _, _, idiom⟩ := (recognised.replaced construct member signed).mp gone
    exact idiom.followsAddress
  exact absurd follows (by decide +kernel)

end Pass

end NativeBridge
