import NativeBridge.Proofs.Discipline
import NativeBridge.Proofs.StackSafety

/-! Frames that run elided code. Such a frame mirrors one that runs the original code: it lacks the
designated values on the stack, may hold anything in the slots for them, and stands at what is left
of the same place. Performing an operation on ordinary values keeps this on both sides; an operation
on designated values only changes the original frame. -/

namespace NativeBridge

namespace Operation

/-- The operation with its branch led elsewhere. -/
def mapTarget (f : InstrId → InstrId) : Operation → Operation
  | .jump condition target => .jump condition (f target)
  | o => o

end Operation

theorem Instruction.operation?_mapTarget (i : Instruction) (f : InstrId → InstrId) :
    (i.mapTarget f).operation? = i.operation?.map (·.mapTarget f) := by
  obtain ⟨op, operand⟩ := i
  cases operand <;> cases op <;> rfl

namespace Pass

/-- The second stack is the first one without the values that are marked as designated. -/
inductive Sheds : List Mark → List Value → List Value → Prop
  | nil : Sheds [] [] []
  | keep {marks : List Mark} {vs ws : List Value} (v : Value) (rest : Sheds marks vs ws) :
      Sheds (.ordinary :: marks) (v :: vs) (v :: ws)
  | drop {marks : List Mark} {vs ws : List Value} (v : Value) (rest : Sheds marks vs ws) :
      Sheds (.designated :: marks) (v :: vs) ws

namespace Sheds

variable {marks : List Mark} {vs ws : List Value}

theorem length_eq (sheds : Sheds marks vs ws) : vs.length = marks.length := by
  induction sheds with
  | nil => rfl
  | keep v _ ih | drop v _ ih => simp [ih]

/-- Ordinary values on top are on both stacks. -/
theorem split_ordinary {n : Nat} (sheds : Sheds (List.replicate n .ordinary ++ marks) vs ws) :
    ∃ top lower left, top.length = n ∧ vs = top ++ lower ∧ ws = top ++ left ∧
      Sheds marks lower left := by
  induction n generalizing vs ws with
  | zero => exact ⟨[], vs, ws, rfl, rfl, rfl, sheds⟩
  | succ n ih =>
    rw [List.replicate_succ, List.cons_append] at sheds
    cases sheds with
    | keep v rest =>
      obtain ⟨top, lower, left, rfl, rfl, rfl, below⟩ := ih rest
      exact ⟨v :: top, lower, left, rfl, rfl, rfl, below⟩

end Sheds

/-- Whether a slot is declared to hold designated values. -/
def hides (bindings : StaticBindings) (method : MethodDef) (b : Body) : Bank → Nat → Bool
  | .arguments, slot =>
    ((parameter? method b.hasReceiver slot).map (·.type)).any bindings.isDesignated
  | .locals, slot => ((b.local? slot).map (·.type)).any bindings.isDesignated

section operations

variable {bindings : StaticBindings} {method : MethodDef} {b : Body} {i : Instruction}
  {o : Operation}

theorem movesDesignated_eq_hides {bank : Bank} {slot : Nat} (named : i.slot? = some slot)
    (kind : i.opcode.category = bank.loads ∨ i.opcode.category = bank.stores) :
    movesDesignated bindings method b i = hides bindings method b bank slot := by
  cases bank <;> rcases kind with kind | kind <;>
    simp [movesDesignated, valueType?, slotType?, hides, kind, named, Bank.loads, Bank.stores]

/-- The slots that an operation names are not for designated values, unless its instruction moves
one. -/
theorem hides_of_operation (denoted : i.operation? = some o)
    (still : movesDesignated bindings method b i = false) (bank : Bank) (slot : Nat)
    (names : o = .load bank slot ∨ o = .store bank slot) :
    hides bindings method b bank slot = false := by
  have encoded := Instruction.encoded_of_operation denoted
  rcases names with rfl | rfl
  · rw [← movesDesignated_eq_hides encoded.2 (Or.inl encoded.1), still]
  · rw [← movesDesignated_eq_hides encoded.2 (Or.inr encoded.1), still]

/-- On the machine designated values are moved between slots only; fields are foreign to it. -/
theorem operation_of_movesDesignated (denoted : i.operation? = some o)
    (moves : movesDesignated bindings method b i = true) (supported : o ≠ .foreign) :
    ∃ bank slot, (o = .load bank slot ∨ o = .store bank slot) ∧
      hides bindings method b bank slot = true := by
  have named : ∃ bank slot, o = .load bank slot ∨ o = .store bank slot := by
    have matched := Instruction.isMatched_of_operation denoted
    obtain ⟨op, operand⟩ := i
    have kind : op.operandKind = operand.kind := by simpa [Instruction.isMatched] using matched
    cases op
    case ldarg0 | ldarg1 | ldarg2 | ldarg3 | ldargS | ldarg | ldloc0 | ldloc1 | ldloc2 | ldloc3
        | ldlocS | ldloc =>
      cases operand <;> cases kind
      cases denoted
      exact ⟨_, _, Or.inl rfl⟩
    case stargS | starg | stloc0 | stloc1 | stloc2 | stloc3 | stlocS | stloc =>
      cases operand <;> cases kind
      cases denoted
      exact ⟨_, _, Or.inr rfl⟩
    -- Fields are foreign to the machine.
    case ldfld | ldsfld | stfld | stsfld =>
      cases operand <;> cases kind
      cases denoted
      exact absurd rfl supported
    all_goals simp [movesDesignated, valueType?, slotType?, Opcode.category] at moves
  obtain ⟨bank, slot, rfl | rfl⟩ := named
  · have encoded := Instruction.encoded_of_operation denoted
    exact ⟨bank, slot, Or.inl rfl, by
      rw [← movesDesignated_eq_hides encoded.2 (Or.inl encoded.1), moves]⟩
  · have encoded := Instruction.encoded_of_operation denoted
    exact ⟨bank, slot, Or.inr rfl, by
      rw [← movesDesignated_eq_hides encoded.2 (Or.inr encoded.1), moves]⟩

end operations

/-- A frame runs elided code as another one runs the original, and the marks tell which values are
on the stack of the original. -/
structure Mirrors (bindings : StaticBindings) (m : Module) (method : MethodDef) (marks : List Mark)
    (f g : Frame) : Prop where
  returnsValue : g.returnsValue = f.returnsValue
  kept : g.kept = f.kept
  slots : ∀ bank slot, hides bindings method f.body bank slot = false →
    (g.slots bank)[slot]? = (f.slots bank)[slot]?
  stack : Sheds marks f.stack g.stack
  next : g.next = Body.rank (survive bindings m method f.body) f.body.code f.next

/-- Two effects are the same for frames that mirror one another. -/
def EffectMirrors (bindings : StaticBindings) (m : Module) (method : MethodDef) (pushes : Nat)
    (rest : List Mark) (g : Frame) : Effect → Effect → Prop
  | .proceed f, .proceed h =>
    h.body = g.body ∧ Mirrors bindings m method (List.replicate pushes .ordinary ++ rest) f h
  | .call callee args f, .call same given h =>
    same = callee ∧ given = args ∧ h.body = g.body ∧ Mirrors bindings m method rest f h
  | .finish v, .finish w => w = v
  | _, _ => False

section frames

variable {bindings : StaticBindings} {m : Module} {method : MethodDef} {marks rest : List Mark}
  {f g : Frame} {op : Opcode}

/-- Both frames may replace their stacks and go elsewhere together. -/
theorem Mirrors.move (mirrors : Mirrors bindings m method marks f g) {marks' : List Mark}
    {vs ws : List Value} (stack : Sheds marks' vs ws) {next place : Nat}
    (lands : place = Body.rank (survive bindings m method f.body) f.body.code next) :
    Mirrors bindings m method marks' { f with stack := vs, next := next }
      { g with stack := ws, next := place } where
  returnsValue := mirrors.returnsValue
  kept := mirrors.kept
  slots bank := by cases bank <;> exact mirrors.slots _
  stack := stack
  next := lands

/-- A slot that does not hide anything is there on both sides or on neither. -/
theorem Mirrors.lt_length_iff (mirrors : Mirrors bindings m method marks f g) {bank : Bank}
    {slot : Nat} (plain : hides bindings method f.body bank slot = false) :
    slot < (g.slots bank).length ↔ slot < (f.slots bank).length := by
  rw [← not_iff_not, Nat.not_lt, Nat.not_lt, ← List.getElem?_eq_none_iff,
    ← List.getElem?_eq_none_iff, mirrors.slots bank slot plain]

/-- Both frames may store one value in a slot. -/
theorem Mirrors.store (mirrors : Mirrors bindings m method marks f g) {marks' : List Mark}
    {vs ws : List Value} (stack : Sheds marks' vs ws) (bank : Bank) (slot : Nat) (v : Value) :
    Mirrors bindings m method marks'
      ({ f with stack := vs }.setSlots ((f.slots bank).set slot v) bank)
      ({ g with stack := ws }.setSlots ((g.slots bank).set slot v) bank) := by
  have slots : ∀ other place, hides bindings method f.body other place = false →
      (({ g with stack := ws }.setSlots ((g.slots bank).set slot v) bank).slots other)[place]? =
        (({ f with stack := vs }.setSlots
          ((f.slots bank).set slot v) bank).slots other)[place]? := by
    intro other place plain
    rw [Frame.slots_setSlots, Frame.slots_setSlots]
    by_cases same : other = bank
    · -- The slot that is set is there on both sides or on neither.
      subst same
      simp only [if_true, List.getElem?_set, mirrors.slots other place plain]
      by_cases here : slot = place
      · subst here
        simp [mirrors.lt_length_iff plain]
      · simp [here]
    · rw [if_neg same, if_neg same]
      cases other <;> exact mirrors.slots _ place plain
  cases bank <;> exact ⟨mirrors.returnsValue, mirrors.kept, slots, stack, mirrors.next⟩

/-- The original frame may store a value where designated ones belong. -/
theorem Mirrors.storeHidden (mirrors : Mirrors bindings m method marks f g) {marks' : List Mark}
    {vs : List Value} (stack : Sheds marks' vs g.stack) {bank : Bank} {slot : Nat}
    (hidden : hides bindings method f.body bank slot = true) (v : Value) :
    Mirrors bindings m method marks'
      ({ f with stack := vs }.setSlots ((f.slots bank).set slot v) bank) g := by
  have slots : ∀ other place, hides bindings method f.body other place = false →
      (g.slots other)[place]? =
        (({ f with stack := vs }.setSlots
          ((f.slots bank).set slot v) bank).slots other)[place]? := by
    intro other place plain
    rw [Frame.slots_setSlots, mirrors.slots other place plain]
    by_cases same : other = bank
    · -- The values that are compared stand in slots that hide nothing.
      subst same
      have elsewhere : slot ≠ place := by
        rintro rfl
        simp [plain] at hidden
      rw [if_pos rfl, List.getElem?_set_ne elsewhere]
    · rw [if_neg same]
      cases other <;> rfl
  cases bank <;> exact ⟨mirrors.returnsValue, mirrors.kept, slots, stack, mirrors.next⟩

/-- A branch leads both frames to the same place. -/
theorem jump_mirrors (mirrors : Mirrors bindings m method marks f g) {target : InstrId}
    {aim : InstrId → InstrId} {taken : Bool} {effect : Effect}
    (lands : ∀ place, f.body.position? target = some place → g.body.position? (aim target) =
      some (Body.rank (survive bindings m method f.body) f.body.code place))
    (done : f.jump op target taken = .ok effect) :
    ∃ same, g.jump op (aim target) taken = .ok same ∧
      EffectMirrors bindings m method 0 marks g effect same := by
  unfold Frame.jump at done ⊢
  cases taken with
  | false =>
    cases done
    exact ⟨_, rfl, rfl, mirrors⟩
  | true =>
    rw [if_pos rfl] at done ⊢
    split at done
    · cases done
    next place found =>
      cases done
      rw [lands place found]
      exact ⟨_, rfl, rfl, mirrors.move mirrors.stack rfl⟩

/-- An operation on ordinary values does the same in both frames. -/
theorem perform_mirrors {o : Operation} {counts : StackEffect} {effect : Effect}
    (aim : InstrId → InstrId) (known : o.effect? f.returnsValue = some counts)
    (mirrors : Mirrors bindings m method (List.replicate counts.pops .ordinary ++ rest) f g)
    (plain : ∀ bank slot, o = .load bank slot ∨ o = .store bank slot →
      hides bindings method f.body bank slot = false)
    (lands : ∀ condition target, o = .jump condition target → ∀ place,
      f.body.position? target = some place → g.body.position? (aim target) =
        some (Body.rank (survive bindings m method f.body) f.body.code place))
    (done : f.perform op o = .ok effect) :
    ∃ same, g.perform op (o.mapTarget aim) = .ok same ∧
      EffectMirrors bindings m method counts.pushes rest g effect same := by
  -- What the operation takes is on top of both stacks.
  obtain ⟨top, lower, left, height, before, after, below⟩ := mirrors.stack.split_ordinary
  cases o with
  | nothing =>
    cases known
    cases done
    exact ⟨_, rfl, rfl, mirrors⟩
  | constant v =>
    cases known
    cases done
    exact ⟨_, rfl, rfl, mirrors.move (.keep v mirrors.stack) mirrors.next⟩
  | load bank slot =>
    cases known
    simp only [Frame.perform, Operation.mapTarget, mirrors.slots bank slot (plain _ _ (Or.inl rfl))]
      at done ⊢
    split at done
    · cases done
    next v there =>
      cases done
      exact ⟨_, rfl, rfl, mirrors.move (.keep v mirrors.stack) mirrors.next⟩
  | store bank slot =>
    cases known
    obtain ⟨v, rfl⟩ := List.length_eq_one_iff.mp height
    simp only [Frame.perform, Operation.mapTarget, before, after, List.singleton_append,
      mirrors.lt_length_iff (plain _ _ (Or.inr rfl))] at done ⊢
    split at done
    next inside =>
      cases done
      rw [if_pos inside]
      exact ⟨_, rfl, by cases bank <;> rfl, mirrors.store below bank slot v⟩
    · cases done
  | discard =>
    cases known
    obtain ⟨v, rfl⟩ := List.length_eq_one_iff.mp height
    simp only [Frame.perform, Operation.mapTarget, before, after, List.singleton_append] at done ⊢
    cases done
    exact ⟨_, rfl, rfl, mirrors.move below mirrors.next⟩
  | duplicate =>
    cases known
    obtain ⟨v, rfl⟩ := List.length_eq_one_iff.mp height
    simp only [Frame.perform, Operation.mapTarget, before, after, List.singleton_append] at done ⊢
    cases done
    exact ⟨_, rfl, rfl, mirrors.move (.keep v (.keep v below)) mirrors.next⟩
  | compute =>
    cases known
    obtain ⟨w, v, rfl⟩ := List.length_eq_two.mp height
    simp only [Frame.perform, Operation.mapTarget, before, after, List.cons_append,
      List.nil_append] at done ⊢
    split at done
    next result computed =>
      cases done
      exact ⟨_, rfl, rfl, mirrors.move (.keep result below) mirrors.next⟩
    · cases done
  | jump condition target =>
    cases condition with
    | none =>
      cases known
      exact jump_mirrors mirrors (lands none target rfl) done
    | some expected =>
      cases known
      obtain ⟨v, rfl⟩ := List.length_eq_one_iff.mp height
      simp only [Frame.perform, Operation.mapTarget, before, after, List.singleton_append]
        at done ⊢
      exact jump_mirrors (mirrors.move below mirrors.next) (lands (some expected) target rfl) done
  | invoke callee =>
    cases known
    simp only [Frame.perform, Operation.mapTarget] at done ⊢
    cases receiver : callee.hasReceiver with
    | true => simp [receiver] at done
    | false =>
      -- Without a receiver the call takes its parameters, which are the same on both stacks.
      have params : top.length = callee.params.length := by
        rw [height]
        simp [MethodRef.inputs, receiver]
      have enough : ∀ under : List Value, ¬(top ++ under).length < callee.params.length := by
        intro under
        rw [List.length_append]
        omega
      simp only [receiver, before, after, if_neg (enough _), Bool.false_eq_true, if_false,
        List.take_left' params, List.drop_left' params] at done ⊢
      cases done
      exact ⟨_, rfl, rfl, rfl, rfl, mirrors.move below mirrors.next⟩
  | leave =>
    cases known
    simp only [Frame.perform, Operation.mapTarget, mirrors.returnsValue] at done ⊢
    cases returns : f.returnsValue with
    | false =>
      simp only [returns, Bool.false_eq_true, if_false] at done ⊢
      cases done
      exact ⟨_, rfl, rfl⟩
    | true =>
      rw [returns] at height
      obtain ⟨v, rfl⟩ := List.length_eq_one_iff.mp height
      simp only [returns, if_true, before, after, List.singleton_append] at done ⊢
      cases done
      exact ⟨_, rfl, rfl⟩
  | foreign => cases known

/-- An operation on designated values changes the original frame only. -/
theorem perform_hidden {o : Operation} {counts : StackEffect} {effect : Effect} {bank : Bank}
    {slot : Nat} (known : o.effect? f.returnsValue = some counts)
    (mirrors : Mirrors bindings m method (List.replicate counts.pops .designated ++ rest) f g)
    (moves : o = .load bank slot ∨ o = .store bank slot)
    (hidden : hides bindings method f.body bank slot = true)
    (done : f.perform op o = .ok effect) :
    ∃ h, effect = .proceed h ∧
      Mirrors bindings m method (List.replicate counts.pushes .designated ++ rest) h g := by
  rcases moves with rfl | rfl
  · cases known
    simp only [Frame.perform] at done
    split at done
    · cases done
    next v _ =>
      cases done
      exact ⟨_, rfl, mirrors.move (.drop v mirrors.stack) mirrors.next⟩
  · cases known
    simp only [Frame.perform] at done
    split at done
    · cases stack : f.stack with
      | nil => simp [stack] at done
      | cons v lower =>
        simp only [stack] at done
        cases done
        have sheds := mirrors.stack
        rw [stack] at sheds
        cases sheds with
        | drop _ below => exact ⟨_, rfl, mirrors.storeHidden below hidden v⟩
    · cases done

end frames

end Pass

end NativeBridge
