import NativeBridge.Proofs.Operation
import NativeBridge.Proofs.Survivors

/-! Frames moved to another body. An instruction looks at the body of its frame only to find the
place of a branch target, and at its own place only to go on behind it. So it does the same in a
body where its target stands at the place that corresponds to the one it had. -/

namespace NativeBridge

/-- The frame in another body, at the place that corresponds to its own. -/
def Frame.relocate (f : Frame) (c : Body) (shift : Nat → Nat) : Frame :=
  { f with body := c, next := shift f.next }

/-- What an instruction asks of the machine, to go on in another body. -/
def Effect.relocate (c : Body) (shift : Nat → Nat) : Effect → Effect
  | .proceed frame => .proceed (frame.relocate c shift)
  | .call callee args frame => .call callee args (frame.relocate c shift)
  | .finish result => .finish result

namespace Frame

variable (f : Frame) (c : Body) (shift : Nat → Nat) (i : Instruction) (lead : InstrId → InstrId)

theorem pop_relocate :
    (f.relocate c shift).pop = f.pop.map fun popped => (popped.1, popped.2.relocate c shift) := by
  unfold pop relocate
  cases f.stack <;> rfl

theorem load_relocate (slots : List Value) :
    (f.relocate c shift).load (i.mapTarget lead) slots =
      (f.load i slots).map (·.relocate c shift) := by
  unfold load slot
  rw [Instruction.slot?_mapTarget]
  cases i.slot? with
  | none => rfl
  | some slot =>
    simp only [Success.ok_bind]
    cases slots[slot]? <;> rfl

theorem store_relocate (slots : List Value) :
    (f.relocate c shift).store (i.mapTarget lead) slots =
      (f.store i slots).map fun stored => (stored.1, stored.2.relocate c shift) := by
  unfold store slot
  rw [Instruction.slot?_mapTarget, pop_relocate]
  cases i.slot? with
  | none => rfl
  | some slot =>
    simp only [Success.ok_bind]
    split_ifs
    · cases f.pop <;> rfl
    · rfl

theorem invoke_relocate (callee : MethodRef) :
    (f.relocate c shift).perform .call (.invoke callee) =
      (f.perform .call (.invoke callee)).map (·.relocate c shift) := by
  have stack : (f.relocate c shift).stack = f.stack := rfl
  rw [perform, perform, stack]
  split_ifs <;> rfl

variable {c shift lead}

theorem jump_relocate {target : InstrId}
    (corresponds : c.position? (lead target) = (f.body.position? target).map shift) (op : Opcode)
    (taken : Bool) :
    (f.relocate c shift).jump op (lead target) taken =
      (f.jump op target taken).map (·.relocate c shift) := by
  have there : (f.relocate c shift).body.position? (lead target) =
      (f.body.position? target).map shift := corresponds
  unfold jump
  rw [there]
  split_ifs
  · cases f.body.position? target <;> rfl
  · rfl

theorem branch_relocate {target : InstrId}
    (corresponds : c.position? (lead target) = (f.body.position? target).map shift) (op : Opcode)
    (test : Value → Bool) :
    ((f.relocate c shift).pop >>= fun popped =>
        popped.2.jump op (lead target) (test popped.1)) =
      (f.pop >>= fun popped => popped.2.jump op target (test popped.1)).map
        (·.relocate c shift) := by
  unfold pop
  rcases stack : f.stack with _ | ⟨v, rest⟩
  · simp only [relocate, stack]
    rfl
  · simp only [relocate, stack, Success.ok_bind]
    exact { f with stack := rest }.jump_relocate corresponds op (test v)

/-- An instruction does the same in another body if its target, led there, corresponds. -/
theorem execute_relocate (corresponds : ∀ t, i.target? = some t →
      c.position? (lead t) = (f.body.position? t).map shift) :
    (f.relocate c shift).execute (i.mapTarget lead) =
      (f.execute i).map (·.relocate c shift) := by
  have target := i.target?_mapTarget lead
  have method := i.method?_mapTarget lead
  unfold execute
  rw [target, method]
  have loads := fun slots => f.load_relocate c shift i lead slots
  have stores := fun slots => f.store_relocate c shift i lead slots
  have pops := f.pop_relocate c shift
  obtain ⟨op, operand⟩ := i
  -- Branches ask the body for a place, by `corresponds`; all other opcodes never look at it.
  cases op
  case ldcI4 | ldcI4S | ldcI8 | ldstr => cases operand <;> rfl
  case ldarg0 | ldarg1 | ldarg2 | ldarg3 | ldargS | ldarg => exact loads f.args
  case ldloc0 | ldloc1 | ldloc2 | ldloc3 | ldlocS | ldloc => exact loads f.locals
  case stargS | starg =>
    have stored := stores f.args
    simp only [Instruction.mapTarget] at stored ⊢
    change ((f.relocate c shift).store _ f.args >>= _) = _
    rw [stored]
    cases f.store _ f.args <;> rfl
  case stloc0 | stloc1 | stloc2 | stloc3 | stlocS | stloc =>
    have stored := stores f.locals
    simp only [Instruction.mapTarget] at stored ⊢
    change ((f.relocate c shift).store _ f.locals >>= _) = _
    rw [stored]
    cases f.store _ f.locals <;> rfl
  case pop | dup =>
    simp only [Instruction.mapTarget, pops]
    cases f.pop <;> rfl
  case add | sub | mul | ceq | clt =>
    simp only [Instruction.mapTarget, pops]
    rcases f.pop with _ | ⟨b, g⟩
    · rfl
    · change ((g.relocate c shift).pop >>= _) = _
      rw [pop_relocate]
      rcases popped : g.pop with _ | ⟨a, h⟩
      · simp only [Success.ok_bind, popped]
        rfl
      · simp only [Success.ok_bind, popped, Except.map]
        cases Value.binary? _ a b <;> rfl
  case br =>
    cases operand with
    | target t => exact f.jump_relocate (corresponds t rfl) .br true
    | _ => rfl
  case brtrue =>
    cases operand with
    | target t => exact f.branch_relocate (corresponds t rfl) .brtrue Value.isTrue
    | _ => rfl
  case brfalse =>
    cases operand with
    | target t => exact f.branch_relocate (corresponds t rfl) .brfalse (!Value.isTrue ·)
    | _ => rfl
  case call =>
    cases operand with
    | method callee =>
      change (f.relocate c shift).execute ⟨.call, .method callee⟩ =
        (f.execute ⟨.call, .method callee⟩).map _
      rw [execute_eq_perform _ _ (.invoke callee) rfl, execute_eq_perform _ _ (.invoke callee) rfl]
      exact f.invoke_relocate c shift callee
    | _ => rfl
  case ret =>
    change (if f.returnsValue then (f.relocate c shift).pop >>= _ else _) = _
    rw [pops]
    split_ifs
    · cases f.pop <;> rfl
    · rfl
  all_goals rfl

end Frame

end NativeBridge
