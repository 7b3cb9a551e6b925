import NativeBridge.Proofs.Operation
import Mathlib.Logic.Relation

/-! Runs of the machine: what entering a method gives, which states a call reaches, and where a run
that fails has failed. -/

namespace NativeBridge

/-- The frame with which a call of a method begins. -/
def Frame.initial (callee : MethodRef) (method : MethodDef) (body : Body) (args : List Value) :
    Frame where
  method := callee.qualified
  body := body
  returnsValue := method.returnsValue
  kept := callee.outputs == 1
  args := args
  locals := List.replicate body.locals.length .null
  stack := []
  next := 0

/-- A call keeps as many values as it leaves on the stack. -/
theorem Frame.kept_initial (callee : MethodRef) (method : MethodDef) (body : Body)
    (args : List Value) : (initial callee method body args).kept.toNat = callee.outputs := by
  simp only [initial, MethodRef.outputs]
  split <;> rfl

namespace Machine

/-- Entering succeeds exactly for static methods with a body and the right number of arguments. -/
theorem enter_ok_iff (m : Module) (callee : MethodRef) (args : List Value) (depth : Nat)
    (f : Frame) :
    enter m callee args depth = .ok f ↔ depth < maxCallDepth ∧ ∃ method body,
      m.resolve? callee = some method ∧ method.isStatic = true ∧ method.body = some body ∧
      args.length = method.params.length ∧ f = .initial callee method body args := by
  unfold enter
  dsimp only
  by_cases deep : maxCallDepth ≤ depth
  · simp only [if_pos deep, Success.throw_bind, Success.throw_ne_ok, false_iff]
    exact fun entered => Nat.not_le.mpr entered.1 deep
  rw [if_neg deep]
  cases found : m.resolve? callee with
  | none => simp
  | some method =>
    dsimp only
    cases static : method.isStatic with
    | false => simp [static]
    | true =>
      cases held : method.body with
      | none => simp [held]
      | some body =>
        by_cases counts : args.length = method.params.length
        · simp [counts, held, static, Nat.lt_of_not_le deep, Frame.initial, eq_comm (a := f)]
        · simp [counts]

/-- Why a call is refused. -/
theorem enter_error {m : Module} {callee : MethodRef} {args : List Value} {depth : Nat}
    {fault : Fault} (refused : enter m callee args depth = .error fault) :
    fault = .callDepth callee.qualified ∨ fault = .unresolved callee ∨
      ∃ method, m.resolve? callee = some method ∧
        (fault = .unsupported .call callee.qualified ∨ fault = .noBody callee.qualified ∨
          (fault = .arity callee.qualified method.params.length args.length ∧
            args.length ≠ method.params.length)) := by
  unfold enter at refused
  dsimp only at refused
  by_cases deep : maxCallDepth ≤ depth
  · rw [if_pos deep] at refused
    cases refused
    exact Or.inl rfl
  rw [if_neg deep] at refused
  cases found : m.resolve? callee with
  | none =>
    rw [found] at refused
    cases refused
    exact Or.inr (Or.inl rfl)
  | some method =>
    refine Or.inr (Or.inr ⟨method, rfl, ?_⟩)
    simp only [found] at refused
    cases static : method.isStatic with
    | false =>
      simp only [static] at refused
      cases refused
      exact Or.inl rfl
    | true =>
      cases held : method.body with
      | none =>
        simp only [static, held] at refused
        cases refused
        exact Or.inr (Or.inl rfl)
      | some body =>
        simp only [static, held] at refused
        by_cases counts : args.length ≠ method.params.length
        · simp only [if_pos counts] at refused
          cases refused
          exact Or.inr (Or.inr ⟨rfl, counts⟩)
        · simp only [if_neg counts] at refused
          cases refused

/-- Does what an instruction of the running frame asks for. -/
def handle (m : Module) (s : Machine) : Effect → Except Fault Progress
  | .proceed frame => pure (.running { s with current := frame })
  | .call callee args frame => do
    let callee ← enter m callee args (frame :: s.callers).length
    pure (.running ⟨callee, frame :: s.callers⟩)
  | .finish result =>
    match s.callers with
    | [] => pure (.finished result)
    | caller :: callers =>
      pure (.running ⟨if s.current.kept then caller.push result else caller, callers⟩)

theorem step_eq_handle (m : Module) (s : Machine) (i : Instruction) :
    step m s i = { s.current with next := s.current.next + 1 }.execute i >>= handle m s := rfl

/-- One instruction leads from a state to another. -/
def Next (m : Module) (s t : Machine) : Prop :=
  ∃ i, s.current.fetch? = some i ∧ step m s i = .ok (.running t)

section run

variable {m : Module} {s : Machine} {i : Instruction}

theorem run_of_fetch_none (fetched : s.current.fetch? = none) (limit : Nat) :
    run m limit s = .error (.underflow s.current.method) := by
  unfold run
  rw [fetched]

theorem run_zero (fetched : s.current.fetch? = some i) :
    run m 0 s = .error (.stepLimit s.current.method) := by
  unfold run
  rw [fetched]

theorem run_succ_of_error (fetched : s.current.fetch? = some i) {fault : Fault}
    (stepped : step m s i = .error fault) (limit : Nat) :
    run m (limit + 1) s = .error fault := by
  unfold run
  simp only [fetched, stepped]
  rfl

theorem run_succ_of_running (fetched : s.current.fetch? = some i) {t : Machine}
    (stepped : step m s i = .ok (.running t)) (limit : Nat) :
    run m (limit + 1) s = run m limit t := by
  rw [run]
  simp only [fetched, stepped]
  rfl

theorem run_succ_of_finished (fetched : s.current.fetch? = some i) {result : Value}
    (stepped : step m s i = .ok (.finished result)) (limit : Nat) :
    run m (limit + 1) s = .ok result := by
  unfold run
  simp only [fetched, stepped]
  rfl

/-- A run that returns a value has executed an instruction, which ended it or led on. -/
theorem run_ok {limit : Nat} {v : Value} (finished : run m limit s = .ok v) :
    ∃ rest i progress, limit = rest + 1 ∧ s.current.fetch? = some i ∧ step m s i = .ok progress ∧
      (progress = .finished v ∨ ∃ t, progress = .running t ∧ run m rest t = .ok v) := by
  cases fetched : s.current.fetch? with
  | none => simp [run_of_fetch_none fetched] at finished
  | some i =>
    cases limit with
    | zero => simp [run_zero fetched] at finished
    | succ rest =>
      cases stepped : step m s i with
      | error fault => simp [run_succ_of_error fetched stepped] at finished
      | ok progress =>
        refine ⟨rest, i, progress, rfl, rfl, stepped, ?_⟩
        cases progress with
        | finished result =>
          rw [run_succ_of_finished fetched stepped] at finished
          cases finished
          exact Or.inl rfl
        | running t =>
          rw [run_succ_of_running fetched stepped] at finished
          exact Or.inr ⟨t, rfl, finished⟩

/-- Where a run that fails has failed: past the end of a body, at the limit, or at an
instruction. -/
theorem run_error {limit : Nat} {fault : Fault} (failed : run m limit s = .error fault) :
    ∃ t, Relation.ReflTransGen (Next m) s t ∧
      ((t.current.fetch? = none ∧ fault = .underflow t.current.method) ∨
        fault = .stepLimit t.current.method ∨
        ∃ i, t.current.fetch? = some i ∧ step m t i = .error fault) := by
  induction limit generalizing s with
  | zero =>
    cases fetched : s.current.fetch? with
    | none =>
      rw [run_of_fetch_none fetched] at failed
      exact ⟨s, .refl, Or.inl ⟨fetched, (Except.error.inj failed).symm⟩⟩
    | some i =>
      rw [run_zero fetched] at failed
      exact ⟨s, .refl, Or.inr (Or.inl (Except.error.inj failed).symm)⟩
  | succ limit ih =>
    cases fetched : s.current.fetch? with
    | none =>
      rw [run_of_fetch_none fetched] at failed
      exact ⟨s, .refl, Or.inl ⟨fetched, (Except.error.inj failed).symm⟩⟩
    | some i =>
      cases stepped : step m s i with
      | error e =>
        rw [run_succ_of_error fetched stepped] at failed
        cases failed
        exact ⟨s, .refl, Or.inr (Or.inr ⟨i, fetched, stepped⟩)⟩
      | ok progress =>
        cases progress with
        | finished result =>
          rw [run_succ_of_finished fetched stepped] at failed
          cases failed
        | running t =>
          rw [run_succ_of_running fetched stepped] at failed
          obtain ⟨u, reached, stopped⟩ := ih failed
          exact ⟨u, .head ⟨i, fetched, stepped⟩ reached, stopped⟩

end run

end Machine

/-- A call reaches a state. -/
def Module.Reaches (m : Module) (method : MethodRef) (args : List Value) (s : Machine) : Prop :=
  ∃ frame, Machine.enter m method args 0 = .ok frame ∧
    Relation.ReflTransGen (Machine.Next m) ⟨frame, []⟩ s

end NativeBridge
