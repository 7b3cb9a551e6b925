import NativeBridge.Proofs.SideBySide
import NativeBridge.Proofs.StepLimits

/-! Simulations between machines that run two modules. Frames of the one correspond to frames of the
other; an instruction does in corresponding frames what asks the same of both machines, or else it
is idle and takes the first one to another frame that corresponds while the second one waits. Then
calls return the same. If there are idle instructions, the first machine must not be stopped at its
limit, which the second one may not meet. -/

namespace NativeBridge

variable {R : Frame → Frame → Prop} {idle : Instruction → Prop}

/-- Effects that ask for the same, to go on with frames that correspond. -/
inductive Effect.Related (R : Frame → Frame → Prop) : Effect → Effect → Prop
  | proceed {f g : Frame} (frames : R f g) : Related R (.proceed f) (.proceed g)
  | call (callee : MethodRef) (args : List Value) {f g : Frame} (frames : R f g) :
      Related R (.call callee args f) (.call callee args g)
  | finish (result : Value) : Related R (.finish result) (.finish result)

/-- States whose frames correspond. -/
structure Machine.Related (R : Frame → Frame → Prop) (s t : Machine) : Prop where
  current : R s.current t.current
  callers : List.Forall₂ R s.callers t.callers

/-- Both machines go on, in states that correspond, or both end with the same result. -/
inductive Progress.Related (R : Frame → Frame → Prop) : Progress → Progress → Prop
  | running {s t : Machine} (states : s.Related R t) : Related R (.running s) (.running t)
  | finished (result : Value) : Related R (.finished result) (.finished result)

/-- What frames have in common that correspond. Calls with the same arguments enter such frames or
are refused for the same reason. -/
structure Correspondence (m n : Module) (R : Frame → Frame → Prop) : Prop where
  method : ∀ {f g : Frame}, R f g → g.method = f.method
  kept : ∀ {f g : Frame}, R f g → g.kept = f.kept
  push : ∀ {f g : Frame} (v : Value), R f g → R (f.push v) (g.push v)
  enter : ∀ callee args depth,
    Agree Eq R (Machine.enter m callee args depth) (Machine.enter n callee args depth)

/-- An instruction of the first machine is one of the second that does the same, or it is idle and
makes the second one wait. -/
structure Simulation (m n : Module) (R : Frame → Frame → Prop) (idle : Instruction → Prop) : Prop
    extends Correspondence m n R where
  ended : ∀ {f g : Frame}, R f g → f.fetch? = none → g.fetch? = none
  executed : ∀ {f g : Frame} {i : Instruction}, R f g → f.fetch? = some i →
    (idle i ∧ ∃ h, { f with next := f.next + 1 }.execute i = .ok (.proceed h) ∧ R h g) ∨
      ∃ j, g.fetch? = some j ∧
        Agree Eq (Effect.Related R) ({ f with next := f.next + 1 }.execute i)
          ({ g with next := g.next + 1 }.execute j)

namespace Machine

variable {m n : Module} {s t : Machine}

/-- Modules with related bodies enter frames that differ in the body only. -/
theorem enter_agree {B : Body → Body → Prop}
    (locals : ∀ b c, B b c → b.locals.length = c.locals.length) (modules : m.Agree B n)
    (callee : MethodRef) (args : List Value) (depth : Nat) :
    Agree Eq (fun f g => B f.body g.body ∧ f.next = 0 ∧ g = { f with body := g.body })
      (enter m callee args depth) (enter n callee args depth) := by
  unfold enter
  dsimp only
  split_ifs
  · exact .error rfl
  rcases held_of_rel (modules.resolve? callee) with
    ⟨found, found'⟩ | ⟨method, method', found, found', agree⟩
  · rw [found, found']
    exact .error rfl
  have static : method.isStatic = method'.isStatic := congrArg (·.isStatic) agree.header
  have params : method.params = method'.params := congrArg (·.params) agree.header
  have returns : method.returnsValue = method'.returnsValue :=
    congrArg (·.returnsValue) agree.header
  simp only [found, found', static]
  cases method'.isStatic with
  | false => exact .error rfl
  | true =>
    rcases held_of_rel agree.bodies with ⟨held, held'⟩ | ⟨b, c, held, held', same⟩
    · simp only [held, held']
      exact .error rfl
    · simp only [held, held', params, returns, locals b c same, Bool.not_true, Bool.false_eq_true,
        if_false]
      split_ifs
      · exact .error rfl
      · exact .ok ⟨same, rfl, rfl⟩

/-- Machines in corresponding states do what is asked of both, and go on in such states. -/
theorem handle_agree (correspondence : Correspondence m n R) (states : s.Related R t)
    {effect effect' : Effect} (effects : effect.Related R effect') :
    Agree Eq (Progress.Related R) (handle m s effect) (handle n t effect') := by
  cases effects with
  | proceed frames => exact .ok (.running ⟨frames, states.callers⟩)
  | @call callee args f g frames =>
    have callers : List.Forall₂ R (f :: s.callers) (g :: t.callers) := .cons frames states.callers
    simp only [handle, callers.length_eq]
    exact (correspondence.enter callee args _).bind fun f g entered =>
      .ok (.running ⟨entered, callers⟩)
  | finish result =>
    have kept := correspondence.kept states.current
    obtain ⟨current, callers⟩ := s
    obtain ⟨current', callers'⟩ := t
    cases states.callers with
    | nil => exact .ok (.finished result)
    | cons first others =>
      refine .ok (.running ⟨?_, others⟩)
      dsimp only at kept ⊢
      rw [kept]
      split_ifs
      · exact correspondence.push result first
      · exact first

end Machine

namespace Simulation

open Machine

variable {m n : Module} {s t : Machine} {i : Instruction}

/-- One instruction: the second machine waits, or executes one of its own to the same effect. -/
theorem step (simulation : Simulation m n R idle) (states : s.Related R t)
    (fetched : s.current.fetch? = some i) :
    (idle i ∧ ∃ u, Machine.step m s i = .ok (.running u) ∧ u.Related R t) ∨
      ∃ j, t.current.fetch? = some j ∧
        Agree Eq (Progress.Related R) (Machine.step m s i) (Machine.step n t j) := by
  rcases simulation.executed states.current fetched with
    ⟨waits, frame, executed, frames⟩ | ⟨j, fetches, executes⟩
  · refine Or.inl ⟨waits, ⟨frame, s.callers⟩, ?_, frames, states.callers⟩
    rw [step_eq_handle, executed]
    rfl
  · refine Or.inr ⟨j, fetches, ?_⟩
    rw [step_eq_handle, step_eq_handle]
    exact executes.bind fun effect effect' => handle_agree simulation.toCorrespondence states

/-- The second machine may wait now and then, so it gets by with the limit of the first. If it never
waits, both are stopped at the same limit. -/
theorem run (simulation : Simulation m n R idle) (states : s.Related R t) {limit larger : Nat}
    (enough : limit ≤ larger)
    (obtained : ((∀ i, ¬ idle i) ∧ limit = larger) ∨ ¬ CutShort (Machine.run m limit s)) :
    Machine.run n larger t = Machine.run m limit s := by
  -- On the limit of the first machine. The other one may be larger, since waiting costs nothing.
  induction limit generalizing s t larger with
  | zero =>
    cases fetched : s.current.fetch? with
    | none =>
      rw [run_of_fetch_none fetched, run_of_fetch_none (simulation.ended states.current fetched),
        simulation.method states.current]
    | some i =>
      rcases obtained with ⟨never, rfl⟩ | obtained
      · rcases simulation.step states fetched with ⟨waits, _⟩ | ⟨j, fetches, _⟩
        · exact absurd waits (never i)
        · rw [run_zero fetched, run_zero fetches, simulation.method states.current]
      · rw [run_zero fetched] at obtained
        exact absurd trivial obtained
  | succ limit ih =>
    cases fetched : s.current.fetch? with
    | none =>
      rw [run_of_fetch_none fetched, run_of_fetch_none (simulation.ended states.current fetched),
        simulation.method states.current]
    | some i =>
      rcases simulation.step states fetched with ⟨waits, u, stepped, after⟩ | ⟨j, fetches, steps⟩
      · -- The second machine waits and keeps what is left of its limit.
        rw [run_succ_of_running fetched stepped] at obtained ⊢
        exact ih after (Nat.le_of_succ_le enough)
          (Or.inr (obtained.resolve_left fun never => never.1 i waits))
      · obtain ⟨rest, rfl⟩ : ∃ rest, larger = rest + 1 := ⟨larger - 1, by omega⟩
        rcases steps.elim with
          ⟨progress, progress', stepped, stepped', related⟩ | ⟨fault, _, stepped, stepped', rfl⟩
        · cases related with
          | running after =>
            rw [run_succ_of_running fetched stepped] at obtained ⊢
            rw [run_succ_of_running fetches stepped']
            rw [Nat.add_right_cancel_iff] at obtained
            exact ih after (Nat.le_of_succ_le_succ enough) obtained
          | finished result =>
            rw [run_succ_of_finished fetched stepped, run_succ_of_finished fetches stepped']
        · rw [run_succ_of_error fetched stepped, run_succ_of_error fetches stepped']

theorem call (simulation : Simulation m n R idle) (limit : Nat) (method : MethodRef)
    (args : List Value)
    (obtained : (∀ i, ¬ idle i) ∨ ¬ CutShort (m.call limit method args)) :
    n.call limit method args = m.call limit method args := by
  rcases (simulation.enter method args 0).elim with
    ⟨f, g, entered, entered', frames⟩ | ⟨fault, _, refused, refused', rfl⟩
  · rw [Module.call_of_entered entered] at obtained ⊢
    rw [Module.call_of_entered entered']
    exact simulation.run ⟨frames, .nil⟩ (Nat.le_refl limit) (obtained.imp_left (⟨·, rfl⟩))
  · rw [Module.call_of_refused refused, Module.call_of_refused refused']

end Simulation

end NativeBridge
