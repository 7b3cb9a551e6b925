import NativeBridge.Proofs.Interruption

/-! What a pass of any rules leaves, in terms of its stages. The methods behind it are as the rules
left them, those before it are as they were, and its report counts what lies behind it. A method
that is being visited gets its body back however the visit ends. -/

namespace NativeBridge

/-- The number of live instructions of a method. -/
def MethodDef.liveCount (m : MethodDef) : Nat :=
  match m.body with
  | none => 0
  | some b => b.size

/-- The number of live instructions of some methods. -/
def liveCount : List MethodDef → Nat
  | [] => 0
  | m :: methods => m.liveCount + liveCount methods

/-- The number of methods that have a body. -/
def bodyCount (methods : List MethodDef) : Nat := methods.countP (·.body.isSome)

theorem liveCount_append (xs ys : List MethodDef) :
    liveCount (xs ++ ys) = liveCount xs + liveCount ys := by
  induction xs with
  | nil => simp [liveCount]
  | cons m xs ih =>
    simp only [List.cons_append, liveCount, ih]
    omega

theorem liveCount_singleton (m : MethodDef) : liveCount [m] = m.liveCount :=
  Nat.add_zero _

namespace Pass

variable {σ : Type}

/-- What lies behind a stage of a pass is as long as what was there before, and the report counts
it. -/
def Stage.Counted (m : Module) (s : Stage σ) : Prop :=
  ∃ visited, namedMethods m.types = visited ++ s.pending ∧ visited.length = s.done.length ∧
    s.progress.report.methods = bodyCount (visited.map (·.2)) ∧
    s.progress.report.instructions = liveCount (visited.map (·.2)) ∧
    s.progress.report.removed = liveCount (visited.map (·.2)) - liveCount s.done

theorem Stage.Counted.step {rules : List (Rule σ)} {m : Module} {s t : Stage σ}
    (counted : s.Counted m) (step : Step rules m s t) : t.Counted m := by
  obtain ⟨visited, all, same, methods, instructions, removed⟩ := counted
  cases step with
  | skip next bodiless =>
    rename_i type method later
    have none : method.liveCount = 0 := by rw [MethodDef.liveCount, bodiless]
    refine ⟨visited ++ [(type, method)], by simp [all, next], by simp [same], ?_, ?_, ?_⟩
    · simp [methods, bodyCount, bodiless]
    · simp [instructions, liveCount_append, liveCount_singleton, none]
    · simp [removed, liveCount_append, liveCount_singleton, none]
  | visit visits =>
    rename_i method later b w
    obtain ⟨held, site, next, _⟩ := visits
    -- The rules may insert, so the difference is one of integers.
    have before : method.liveCount = b.size := by rw [MethodDef.liveCount, held]
    have after : MethodDef.liveCount { method with body := some w.body } = w.body.size := rfl
    refine ⟨visited ++ [(site.type, method)], by simp [all, next], by simp [same], ?_, ?_, ?_⟩
    · simp [Report.count, methods, bodyCount, held]
    · simp [Report.count, instructions, liveCount_append, liveCount_singleton, before]
    · simp only [Report.count, removed, List.map_append, List.map_cons, List.map_nil,
        liveCount_append, liveCount_singleton, before, after]
      omega

theorem Stage.counted_of_steps {rules : List (Rule σ)} {m : Module} {state : σ} {s : Stage σ}
    (steps : Relation.ReflTransGen (Step rules m) (first m state) s) : s.Counted m := by
  induction steps with
  | refl => exact ⟨[], rfl, rfl, rfl, rfl, rfl⟩
  | tail _ step ih => exact ih.step step

/-- A pass that fails has logged nothing but what was logged on the way. -/
theorem log_of_error {rules : List (Rule σ)} {checked : Bool} {m : Module} {state : σ}
    {e : PassError} (failed : (run rules checked m state).result = .error e) :
    (run rules checked m state).log = (visitAll rules m state).2.2.log := by
  unfold run at failed ⊢
  dsimp only at failed ⊢
  split
  next => rfl
  next report succeeded =>
    rw [succeeded] at failed
    cases failed

/-- A pass has failed in a method: its body is put back as the rules left it, and every later method
is as it was. -/
def Interrupted (rules : List (Rule σ)) (m : Module) (state : σ) (o : Outcome σ) (e : PassError) :
    Prop :=
  ∃ s earlier method later b w,
    Relation.ReflTransGen (Stage.Step rules m) (Stage.first m state) s ∧
    s.Visits rules m method later b (.error e) w ∧
    m.methods.map (·.2) = earlier ++ method :: later.map (·.2) ∧
    earlier.length = s.done.length ∧
    o.edited.methods.map (·.2) =
      s.done ++ { method with body := some w.body } :: later.map (·.2) ∧
    o.state = w.state ∧ o.log = w.log

/-- A pass has got past every method. -/
def Completed (rules : List (Rule σ)) (m : Module) (state : σ) (o : Outcome σ) : Prop :=
  ∃ q, Relation.ReflTransGen (Stage.Step rules m) (Stage.first m state)
    ⟨o.edited.methods.map (·.2), [], q⟩

/-- A pass fails in a method, or in the stack check when it has got past every method. -/
theorem run_fails {rules : List (Rule σ)} {checked : Bool} {m : Module} {state : σ} {e : PassError}
    (failed : (run rules checked m state).result = .error e) :
    Interrupted rules m state (run rules checked m state) e ∨
      (Completed rules m state (run rules checked m state) ∧ checked = true ∧
        ∃ fault, (run rules checked m state).edited.checkStacks = .error fault ∧
          e = .stack fault) := by
  obtain ⟨_, after, result⟩ := run_eq rules checked m state
  have leads := (run_leads rules checked m state).2
  have logged := log_of_error failed
  rw [failed, eq_comm, Success.bind_error_iff] at result
  rcases result with stopped | ⟨⟨⟩, visited, result⟩
  · left
    rw [stopped] at leads
    obtain ⟨s, steps, method, later, b, w, visits, methods, state', log'⟩ := leads
    obtain ⟨visited, all, same, _⟩ := Stage.counted_of_steps steps
    refine ⟨s, visited.map (·.2), method, later, b, w, steps, visits, ?_, by simpa using same, ?_,
      after.trans state', logged.trans log'⟩
    · obtain ⟨_, site, next, _⟩ := visits
      rw [Module.map_snd_methods, ← map_snd_namedMethods, all, next, List.map_append, List.map_cons]
    · simpa using methods
  · right
    rw [visited] at leads
    refine ⟨⟨_, leads⟩, ?_⟩
    cases checked with
    | false => cases result
    | true =>
      refine ⟨rfl, ?_⟩
      simp only [if_true, Success.bind_error_iff] at result
      rcases result with refused | ⟨_, _, impossible⟩
      · cases verdict : (run rules true m state).edited.checkStacks with
        | ok value =>
          rw [verdict] at refused
          cases refused
        | error fault =>
          rw [verdict] at refused
          exact ⟨fault, rfl, (Except.error.inj refused).symm⟩
      · cases impossible

/-- A pass that succeeds has got past every method and gives the report of its last stage. -/
theorem run_succeeds {rules : List (Rule σ)} {checked : Bool} {m : Module} {state : σ}
    {report : Report} (succeeded : (run rules checked m state).result = .ok report) :
    ∃ q, q.report = report ∧ Relation.ReflTransGen (Stage.Step rules m) (Stage.first m state)
      ⟨(run rules checked m state).edited.methods.map (·.2), [], q⟩ := by
  have leads := (run_leads rules checked m state).2
  have result := (run_eq rules checked m state).2.2
  rw [succeeded, eq_comm, Success.bind_ok_iff] at result
  obtain ⟨⟨⟩, visited, result⟩ := result
  rw [visited] at leads
  refine ⟨_, ?_, leads⟩
  cases checked with
  | false => exact (Success.pure_ok_iff ..).mp result
  | true =>
    obtain ⟨_, _, same⟩ := (Success.bind_ok_iff ..).mp result
    exact (Success.pure_ok_iff ..).mp same

/-- A pass of any rules edits bodies and nothing else. However it ends, the headers of the module
are as they were and a method has a body if it had one before. If the rules fail in a method, or an
instruction of it cannot be looked up, every later method is as it was. If the pass succeeds, every
method was visited, and the report says how many have a body, how many live instructions they had,
and how many more those were than there are now. -/
theorem run_edits_bodies_only (rules : List (Rule σ)) (checked : Bool) (m : Module) (state : σ) :
    (run rules checked m state).edited.bare = m.bare ∧
    (run rules checked m state).edited.methods.map (fun entry => entry.2.body.isSome) =
      m.methods.map (fun entry => entry.2.body.isSome) ∧
    (∀ e, (run rules checked m state).result = .error e →
      Interrupted rules m state (run rules checked m state) e ∨
        (Completed rules m state (run rules checked m state) ∧ checked = true ∧
          ∃ fault, (run rules checked m state).edited.checkStacks = .error fault ∧
            e = .stack fault)) ∧
    ∀ report, (run rules checked m state).result = .ok report →
      Completed rules m state (run rules checked m state) ∧
      report.methods = bodyCount (m.methods.map (·.2)) ∧
      report.instructions = liveCount (m.methods.map (·.2)) ∧
      report.removed = liveCount (m.methods.map (·.2)) -
        liveCount ((run rules checked m state).edited.methods.map (·.2)) := by
  obtain ⟨headers, left, _⟩ := run_left rules checked m state
  refine ⟨headers, ?_, fun e => run_fails, fun report succeeded => ?_⟩
  · simpa [Function.comp_def] using isSome_of_left left
  · obtain ⟨q, rfl, steps⟩ := run_succeeds succeeded
    obtain ⟨all, covers, _, methods, instructions, removed⟩ := Stage.counted_of_steps steps
    rw [List.append_nil] at covers
    rw [← covers, map_snd_namedMethods, ← Module.map_snd_methods] at methods instructions removed
    exact ⟨⟨q, steps⟩, methods, instructions, removed⟩

end Pass

end NativeBridge
