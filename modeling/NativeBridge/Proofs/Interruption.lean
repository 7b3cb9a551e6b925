import NativeBridge.Proofs.Visits

/-! Passes that may fail. Where a change fails, it leaves what it had changed until then. However a
pass ends, every method was visited, was being visited or was not reached, and all else of the
module is as it was. -/

namespace NativeBridge.Pass

variable {σ α β : Type}

/-- A change fails on a workspace and leaves another workspace. -/
def Edit.Stops (change : Edit σ α) (w : Workspace σ) (e : PassError) (after : Workspace σ) : Prop :=
  change.outcome w = (.error e, after)

namespace Edit

variable {w after : Workspace σ} {e : PassError} {site : Site} {id : InstrId}

@[simp] theorem pure_stops_iff (a : α) : (pure a : Edit σ α).Stops w e after ↔ False := by
  change (Except.ok a, w) = _ ↔ _
  simp

@[simp] theorem throw_stops_iff (cause : PassError) :
    (throw cause : Edit σ α).Stops w e after ↔ cause = e ∧ w = after := by
  change (Except.error cause, w) = _ ↔ _
  simp

/-- A sequence fails in its first part, or in its second after the first has succeeded. -/
@[simp] theorem bind_stops_iff (change : Edit σ α) (f : α → Edit σ β) :
    (change >>= f).Stops w e after ↔ change.Stops w e after ∨
      ∃ a between, change.Yields w a between ∧ (f a).Stops between e after := by
  unfold Yields Stops
  rw [outcome_bind]
  rcases change.outcome w with ⟨result, between⟩
  cases result <;> simp

@[simp] theorem get_stops_iff : (get : Edit σ (Workspace σ)).Stops w e after ↔ False := by
  change (Except.ok w, w) = _ ↔ _
  simp

@[simp] theorem modify_stops_iff (f : Workspace σ → Workspace σ) :
    (modify f : Edit σ PUnit).Stops w e after ↔ False := by
  change (Except.ok PUnit.unit, f w) = _ ↔ _
  simp

@[simp] theorem body_stops_iff : (body : Edit σ Body).Stops w e after ↔ False := by
  simp only [body, bind_stops_iff, get_stops_iff, pure_stops_iff, and_false, exists_false, or_self]

@[simp] theorem record_stops_iff (event : LogEvent) :
    (record event : Edit σ Unit).Stops w e after ↔ False :=
  modify_stops_iff _

/-- An edit of the body that is refused leaves the workspace as it was. -/
theorem apply_stops_iff (change : Body → Except EditError (α × Body)) :
    (apply site change : Edit σ α).Stops w e after ↔
      ∃ cause, change w.body = .error cause ∧ .edit site.label cause = e ∧ w = after := by
  simp only [apply, bind_stops_iff, body_stops_iff, body_yields_iff, and_assoc, exists_and_left,
    exists_eq_left', false_or]
  cases changed : change w.body with
  | error cause => simp
  | ok edited =>
    simp only [setBody, bind_stops_iff, modify_stops_iff, pure_stops_iff, and_false, exists_false,
      or_self, reduceCtorEq, false_and]

theorem remove_stops_iff :
    (remove site id : Edit σ Unit).Stops w e after ↔
      ∃ cause, w.body.remove id = .error cause ∧ .edit site.label cause = e ∧ w = after := by
  simp only [remove, bind_stops_iff, apply_stops_iff, pure_stops_iff, and_false, exists_false,
    or_false]

theorem replace_stops_iff (i : Instruction) :
    (replace site id i : Edit σ Unit).Stops w e after ↔
      ∃ cause, w.body.replace id i = .error cause ∧ .edit site.label cause = e ∧ w = after := by
  simp only [replace, bind_stops_iff, apply_stops_iff, pure_stops_iff, and_false, exists_false,
    or_false]

@[simp] theorem forM_nil_stops_iff (f : α → Edit σ Unit) :
    (([] : List α).forM f).Stops w e after ↔ False := by
  simp [List.forM_nil]

@[simp] theorem forM_cons_stops_iff (f : α → Edit σ Unit) (x : α) (xs : List α) :
    ((x :: xs).forM f).Stops w e after ↔ (f x).Stops w e after ∨
      ∃ between, (f x).Yields w () between ∧ (xs.forM f).Stops between e after := by
  change (f x >>= fun _ => xs.forM f).Stops w e after ↔ _
  rw [bind_stops_iff]
  refine or_congr_right ⟨fun ⟨_, rest⟩ => rest, fun rest => ⟨(), rest⟩⟩

/-- A walk along a list keeps an invariant as long as it does not fail, and leaves what a failing
step leaves. -/
theorem forM_outcome {f : α → Edit σ Unit} (holds : List α → Workspace σ → Prop)
    (stopped : PassError → Workspace σ → Prop)
    (steps : ∀ x rest w after, holds (x :: rest) w → (f x).Yields w () after → holds rest after)
    (stops : ∀ x rest w after e, holds (x :: rest) w → (f x).Stops w e after → stopped e after)
    {xs : List α} (begun : holds xs w) :
    (∀ after, (xs.forM f).Yields w () after → holds [] after) ∧
      ∀ e after, (xs.forM f).Stops w e after → stopped e after := by
  induction xs generalizing w with
  | nil => simpa using begun
  | cons x xs ih =>
    simp only [forM_cons_yields_iff, forM_cons_stops_iff]
    constructor
    · rintro after ⟨between, stepped, rest⟩
      exact (ih (steps x xs w between begun stepped)).1 after rest
    · rintro e after (failed | ⟨between, stepped, rest⟩)
      · exact stops x xs w after e begun failed
      · exact (ih (steps x xs w between begun stepped)).2 e after rest

end Edit

/-- Showing an instruction fails when it cannot be looked up or when a rule fails. -/
theorem showTo_stops_iff {rules : List (Rule σ)} {site : Site} {id : InstrId} {i : Instruction}
    {w after : Workspace σ} {e : PassError} (held : w.body.get? id = some i) :
    (showTo rules site id).Stops w e after ↔
      (lookUp site w.body id i = .error e ∧ w = after) ∨
        ∃ visit, lookUp site w.body id i = .ok (some visit) ∧
          (rules.forM fun rule => rule.react site id visit).Stops w e after := by
  simp only [showTo, Edit.bind_stops_iff, Edit.body_stops_iff, Edit.body_yields_iff, and_assoc,
    exists_and_left, exists_eq_left', held, false_or]
  cases shown : lookUp site w.body id i with
  | error cause => simp
  | ok visit => cases visit <;> simp

theorem parameterAt_error {site : Site} {b : Body} {id : InstrId} {slot : Nat} {e : PassError}
    (failed : parameterAt site b id slot = .error e) : e = .unknownArgument site.label id slot := by
  unfold parameterAt at failed
  dsimp only at failed
  cases receiver : b.hasReceiver with
  | true =>
    cases slot with
    | zero => simp [receiver] at failed
    | succ place =>
      cases found : site.method.params[place]? with
      | none => simpa [receiver, found] using failed.symm
      | some param => simp [receiver, found] at failed
  | false =>
    cases found : site.method.params[slot]? with
    | none => simpa [receiver, found] using failed.symm
    | some param => simp [receiver, found] at failed

/-- The failures that come before any rule: an operand of the wrong kind, or a slot without a
declaration. -/
def PassError.isUndeclared : PassError → Bool
  | .operandMismatch .. | .unknownArgument .. | .unknownLocal .. => true
  | _ => false

theorem lookUp_error {site : Site} {b : Body} {id : InstrId} {i : Instruction} {e : PassError}
    (failed : lookUp site b id i = .error e) : e.isUndeclared = true := by
  unfold lookUp at failed
  cases matched : i.isMatched with
  | false =>
    simp only [matched, Bool.not_false, if_true, Except.error.injEq] at failed
    subst failed
    rfl
  | true =>
    simp only [matched, Bool.not_true, Bool.false_eq_true, if_false] at failed
    cases kind : i.opcode.category with
    | loadArgument | storeArgument =>
      cases named : i.slot? with
      | none =>
        simp only [kind, named, Success.error_bind, Except.error.injEq] at failed
        subst failed
        rfl
      | some slot =>
        simp only [kind, named, Success.ok_bind, Success.bind_error_iff] at failed
        -- Only the declaration of the parameter can be missing.
        rcases failed with failed | ⟨_, _, failed⟩
        · rw [parameterAt_error failed]
          rfl
        · cases failed
    | loadLocal | storeLocal =>
      cases named : i.slot? with
      | none =>
        simp only [kind, named, Success.error_bind, Except.error.injEq] at failed
        subst failed
        rfl
      | some slot =>
        cases found : b.local? slot with
        | none =>
          simp only [kind, named, found, Success.ok_bind, Success.error_bind,
            Except.error.injEq] at failed
          subst failed
          rfl
        | some declared =>
          simp only [kind, named, found, Success.ok_bind] at failed
          cases failed
    | loadField | storeField =>
      cases named : i.field? with
      | none =>
        simp only [kind, named, Success.error_bind, Except.error.injEq] at failed
        subst failed
        rfl
      | some field =>
        simp only [kind, named, Success.ok_bind] at failed
        cases failed
    | call | newObject =>
      cases named : i.method? with
      | none =>
        simp only [kind, named, Success.error_bind, Except.error.injEq] at failed
        subst failed
        rfl
      | some method =>
        simp only [kind, named, Success.ok_bind] at failed
        cases failed
    | other =>
      simp only [kind] at failed
      cases failed

section traversal

variable {rules : List (Rule σ)} {m : Module}

/-- The rules visit a body of a method, and stop with a result and another body. -/
def BodyLeft (rules : List (Rule σ)) (m : Module) (method : MethodDef) (b : Body)
    (result : Except PassError Unit) (edited : Body) : Prop :=
  ∃ site state before after, site.enclosing.bare = m.bare ∧ site.method = method.bare ∧
    (visitBody rules site b.order).outcome ⟨b, state, before⟩ = (result, after) ∧
    edited = after.body

/-- A method was not reached, or it has the body that was left by the rules. -/
def MethodLeft (rules : List (Rule σ)) (m : Module) (method edited : MethodDef) : Prop :=
  edited = method ∨ ∃ b c result, method.body = some b ∧
    edited = { method with body := some c } ∧ BodyLeft rules m method b result c

/-- A pass that fails does so at a method with a body. -/
def FailsAt (rules : List (Rule σ)) (m : Module) (methods : List MethodDef)
    (result : Except PassError Unit) : Prop :=
  ∀ e, result = .error e → ∃ method ∈ methods, ∃ b c, method.body = some b ∧
    BodyLeft rules m method b (.error e) c

theorem MethodVisited.left {state after : σ} {method edited : MethodDef}
    (visited : MethodVisited rules m state method edited after) :
    MethodLeft rules m method edited := by
  rcases visited with ⟨_, rfl, _⟩ | ⟨b, c, held, rfl, site, before, log, same, header, ran⟩
  · exact Or.inl rfl
  · exact Or.inr ⟨b, c, _, held, rfl, site, state, before, _, same, header, ran, rfl⟩

theorem Stage.Visits.left {s : Stage σ} {method : MethodDef} {later : List (TypeName × MethodDef)}
    {b : Body} {result : Except PassError Unit} {w : Workspace σ}
    (visits : s.Visits rules m method later b result w) :
    BodyLeft rules m method b result w.body := by
  obtain ⟨_, site, _, header, same, _, ran⟩ := visits
  exact ⟨site, _, _, w, same, header, ran, rfl⟩

/-- A method that the rules leave has a body if it had one before. -/
theorem isSome_of_left {methods edited : List MethodDef}
    (left : List.Forall₂ (MethodLeft rules m) methods edited) :
    (edited.map fun method => method.body.isSome) =
      methods.map fun method => method.body.isSome := by
  induction left with
  | nil => rfl
  | cons head _ ih =>
    rw [List.map_cons, List.map_cons, ih]
    rcases head with rfl | ⟨b, c, result, held, rfl, _⟩
    · rfl
    · rw [held]
      rfl

/-- However a pass ends, each method is what the rules left of it, and the headers are as they
were. The visit of the methods fails at one that has a body. -/
theorem run_left (rules : List (Rule σ)) (checked : Bool) (m : Module) (state : σ) :
    (run rules checked m state).edited.bare = m.bare ∧
      List.Forall₂ (MethodLeft rules m) (m.methods.map (·.2))
        ((run rules checked m state).edited.methods.map (·.2)) ∧
      FailsAt rules m (m.methods.map (·.2)) (visitAll rules m state).1 := by
  obtain ⟨headers, leads⟩ := run_leads rules checked m state
  refine ⟨headers, ?_⟩
  rw [Module.map_snd_methods m, ← map_snd_namedMethods]
  generalize (visitAll rules m state).1 = result at leads ⊢
  rcases result with e | ⟨⟩
  · -- Behind the method that failed, nothing was reached.
    obtain ⟨s, steps, method, later, b, w, visits, methods, _⟩ := leads
    obtain ⟨visited, all, threads⟩ := Stage.threads_of_steps steps
    obtain ⟨held, site, next, _⟩ := id visits
    rw [List.map_nil, List.append_nil] at methods
    rw [methods, all, next, List.map_append, List.map_cons]
    refine ⟨List.rel_append (threads.forall₂ (·.left)) (.cons ?_ ?_), ?_⟩
    · exact Or.inr ⟨b, w.body, _, held, rfl, visits.left⟩
    · exact List.forall₂_same.mpr fun _ _ => Or.inl rfl
    · rintro _ ⟨⟩
      exact ⟨method, by simp, b, w.body, held, visits.left⟩
  · obtain ⟨visited, all, threads⟩ := Stage.threads_of_steps leads
    rw [all, List.append_nil]
    exact ⟨threads.forall₂ (·.left), by rintro _ ⟨⟩⟩

end traversal

end NativeBridge.Pass
