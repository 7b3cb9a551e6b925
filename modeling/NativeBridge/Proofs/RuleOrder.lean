import NativeBridge.Proofs.Encoding

/-! The order of the rules. At an instruction at most two of them act, and then one edits the body
and looks at no table, and the other fills a table and looks at no body. So neighbours may be
swapped, and rules in any order agree but for what they log and for the error of a pass that
fails. -/

namespace NativeBridge

theorem MethodDef.eq_of_agree {m n : MethodDef} (agree : m.Agree Eq n) : m = n := by
  have bodies : m.body = n.body := by
    rcases held_of_rel agree.bodies with ⟨held, held'⟩ | ⟨b, c, held, held', rfl⟩
    · rw [held, held']
    · rw [held, held']
  have withBody := congrArg (fun k : MethodDef => { k with body := m.body }) agree.header
  exact withBody.trans (congrArg (fun body => { n with body := body }) bodies)

theorem TypeDef.eq_of_agree {t u : TypeDef} (agree : t.Agree Eq u) : t = u := by
  have methods : t.methods = u.methods :=
    List.forall₂_eq_eq_eq ▸ agree.methods.imp fun _ _ => MethodDef.eq_of_agree
  have withMethods := congrArg (fun v : TypeDef => { v with methods := t.methods }) agree.header
  exact withMethods.trans (congrArg (fun methods => { u with methods := methods }) methods)

theorem Module.eq_of_agree {m n : Module} (agree : m.Agree Eq n) : m = n := by
  have types : m.types = n.types :=
    List.forall₂_eq_eq_eq ▸ agree.types.imp fun _ _ => TypeDef.eq_of_agree
  obtain ⟨name, ts⟩ := m
  obtain ⟨name', us⟩ := n
  exact congrArg₂ Module.mk agree.name types

theorem Module.agree_refl (m : Module) : m.Agree Eq m where
  name := rfl
  types := by
    refine List.forall₂_same.mpr fun t _ => ⟨rfl, List.forall₂_same.mpr fun method _ => ⟨rfl, ?_⟩⟩
    cases method.body with
    | none => exact .none
    | some b => exact .some rfl

namespace Pass

variable {σ τ : Type}

theorem Site.agree_refl (s : Site) : s.Agree Eq s := ⟨s.enclosing.agree_refl, rfl, rfl⟩

theorem Site.eq_of_agree {s t : Site} (agree : s.Agree Eq t) : s = t := by
  obtain ⟨m, type, method⟩ := s
  obtain ⟨n, type', method'⟩ := t
  obtain ⟨modules, rfl, rfl⟩ := agree
  exact congrArg (Site.mk · _ _) (Module.eq_of_agree modules)

namespace Edit

/-- Changes with the same effect on bodies and states, of which one fails if the other does. -/
def Same (c d : Edit σ Unit) : Prop := Edit.Agree Eq (fun _ _ => True) Eq c d

variable {c d e : Edit σ Unit}

theorem Same.symm (same : c.Same d) : d.Same c := by
  intro w u agree
  rcases (same u w ⟨agree.body.symm, agree.state.symm⟩).elim with
    ⟨p, q, ran, ran', values, after⟩ | ⟨_, _, failed, failed', _⟩
  · rw [ran, ran']
    exact .ok ⟨values.symm, after.body.symm, after.state.symm⟩
  · rw [failed, failed']
    exact .error trivial

theorem Same.trans (first : c.Same d) (second : d.Same e) : c.Same e := by
  intro w u agree
  have rest := second w u agree
  -- The change in the middle runs on the first workspace.
  rcases (first w w ⟨rfl, rfl⟩).elim with
    ⟨p, q, ran, ran', _, after⟩ | ⟨_, _, failed, failed', _⟩
  · rw [ran'] at rest
    obtain ⟨r, ran'', _, after'⟩ := rest.ok_left
    rw [ran, ran'']
    exact .ok ⟨rfl, after.body.trans after'.body, after.state.trans after'.state⟩
  · rw [failed'] at rest
    obtain ⟨_, failed''⟩ := rest.error_left
    rw [failed, failed'']
    exact .error trivial

/-- The change depends on the body alone and leaves the state alone. -/
def OnBody (c : Edit σ Unit) : Prop :=
  ∀ w u : Workspace σ, w.body = u.body →
    NativeBridge.Agree (fun _ _ => True)
      (fun p q => p.2.body = q.2.body ∧ p.2.state = w.state ∧ q.2.state = u.state)
      (completed (c.outcome w)) (completed (c.outcome u))

/-- The change depends on the state alone and leaves the body alone. -/
def OnState (c : Edit σ Unit) : Prop :=
  ∀ w u : Workspace σ, w.state = u.state →
    NativeBridge.Agree (fun _ _ => True)
      (fun p q => p.2.state = q.2.state ∧ p.2.body = w.body ∧ q.2.body = u.body)
      (completed (c.outcome w)) (completed (c.outcome u))

theorem OnBody.state_eq (edits : c.OnBody) {w : Workspace σ} {p : Unit × Workspace σ}
    (ran : completed (c.outcome w) = .ok p) : p.2.state = w.state := by
  have self := edits w w rfl
  rw [ran] at self
  obtain ⟨_, _, _, kept, _⟩ := self.ok_left
  exact kept

theorem OnState.body_eq (notes : d.OnState) {w : Workspace σ} {p : Unit × Workspace σ}
    (ran : completed (d.outcome w) = .ok p) : p.2.body = w.body := by
  have self := notes w w rfl
  rw [ran] at self
  obtain ⟨_, _, _, kept, _⟩ := self.ok_left
  exact kept

/-- Changes of different parts may be swapped. -/
theorem OnBody.commute (edits : c.OnBody) (notes : d.OnState) :
    Same (c >>= fun _ => d) (d >>= fun _ => c) := by
  intro w u agree
  rw [completed_bind, completed_bind]
  rcases edited : completed (c.outcome w) with _ | p <;>
    rcases noted : completed (d.outcome u) with _ | q
  · exact .error trivial
  · -- The edit fails on the body that the other change has left alone.
    have again := edits w q.2 (agree.body.trans (notes.body_eq noted).symm)
    rw [edited] at again
    obtain ⟨_, failed⟩ := again.error_left
    simp only [Success.error_bind, Success.ok_bind, failed]
    exact .error trivial
  · have again := notes p.2 u ((edits.state_eq edited).trans agree.state)
    rw [noted] at again
    obtain ⟨_, failed⟩ := again.error_right
    simp only [Success.error_bind, Success.ok_bind, failed]
    exact .error trivial
  · have first := edits w q.2 (agree.body.trans (notes.body_eq noted).symm)
    have second := notes p.2 u ((edits.state_eq edited).trans agree.state)
    rw [edited] at first
    rw [noted] at second
    obtain ⟨r, edited', bodies, _, kept⟩ := first.ok_left
    obtain ⟨s, noted', states, unmoved, _⟩ := second.ok_right
    rw [Success.ok_bind, Success.ok_bind, edited', noted']
    exact .ok ⟨rfl, unmoved.trans bodies, states.trans kept.symm⟩

/-- A change that does nothing may be swapped with any other. -/
theorem commute_of_idle (idle : c = pure ()) (same : d.Same d) :
    Same (c >>= fun _ => d) (d >>= fun _ => c) := by
  have after : (d >>= fun _ => pure ()) = d := bind_pure d
  rw [idle, pure_bind, after]
  exact same

/-- Changes of which any two may be swapped give the same in any order. -/
theorem forM_perm {α : Type} {f : α → Edit σ Unit} {xs ys : List α} (order : xs.Perm ys)
    (each : ∀ x ∈ xs, (f x).Same (f x))
    (commute : ∀ x ∈ xs, ∀ y ∈ xs, Same (f x >>= fun _ => f y) (f y >>= fun _ => f x)) :
    Same (xs.forM f) (ys.forM f) := by
  induction order with
  | nil => exact agree_pure rfl
  | cons x _ ih =>
    refine agree_seq (each x List.mem_cons_self) (ih ?_ ?_)
    · exact fun y member => each y (List.mem_cons_of_mem _ member)
    · exact fun y member z member' =>
        commute y (List.mem_cons_of_mem _ member) z (List.mem_cons_of_mem _ member')
  | swap x y rest =>
    have swapped := agree_seq (commute y (by simp) x (by simp))
      (agree_forM fun z member => each z (by simp [member]) : (rest.forM f).Same (rest.forM f))
    simp only [bind_assoc] at swapped
    exact swapped
  | trans first _ ih ih' =>
    refine (ih each commute).trans (ih' ?_ ?_)
    · exact fun x member => each x (first.mem_iff.mpr member)
    · exact fun x member y member' =>
        commute x (first.mem_iff.mpr member) y (first.mem_iff.mpr member')

end Edit

section rules

variable {bindings : StaticBindings} {factory : WorkerFactory} {site : Site} {id : InstrId}

/-- Retargeting a call looks at no table and fills none. -/
theorem retargetCall_onBody (callee : MethodRef) :
    (retargetCall bindings site id callee : Edit σ Unit).OnBody := by
  intro w u bodies
  unfold retargetCall
  cases bindings.adapter? callee.declaringType with
  | none => exact .ok ⟨bodies, rfl, rfl⟩
  | some adapter =>
    simp only [Edit.completed_bind, Edit.completed_body, Success.ok_bind, bodies]
    split
    · cases adapterTarget site.enclosing adapter callee with
      | error e => exact .error trivial
      | ok target =>
        simp only [Edit.completed_bind, Edit.completed_record, Success.ok_bind, Edit.replace,
          Edit.completed_apply, bodies]
        cases u.body.replace id ⟨.call, .method target⟩ with
        | error cause => exact .error trivial
        | ok replaced => exact .ok ⟨rfl, rfl, rfl⟩
    · exact .ok ⟨bodies, rfl, rfl⟩

/-- Noting a worker looks at no body and edits none. -/
theorem workerTypes_onState (callee : MethodRef) :
    ((workerTypes factory).react site id (.call callee)).OnState := by
  intro w u states
  simp only [workerTypes]
  split
  · split
    · simp only [Edit.completed_bind, Edit.completed_get, Success.ok_bind, states]
      split
      · exact .ok ⟨rfl, rfl, rfl⟩
      · exact .ok ⟨states, rfl, rfl⟩
    · exact .error trivial
  · exact .ok ⟨states, rfl, rfl⟩

theorem Rule.zoom_onState {part : τ → σ} {update : σ → τ → τ} {rule : Rule σ} {visit : Visit}
    (notes : (rule.react site id visit).OnState) :
    ((rule.zoom part update).react site id visit).OnState := by
  intro w u states
  rw [completed_zoom, completed_zoom]
  refine (notes _ _ (congrArg part states)).map fun p q ⟨same, body, body'⟩ => ⟨?_, body, body'⟩
  rw [same, states]

/-- Each rule does the same on workspaces that differ in their logs at most. -/
theorem standardRules_same {rule : Rule Tables} (member : rule ∈ standardRules bindings factory)
    (visit : Visit) : (rule.react site id visit).Same (rule.react site id visit) :=
  standardRules_agree Body.eq_congruence (fun _ => trivial) site.agree_refl member visit

theorem callbackRule_pure {visit : Visit} (other : ∀ ctor, visit ≠ .newObject ctor) :
    callbackRule.react site id visit = pure () := by
  cases visit with
  | newObject ctor => exact absurd rfl (other ctor)
  | _ => rfl

theorem workerRule_pure {visit : Visit} (other : ∀ callee, visit ≠ .call callee) :
    (workerRule factory).react site id visit = pure () := by
  cases visit with
  | call callee => exact absurd rfl (other callee)
  | _ => rfl

/-- The rule for worker types may be swapped with the rule for interfaces: where both act, one
edits the body and the other fills its table. -/
theorem interfaceCalls_workerRule_commute (factory : WorkerFactory) (visit : Visit)
    (self : ((interfaceCalls bindings : Rule Tables).react site id visit).Same
      ((interfaceCalls bindings).react site id visit)) :
    Edit.Same
      ((interfaceCalls bindings).react site id visit >>= fun _ =>
        (workerRule factory).react site id visit)
      ((workerRule factory).react site id visit >>= fun _ =>
        (interfaceCalls bindings).react site id visit) := by
  cases visit with
  | call callee =>
    exact (retargetCall_onBody callee).commute (Rule.zoom_onState (workerTypes_onState callee))
  | _ => exact (Edit.commute_of_idle (workerRule_pure (by simp)) self).symm

/-- The rule for delegates may be swapped with a rule that does nothing at constructions. -/
theorem callbackRule_commute {rule : Rule Tables} (visit : Visit)
    (idle : ∀ ctor, rule.react site id (.newObject ctor) = pure ())
    (self : (callbackRule.react site id visit).Same (callbackRule.react site id visit))
    (other : (rule.react site id visit).Same (rule.react site id visit)) :
    Edit.Same (rule.react site id visit >>= fun _ => callbackRule.react site id visit)
      (callbackRule.react site id visit >>= fun _ => rule.react site id visit) := by
  cases visit with
  | newObject ctor => exact Edit.commute_of_idle (idle ctor) self
  | _ => exact (Edit.commute_of_idle (callbackRule_pure (by simp)) other).symm

theorem standardRules_commute {a b : Rule Tables} (first : a ∈ standardRules bindings factory)
    (second : b ∈ standardRules bindings factory) (visit : Visit) :
    Edit.Same (a.react site id visit >>= fun _ => b.react site id visit)
      (b.react site id visit >>= fun _ => a.react site id visit) := by
  have self : ∀ rule ∈ standardRules bindings factory,
      (rule.react site id visit).Same (rule.react site id visit) :=
    fun rule member => standardRules_same member visit
  have repeated := Edit.agree_seq (self a first) (self a first)
  simp only [standardRules, List.forall_mem_cons] at self
  obtain ⟨interfaces, delegates, workers, -⟩ := self
  have calls := callbackRule_commute visit (fun _ => rfl) delegates interfaces
  have types := interfaceCalls_workerRule_commute factory visit interfaces
  have tables := callbackRule_commute visit (fun _ => workerRule_pure (by simp)) delegates workers
  simp only [standardRules, List.mem_cons, List.not_mem_nil, or_false] at first second
  rcases first with rfl | rfl | rfl <;> rcases second with rfl | rfl | rfl
  · exact repeated
  · exact calls
  · exact types
  · exact calls.symm
  · exact repeated
  · exact tables.symm
  · exact types.symm
  · exact tables
  · exact repeated

/-- Rules in two orders agree at every instruction. -/
theorem rulesAgree_perm {rules rules' : List (Rule Tables)}
    (order : rules.Perm (standardRules bindings factory)) (reordered : rules.Perm rules') :
    RulesAgree Eq (fun _ _ => True) rules rules' where
  order _ _ same := congrArg Body.order same
  shown site site' id sites := by
    obtain rfl := Site.eq_of_agree sites
    refine showTo_agree Body.eq_congruence (fun _ => trivial) sites fun visit => ?_
    refine Edit.forM_perm reordered ?_ ?_
    · exact fun rule member => standardRules_same (order.mem_iff.mp member) visit
    · exact fun a first b second =>
        standardRules_commute (order.mem_iff.mp first) (order.mem_iff.mp second) visit

end rules

/-- A pass with the rules in another order gives the same, but for the log and for the error if it
fails. -/
theorem run_perm {bindings : StaticBindings} {factory : WorkerFactory}
    {rules rules' : List (Rule Tables)} (order : rules.Perm (standardRules bindings factory))
    (reordered : rules.Perm rules') (checked : Bool) (m : Module) (tables : Tables) :
    (run rules checked m tables).Agree Eq (fun _ _ => True) (run rules' checked m tables) := by
  refine run_agree (rulesAgree_perm order reordered) (Module.agree_refl m) ?_ checked tables
  intro m n same
  obtain rfl := Module.eq_of_agree same
  cases m.checkStacks.mapError PassError.stack with
  | error e => exact .error trivial
  | ok => exact .ok rfl

/-- The order in which the three rules are registered does not matter. Either both passes succeed,
with the same report, module and tables, or both fail. -/
theorem registration_order_irrelevant (m : Module) (bindings : StaticBindings)
    (factory : WorkerFactory) {rules rules' : List (Rule Tables)}
    (order : rules.Perm (standardRules bindings factory))
    (order' : rules'.Perm (standardRules bindings factory)) (checked : Bool) (tables : Tables) :
    (∃ report, (run rules checked m tables).result = .ok report ∧
        (run rules' checked m tables).result = .ok report ∧
        (run rules checked m tables).edited = (run rules' checked m tables).edited ∧
        (run rules checked m tables).state = (run rules' checked m tables).state) ∨
      ∃ e e', (run rules checked m tables).result = .error e ∧
        (run rules' checked m tables).result = .error e' := by
  rcases run_perm order (order.trans order'.symm) checked m tables with
    ⟨report, ended, ended', states, modules⟩ | ⟨e, e', failed, failed', _⟩
  · exact Or.inl ⟨report, ended, ended', Module.eq_of_agree modules, states⟩
  · exact Or.inr ⟨e, e', failed, failed'⟩

/-- On the sample program both orders succeed. -/
theorem registration_order_irrelevant_sample :
    let rules := standardRules Sample.bindings Sample.factory
    rules.reverse.Perm rules ∧ rules.Perm rules ∧
      ∃ report, (run rules.reverse true Sample.program {}).result = .ok report ∧
        (run rules true Sample.program {}).result = .ok report ∧
        (run rules.reverse true Sample.program {}).edited =
          (run rules true Sample.program {}).edited ∧
        (run rules.reverse true Sample.program {}).state =
          (run rules true Sample.program {}).state := by
  have backwards := List.reverse_perm (standardRules Sample.bindings Sample.factory)
  have forwards := List.Perm.refl (standardRules Sample.bindings Sample.factory)
  refine ⟨backwards, forwards, ?_⟩
  rcases registration_order_irrelevant Sample.program Sample.bindings Sample.factory backwards
    forwards true {} with both | ⟨_, _, _, failed⟩
  · exact both
  · rw [run_sample] at failed
    cases failed

end Pass

end NativeBridge
