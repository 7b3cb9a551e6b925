import NativeBridge.Proofs.Visits

/-! Two computations side by side. They agree when both succeed, with related values, or both fail,
with related errors. Two passes over modules that differ in their bodies agree if the rules agree at
every instruction. What they log does not matter. -/

namespace NativeBridge

section computations

variable {ε ε' α α' β β' : Type} {E : ε → ε' → Prop} {V : α → α' → Prop} {W : β → β' → Prop}

/-- Both computations succeed, with related values, or both fail, with related errors. -/
inductive Agree (E : ε → ε' → Prop) (V : α → α' → Prop) : Except ε α → Except ε' α' → Prop
  | ok {a : α} {a' : α'} (values : V a a') : Agree E V (.ok a) (.ok a')
  | error {e : ε} {e' : ε'} (errors : E e e') : Agree E V (.error e) (.error e')

theorem Agree.bind {x : Except ε α} {y : Except ε' α'} {f : α → Except ε β}
    {g : α' → Except ε' β'} (first : Agree E V x y)
    (rest : ∀ a a', V a a' → Agree E W (f a) (g a')) :
    Agree E W (x >>= f) (y >>= g) := by
  cases first with
  | ok values => exact rest _ _ values
  | error errors => exact .error errors

theorem Agree.mono {V' : α → α' → Prop} {x : Except ε α} {y : Except ε' α'} (agree : Agree E V x y)
    (weaker : ∀ a a', V a a' → V' a a') : Agree E V' x y := by
  cases agree with
  | ok values => exact .ok (weaker _ _ values)
  | error errors => exact .error errors

theorem Agree.map {x : Except ε α} {y : Except ε' α'} {f : α → β} {g : α' → β'}
    (agree : Agree E V x y) (values : ∀ a a', V a a' → W (f a) (g a')) :
    Agree E W (x.map f) (y.map g) := by
  cases agree with
  | ok related => exact .ok (values _ _ related)
  | error errors => exact .error errors

theorem Agree.mapError {δ δ' : Type} {D : δ → δ' → Prop} {x : Except ε α} {y : Except ε' α'}
    {f : ε → δ} {g : ε' → δ'} (agree : Agree E V x y) (errors : ∀ e e', E e e' → D (f e) (g e')) :
    Agree D V (x.mapError f) (y.mapError g) := by
  cases agree with
  | ok values => exact .ok values
  | error related => exact .error (errors _ _ related)

theorem Agree.elim {x : Except ε α} {y : Except ε' α'} (agree : Agree E V x y) :
    (∃ a a', x = .ok a ∧ y = .ok a' ∧ V a a') ∨ ∃ e e', x = .error e ∧ y = .error e' ∧ E e e' := by
  cases agree with
  | ok values => exact Or.inl ⟨_, _, rfl, rfl, values⟩
  | error errors => exact Or.inr ⟨_, _, rfl, rfl, errors⟩

theorem Agree.ok_left {a : α} {y : Except ε' α'} (agree : Agree E V (.ok a) y) :
    ∃ a', y = .ok a' ∧ V a a' := by
  cases agree with
  | ok values => exact ⟨_, rfl, values⟩

theorem Agree.ok_right {x : Except ε α} {a' : α'} (agree : Agree E V x (.ok a')) :
    ∃ a, x = .ok a ∧ V a a' := by
  cases agree with
  | ok values => exact ⟨_, rfl, values⟩

theorem Agree.error_left {e : ε} {y : Except ε' α'} (agree : Agree E V (.error e) y) :
    ∃ e', y = .error e' := by
  cases agree with
  | error errors => exact ⟨_, rfl⟩

theorem Agree.error_right {x : Except ε α} {e' : ε'} (agree : Agree E V x (.error e')) :
    ∃ e, x = .error e := by
  cases agree with
  | error errors => exact ⟨_, rfl⟩

/-- Related options hold related values, or nothing. -/
theorem held_of_rel {x : Option α} {y : Option α'} (related : Option.Rel V x y) :
    x = none ∧ y = none ∨ ∃ a a', x = some a ∧ y = some a' ∧ V a a' := by
  cases related with
  | none => exact Or.inl ⟨rfl, rfl⟩
  | some values => exact Or.inr ⟨_, _, rfl, rfl, values⟩

theorem rel_getElem? {xs : List α} {ys : List α'} (related : List.Forall₂ V xs ys) (n : Nat) :
    Option.Rel V xs[n]? ys[n]? := by
  induction related generalizing n with
  | nil => exact .none
  | cons head _ ih =>
    cases n with
    | zero => exact .some head
    | succ n => exact ih n

theorem rel_find? {xs : List α} {ys : List α'} {p : α → Bool} {q : α' → Bool}
    (related : List.Forall₂ V xs ys) (same : ∀ a a', V a a' → p a = q a') :
    Option.Rel V (xs.find? p) (ys.find? q) := by
  induction related with
  | nil => exact .none
  | @cons a a' _ _ head _ ih =>
    rw [List.find?_cons, List.find?_cons, ← same a a' head]
    cases p a with
    | true => exact .some head
    | false => exact ih

theorem Agree.forM {xs : List α} {ys : List α'} {f : α → Except ε Unit} {g : α' → Except ε' Unit}
    (related : List.Forall₂ V xs ys) (each : ∀ a a', V a a' → Agree E Eq (f a) (g a')) :
    Agree E Eq (xs.forM f) (ys.forM g) := by
  induction related with
  | nil => exact .ok rfl
  | cons head _ ih => exact (each _ _ head).bind fun _ _ _ => ih

/-- What a computation gives together with what it leaves, if it succeeds. -/
def completed (outcome : Except ε α × β) : Except ε (α × β) := outcome.1.map (·, outcome.2)

theorem eq_of_completed_ok {outcome : Except ε α × β} {a : α × β}
    (ended : completed outcome = .ok a) : outcome = (.ok a.1, a.2) := by
  rcases outcome with ⟨_ | _, after⟩ <;> cases ended
  rfl

theorem eq_of_completed_error {outcome : Except ε α × β} {e : ε}
    (ended : completed outcome = .error e) : outcome.1 = .error e := by
  rcases outcome with ⟨_ | _, after⟩ <;> cases ended
  rfl

end computations

variable {B : Body → Body → Prop}

/-- Methods that differ in their bodies at most, which are related. -/
structure MethodDef.Agree (B : Body → Body → Prop) (m n : MethodDef) : Prop where
  header : m.bare = n.bare
  bodies : Option.Rel B m.body n.body

/-- Types that differ in the bodies of their methods at most, which are related. -/
structure TypeDef.Agree (B : Body → Body → Prop) (t u : TypeDef) : Prop where
  header : { t with methods := [] } = { u with methods := [] }
  methods : List.Forall₂ (MethodDef.Agree B) t.methods u.methods

/-- Modules that differ in the bodies of their methods at most, which are related. -/
structure Module.Agree (B : Body → Body → Prop) (m n : Module) : Prop where
  name : m.name = n.name
  types : List.Forall₂ (TypeDef.Agree B) m.types n.types

theorem MethodDef.Agree.map_bare {ms ns : List MethodDef}
    (agree : List.Forall₂ (MethodDef.Agree B) ms ns) : ms.map (·.bare) = ns.map (·.bare) := by
  induction agree with
  | nil => rfl
  | cons head _ ih => rw [List.map_cons, List.map_cons, head.header, ih]

theorem TypeDef.Agree.name_eq {t u : TypeDef} (agree : t.Agree B u) : t.name = u.name :=
  congrArg (·.name) agree.header

theorem TypeDef.Agree.bare_eq {t u : TypeDef} (agree : t.Agree B u) : t.bare = u.bare := by
  have withBare := congrArg
    (fun v : TypeDef => { v with methods := t.methods.map MethodDef.bare }) agree.header
  simpa only [TypeDef.bare, MethodDef.Agree.map_bare agree.methods] using withBare

theorem TypeDef.Agree.map_bare {ts us : List TypeDef}
    (agree : List.Forall₂ (TypeDef.Agree B) ts us) : ts.map (·.bare) = us.map (·.bare) := by
  induction agree with
  | nil => rfl
  | cons head _ ih => rw [List.map_cons, List.map_cons, head.bare_eq, ih]

theorem Module.Agree.bare_eq {m n : Module} (agree : m.Agree B n) : m.bare = n.bare := by
  simp only [Module.bare, agree.name, TypeDef.Agree.map_bare agree.types]

theorem Module.Agree.resolve? {m n : Module} (agree : m.Agree B n) (ref : MethodRef) :
    Option.Rel (MethodDef.Agree B) (m.resolve? ref) (n.resolve? ref) := by
  have types : Option.Rel (TypeDef.Agree B) (m.findType? ref.declaringType)
      (n.findType? ref.declaringType) :=
    rel_find? agree.types fun t u same => by rw [same.name_eq]
  simp only [Module.resolve?, Option.bind_eq_bind]
  rcases held_of_rel types with ⟨found, found'⟩ | ⟨t, u, found, found', same⟩
  · rw [found, found']
    exact .none
  · rw [found, found']
    refine rel_find? same.methods fun method method' header => ?_
    have : method.bare.matchesRef ref = method'.bare.matchesRef ref := by rw [header.header]
    exact this

/-- The methods of the modules, in order, with the names of their types. -/
theorem Module.Agree.methods {m n : Module} (agree : m.Agree B n) :
    List.Forall₂ (fun p q => p.1.name = q.1.name ∧ p.2.Agree B q.2) m.methods n.methods := by
  refine List.rel_flatMap agree.types fun t u same => ?_
  simp only [List.forall₂_map_left_iff, List.forall₂_map_right_iff]
  exact same.methods.imp fun _ _ methods => ⟨same.name_eq, methods⟩

namespace Pass

variable {σ α α' β β' : Type} {E : PassError → PassError → Prop} {V : α → α' → Prop}
  {W : β → β' → Prop}

/-- Workspaces with related bodies and the same state of the rules. -/
structure Workspace.Agree (B : Body → Body → Prop) (w u : Workspace σ) : Prop where
  body : B w.body u.body
  state : w.state = u.state

/-- The methods under way have the same header, in modules that agree. -/
structure Site.Agree (B : Body → Body → Prop) (s t : Site) : Prop where
  enclosing : s.enclosing.Agree B t.enclosing
  type : s.type = t.type
  method : s.method = t.method

theorem Site.Agree.label_eq {s t : Site} (agree : s.Agree B t) : s.label = t.label := by
  rw [Site.label, Site.label, agree.type, agree.method]

/-- Changes that agree on workspaces that agree. -/
def Edit.Agree (B : Body → Body → Prop) (E : PassError → PassError → Prop) (V : α → α' → Prop)
    (c : Edit σ α) (d : Edit σ α') : Prop :=
  ∀ w u : Workspace σ, w.Agree B u →
    NativeBridge.Agree E (fun p q => V p.1 q.1 ∧ p.2.Agree B q.2) (completed (c.outcome w))
      (completed (d.outcome u))

namespace Edit

section equations

variable (w : Workspace σ)

@[simp] theorem completed_pure (a : α) : completed ((pure a : Edit σ α).outcome w) = .ok (a, w) :=
  rfl

@[simp] theorem completed_throw (e : PassError) :
    completed ((throw e : Edit σ α).outcome w) = .error e :=
  rfl

@[simp] theorem completed_bind (c : Edit σ α) (f : α → Edit σ β) :
    completed ((c >>= f).outcome w) =
      completed (c.outcome w) >>= fun p => completed ((f p.1).outcome p.2) := by
  rw [outcome_bind]
  rcases c.outcome w with ⟨_ | _, _⟩ <;> rfl

@[simp] theorem completed_get : completed ((get : Edit σ (Workspace σ)).outcome w) = .ok (w, w) :=
  rfl

@[simp] theorem completed_modify (f : Workspace σ → Workspace σ) :
    completed ((modify f : Edit σ PUnit).outcome w) = .ok ((), f w) :=
  rfl

@[simp] theorem completed_body : completed ((body : Edit σ Body).outcome w) = .ok (w.body, w) :=
  rfl

@[simp] theorem completed_record (event : LogEvent) :
    completed ((record event : Edit σ Unit).outcome w) =
      .ok ((), { w with log := w.log ++ [event] }) :=
  rfl

theorem completed_apply (site : Site) (change : Body → Except EditError (α × Body)) :
    completed ((apply site change : Edit σ α).outcome w) =
      ((change w.body).mapError (.edit site.label)).map fun p => (p.1, { w with body := p.2 }) := by
  rw [apply, completed_bind, completed_body, Success.ok_bind]
  cases changed : change w.body <;> rfl

end equations

theorem agree_pure {a : α} {a' : α'} (values : V a a') :
    Edit.Agree B E V (pure a : Edit σ α) (pure a') :=
  fun _ _ same => .ok ⟨values, same⟩

theorem agree_throw {e e' : PassError} (errors : E e e') :
    Edit.Agree B E V (throw e : Edit σ α) (throw e') :=
  fun _ _ _ => .error errors

theorem agree_bind {c : Edit σ α} {d : Edit σ α'} {f : α → Edit σ β} {g : α' → Edit σ β'}
    (first : Edit.Agree B E V c d) (rest : ∀ a a', V a a' → Edit.Agree B E W (f a) (g a')) :
    Edit.Agree B E W (c >>= f) (d >>= g) := by
  intro w u same
  rw [completed_bind, completed_bind]
  exact (first w u same).bind fun p q ⟨values, after⟩ => rest p.1 q.1 values p.2 q.2 after

/-- Changes without a value that agree one after the other. -/
theorem agree_seq {c d : Edit σ Unit} {f g : Edit σ β} {W : β → β → Prop}
    (first : Edit.Agree B E Eq c d) (rest : Edit.Agree B E W f g) :
    Edit.Agree B E W (c >>= fun _ => f) (d >>= fun _ => g) :=
  agree_bind first fun _ _ _ => rest

theorem agree_get : Edit.Agree B E (Workspace.Agree B) (get : Edit σ (Workspace σ)) get :=
  fun _ _ same => .ok ⟨same, same⟩

theorem agree_body : Edit.Agree B E B (body : Edit σ Body) body :=
  fun _ _ same => .ok ⟨same.body, same⟩

theorem agree_setState (state : σ) :
    Edit.Agree B E Eq (modify fun w => { w with state := state } : Edit σ PUnit)
      (modify fun w => { w with state := state }) :=
  fun _ _ same => .ok ⟨rfl, same.body, rfl⟩

theorem agree_record (event event' : LogEvent) :
    Edit.Agree B E Eq (record event : Edit σ Unit) (record event') :=
  fun _ _ same => .ok ⟨rfl, same.body, same.state⟩

/-- Edits of the body that agree on related bodies, and fail for the same reason. -/
theorem agree_apply {site site' : Site} {change : Body → Except EditError (α × Body)}
    {change' : Body → Except EditError (α' × Body)} (label : site.label = site'.label)
    (same : ∀ e, E e e)
    (changes : ∀ b c, B b c →
      NativeBridge.Agree Eq (fun p q => V p.1 q.1 ∧ B p.2 q.2) (change b) (change' c)) :
    Edit.Agree B E V (apply site change : Edit σ α) (apply site' change') := by
  intro w u agree
  rw [completed_apply, completed_apply, label]
  refine ((changes w.body u.body agree.body).mapError ?_).map ?_
  · rintro cause _ rfl
    exact same _
  · exact fun _ _ results => ⟨results.1, results.2, agree.state⟩

theorem agree_forM {f g : α → Edit σ Unit} {xs : List α}
    (each : ∀ x ∈ xs, Edit.Agree B E Eq (f x) (g x)) :
    Edit.Agree B E Eq (xs.forM f) (xs.forM g) := by
  induction xs with
  | nil => exact agree_pure rfl
  | cons x xs ih =>
    obtain ⟨head, tail⟩ := List.forall_mem_cons.mp each
    exact agree_seq head (ih tail)

end Edit

section zoom

variable {τ : Type} (part : τ → σ) (update : σ → τ → τ) {rule : Rule σ} {site site' : Site}
  {id : InstrId} {visit : Visit}

theorem Rule.completed_zoom (w : Workspace τ) :
    completed (((rule.zoom part update).react site id visit).outcome w) =
      (completed ((rule.react site id visit).outcome ⟨w.body, part w.state, w.log⟩)).map fun p =>
        (p.1, ⟨p.2.body, update p.2.state w.state, p.2.log⟩) := by
  have zoomed : ((rule.zoom part update).react site id visit).outcome w =
      let inner := (rule.react site id visit).outcome ⟨w.body, part w.state, w.log⟩
      (inner.1, ⟨inner.2.body, update inner.2.state w.state, inner.2.log⟩) := rfl
  rw [zoomed]
  rcases (rule.react site id visit).outcome ⟨w.body, part w.state, w.log⟩ with ⟨_ | _, _⟩ <;> rfl

/-- A rule on a part of the state agrees with itself if it does so on that part. -/
theorem Rule.zoom_agree
    (agree : Edit.Agree B E Eq (rule.react site id visit) (rule.react site' id visit)) :
    Edit.Agree B E Eq ((rule.zoom part update).react site id visit)
      ((rule.zoom part update).react site' id visit) := by
  intro w u same
  have inner := agree ⟨w.body, part w.state, w.log⟩ ⟨u.body, part u.state, u.log⟩
    ⟨same.body, congrArg part same.state⟩
  rw [completed_zoom, completed_zoom]
  refine inner.map fun p q ⟨values, after⟩ => ⟨values, after.body, ?_⟩
  rw [after.state, same.state]

end zoom

/-! The traversal. -/

section traversal

variable {rules rules' : List (Rule σ)}

/-- Passes under way with the same state of the rules and the same report. -/
structure Progress.Agree (p q : Progress σ) : Prop where
  state : p.state = q.state
  report : p.report = q.report

/-- Both passes succeed with the same report and the same state of the rules and leave modules that
agree, or both fail, with related errors. -/
def Outcome.Agree (B : Body → Body → Prop) (E : PassError → PassError → Prop)
    (o o' : Outcome σ) : Prop :=
  (∃ report, o.result = .ok report ∧ o'.result = .ok report ∧ o.state = o'.state ∧
      o.edited.Agree B o'.edited) ∨
    ∃ e e', o.result = .error e ∧ o'.result = .error e' ∧ E e e'

/-- Rules that agree at every instruction of related bodies. -/
structure RulesAgree (B : Body → Body → Prop) (E : PassError → PassError → Prop)
    (rules rules' : List (Rule σ)) : Prop where
  order : ∀ b c, B b c → b.order = c.order
  shown : ∀ site site' id, Site.Agree B site site' →
    Edit.Agree B E Eq (showTo rules site id) (showTo rules' site' id)

theorem visitBody_agree (agree : RulesAgree B E rules rules') {site site' : Site}
    (sites : site.Agree B site') (ids : List InstrId) :
    Edit.Agree B E Eq (visitBody rules site ids) (visitBody rules' site' ids) :=
  Edit.agree_forM fun id _ => agree.shown site site' id sites

/-- A walk that has come past an item goes on with what was left of it. -/
theorem completed_walk {π : Type} {visit : List α → α → List α → π → Except PassError Unit × α × π}
    {done pending : List α} {item : α} {p : π} :
    completed (walk visit done (item :: pending) p) =
      completed (visit done item pending p) >>= fun r =>
        completed (walk visit (done ++ [r.2.1]) pending r.2.2) := by
  rw [walk]
  rcases visit done item pending p with ⟨_ | _, left, q⟩ <;> rfl

/-- Walks over related items agree if their visits do. -/
theorem walk_agree {π : Type} {A : α → α → Prop} {P : π → π → Prop}
    {visit visit' : List α → α → List α → π → Except PassError Unit × α × π}
    {done done' pending pending' : List α} {p q : π}
    (visits : ∀ {done done' item item' pending pending' p q}, List.Forall₂ A done done' →
      A item item' → List.Forall₂ A pending pending' → P p q →
      Agree E (fun r s => A r.2.1 s.2.1 ∧ P r.2.2 s.2.2) (completed (visit done item pending p))
        (completed (visit' done' item' pending' q)))
    (before : List.Forall₂ A done done') (rest : List.Forall₂ A pending pending') (same : P p q) :
    Agree E (fun r s => List.Forall₂ A r.2.1 s.2.1 ∧ P r.2.2 s.2.2)
      (completed (walk visit done pending p)) (completed (walk visit' done' pending' q)) := by
  induction rest generalizing done done' p q with
  | nil => exact .ok ⟨before, same⟩
  | cons head tail ih =>
    rw [completed_walk, completed_walk]
    refine (visits before head tail same).bind ?_
    rintro r s ⟨left, after⟩
    exact ih (List.rel_append before (.cons left .nil)) after

theorem completed_visitMethod {type : TypeName} {rebuild : List MethodDef → Module}
    {done pending : List MethodDef} {p : Progress σ} {method : MethodDef} {b : Body}
    (held : method.body = some b) :
    completed (visitMethod rules type rebuild done method pending p) =
      (completed ((visitBody rules ⟨rebuild (done ++ method.bare :: pending), type, method.bare⟩
        b.order).outcome ⟨b, p.state, p.log⟩)).map fun r =>
          (r.1, { method with body := some r.2.body },
            ⟨r.2.state, r.2.log, p.report.count b r.2.body true⟩) := by
  rcases ran : (visitBody rules ⟨rebuild (done ++ { method with body := none } :: pending), type,
    { method with body := none }⟩ b.order).run.run ⟨b, p.state, p.log⟩ with ⟨result, w⟩
  have outcome : (visitBody rules ⟨rebuild (done ++ method.bare :: pending), type, method.bare⟩
      b.order).outcome ⟨b, p.state, p.log⟩ = (result, w) := ran
  rw [outcome, visitMethod]
  simp only [held, ran]
  cases result <;> rfl

theorem visitMethod_agree (agree : RulesAgree B E rules rules') {type type' : TypeName}
    (named : type = type') {rebuild rebuild' : List MethodDef → Module}
    {done done' pending pending' : List MethodDef} {method method' : MethodDef} {p q : Progress σ}
    (around : ∀ ms ns, List.Forall₂ (MethodDef.Agree B) ms ns →
      (rebuild ms).Agree B (rebuild' ns))
    (before : List.Forall₂ (MethodDef.Agree B) done done') (methods : method.Agree B method')
    (rest : List.Forall₂ (MethodDef.Agree B) pending pending') (same : p.Agree q) :
    Agree E (fun r s => r.2.1.Agree B s.2.1 ∧ r.2.2.Agree s.2.2)
      (completed (visitMethod rules type rebuild done method pending p))
      (completed (visitMethod rules' type' rebuild' done' method' pending' q)) := by
  subst named
  rcases held_of_rel methods.bodies with ⟨held, held'⟩ | ⟨b, c, held, held', related⟩
  · rw [visitMethod, visitMethod]
    simp only [held, held']
    exact .ok ⟨methods, same⟩
  · rw [completed_visitMethod held, completed_visitMethod held', ← agree.order b c related]
    -- The method under way has the same header in both modules, and no body.
    have site : Site.Agree B ⟨rebuild (done ++ method.bare :: pending), type, method.bare⟩
        ⟨rebuild' (done' ++ method'.bare :: pending'), type, method'.bare⟩ :=
      ⟨around _ _ (List.rel_append before (.cons ⟨methods.header, .none⟩ rest)), rfl,
        methods.header⟩
    refine (visitBody_agree agree site b.order ⟨b, p.state, p.log⟩ ⟨c, q.state, q.log⟩
      ⟨related, same.state⟩).map ?_
    rintro r s ⟨-, after⟩
    refine ⟨⟨methods.header, .some after.body⟩, after.state, ?_⟩
    simp only [Report.count, Body.size, same.report, agree.order _ _ related,
      agree.order _ _ after.body]

theorem completed_visitType {rebuild : List TypeDef → Module} {done pending : List TypeDef}
    {type : TypeDef} {p : Progress σ} :
    completed (visitType rules rebuild done type pending p) =
      (completed (walk (visitMethod rules type.name fun methods =>
        rebuild (done ++ { type with methods := methods } :: pending)) [] type.methods p)).map
          fun r => (r.1, { type with methods := r.2.1 }, r.2.2) := by
  rw [visitType]
  dsimp only
  generalize walk _ [] type.methods p = r
  rcases r with ⟨_ | _, methods, q⟩ <;> rfl

theorem visitType_agree (agree : RulesAgree B E rules rules')
    {rebuild rebuild' : List TypeDef → Module} {done done' pending pending' : List TypeDef}
    {type type' : TypeDef} {p q : Progress σ}
    (around : ∀ ts us, List.Forall₂ (TypeDef.Agree B) ts us → (rebuild ts).Agree B (rebuild' us))
    (before : List.Forall₂ (TypeDef.Agree B) done done') (types : type.Agree B type')
    (rest : List.Forall₂ (TypeDef.Agree B) pending pending') (same : p.Agree q) :
    Agree E (fun r s => r.2.1.Agree B s.2.1 ∧ r.2.2.Agree s.2.2)
      (completed (visitType rules rebuild done type pending p))
      (completed (visitType rules' rebuild' done' type' pending' q)) := by
  rw [completed_visitType, completed_visitType]
  refine (walk_agree (visitMethod_agree agree types.name_eq ?_) .nil types.methods same).map ?_
  · exact fun ms ns methods =>
      around _ _ (List.rel_append before (.cons ⟨types.header, methods⟩ rest))
  · rintro r s ⟨methods, after⟩
    exact ⟨⟨types.header, methods⟩, after⟩

/-- Passes with rules that agree, and with stack checks that agree, agree as a whole. -/
theorem run_agree (agree : RulesAgree B E rules rules') {m n : Module} (modules : m.Agree B n)
    (checks : ∀ m n : Module, m.Agree B n → Agree E Eq (m.checkStacks.mapError PassError.stack)
      (n.checkStacks.mapError PassError.stack)) (checked : Bool) (state : σ) :
    (run rules checked m state).Agree B E (run rules' checked n state) := by
  have visits : Agree E (fun r s => List.Forall₂ (TypeDef.Agree B) r.2.1 s.2.1 ∧ r.2.2.Agree s.2.2)
      (completed (visitAll rules m state)) (completed (visitAll rules' n state)) :=
    walk_agree (visitType_agree agree fun _ _ types => ⟨modules.name, types⟩) .nil modules.types
      ⟨rfl, rfl⟩
  obtain ⟨edited, after, result⟩ := run_eq rules checked m state
  obtain ⟨edited', after', result'⟩ := run_eq rules' checked n state
  rcases visits.elim with ⟨r, s, visited, visited', types, same⟩ | ⟨e, e', failed, failed', errors⟩
  · rw [eq_of_completed_ok visited] at edited after result
    rw [eq_of_completed_ok visited'] at edited' after' result'
    have modules :
        (run rules checked m state).edited.Agree B (run rules' checked n state).edited := by
      rw [edited, edited']
      exact ⟨modules.name, types⟩
    -- The stack checks of the two modules end the passes in the same way.
    have ends :
        Agree E Eq (run rules checked m state).result (run rules' checked n state).result := by
      rw [result, result', same.report]
      cases checked with
      | false => exact .ok rfl
      | true => exact (checks _ _ modules).bind fun _ _ _ => .ok rfl
    rcases ends.elim with ⟨report, _, ended, ended', rfl⟩ | ⟨e, e', ended, ended', errors⟩
    · exact Or.inl ⟨report, ended, ended', by rw [after, after', same.state], modules⟩
    · exact Or.inr ⟨e, e', ended, ended', errors⟩
  · rw [eq_of_completed_error failed] at result
    rw [eq_of_completed_error failed'] at result'
    exact Or.inr ⟨e, e', result, result', errors⟩

end traversal

end Pass

end NativeBridge
