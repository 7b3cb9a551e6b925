import Mathlib.Logic.Relation
import NativeBridge.Proofs.Editing

/-! A pass goes through the methods of a module one by one, in order, and hands the state of the
rules on from one to the next. Nothing but bodies changes, so what the rules look up in the module
is the same for every method. Where the rules fail, the method under way is left as it is then. -/

namespace NativeBridge

/-- A method without its body. -/
def MethodDef.bare (m : MethodDef) : MethodDef := { m with body := none }

/-- A type without the bodies of its methods. -/
def TypeDef.bare (t : TypeDef) : TypeDef := { t with methods := t.methods.map (·.bare) }

/-- A module without bodies. -/
def Module.bare (m : Module) : Module := { m with types := m.types.map (·.bare) }

theorem Module.map_snd_methods (m : Module) :
    m.methods.map (·.2) = m.types.flatMap (·.methods) := by
  simp [Module.methods, List.map_flatMap, Function.comp_def]

/-- The methods of some types in order, each with the name of its type. -/
def namedMethods (types : List TypeDef) : List (TypeName × MethodDef) :=
  types.flatMap fun t => t.methods.map (t.name, ·)

theorem namedMethods_cons (t : TypeDef) (types : List TypeDef) :
    namedMethods (t :: types) = t.methods.map (t.name, ·) ++ namedMethods types :=
  List.flatMap_cons

theorem map_snd_namedMethods (types : List TypeDef) :
    (namedMethods types).map (·.2) = types.flatMap (·.methods) := by
  simp [namedMethods, List.map_flatMap, Function.comp_def]

/-- A relation that hands a state on along two lists. -/
inductive Threads {σ α β : Type} (R : σ → α → β → σ → Prop) : σ → List α → List β → σ → Prop
  | nil (s : σ) : Threads R s [] [] s
  | cons {s t u : σ} {a : α} {b : β} {as : List α} {bs : List β} (head : R s a b t)
      (tail : Threads R t as bs u) : Threads R s (a :: as) (b :: bs) u

namespace Threads

variable {σ α β : Type} {R : σ → α → β → σ → Prop} {s t u : σ} {as cs : List α} {bs ds : List β}

theorem append (first : Threads R s as bs t) (second : Threads R t cs ds u) :
    Threads R s (as ++ cs) (bs ++ ds) u := by
  induction first with
  | nil => exact second
  | cons head _ ih => exact .cons head (ih second)

/-- A relation along appended lists, whose first parts are equally long. -/
theorem split (same : as.length = bs.length) (related : Threads R s (as ++ cs) (bs ++ ds) u) :
    ∃ t, Threads R s as bs t ∧ Threads R t cs ds u := by
  induction as generalizing s bs with
  | nil =>
    cases List.length_eq_zero_iff.mp same.symm
    exact ⟨s, .nil s, related⟩
  | cons a as ih =>
    obtain ⟨b, bs, rfl⟩ := List.exists_cons_of_length_eq_add_one same.symm
    cases related with
    | cons head tail =>
      obtain ⟨t, first, second⟩ := ih (Nat.succ.inj same) tail
      exact ⟨t, .cons head first, second⟩

theorem forall₂ {Q : α → β → Prop} (each : ∀ {before a b after}, R before a b after → Q a b)
    (related : Threads R s as bs t) : List.Forall₂ Q as bs := by
  induction related with
  | nil => exact .nil
  | cons head _ ih => exact .cons (each head) ih

theorem exists_of_mem_right (related : Threads R s as bs t) {b : β} (member : b ∈ bs) :
    ∃ a ∈ as, ∃ before after, R before a b after := by
  induction related with
  | nil => cases member
  | cons head _ ih =>
    rcases List.mem_cons.mp member with rfl | later
    · exact ⟨_, List.mem_cons_self, _, _, head⟩
    · obtain ⟨a, member, related⟩ := ih later
      exact ⟨a, List.mem_cons_of_mem _ member, related⟩

theorem getElem? (related : Threads R s as bs t) {n : Nat} {a : α} (there : as[n]? = some a) :
    ∃ b, bs[n]? = some b ∧ ∃ before after, R before a b after := by
  induction related generalizing n with
  | nil => cases there
  | cons head _ ih =>
    cases n with
    | zero =>
      cases there
      exact ⟨_, rfl, _, _, head⟩
    | succ n => exact ih there

/-- Searches that agree on what is related find what is related. -/
theorem find? (related : Threads R s as bs t) {p : α → Bool} {q : β → Bool}
    (agree : ∀ before a b after, R before a b after → q b = p a) {a : α}
    (found : as.find? p = some a) :
    ∃ b, bs.find? q = some b ∧ ∃ before after, R before a b after := by
  induction related with
  | nil => cases found
  | cons head _ ih =>
    rw [List.find?_cons] at found ⊢
    rw [agree _ _ _ _ head]
    split at found
    · cases found
      exact ⟨_, rfl, _, _, head⟩
    · exact ih found

end Threads

namespace Pass

variable {σ : Type}

/-- A walk keeps what each of its visits keeps. When it ends, items are still to come only if a
visit has failed. -/
theorem walk_keeps {α π : Type} {visit : List α → α → List α → π → Except PassError Unit × α × π}
    {done pending all : List α} {p q : π} {result : Except PassError Unit}
    (walked : walk visit done pending p = (result, all, q))
    (holds : List α → List α → π → Except PassError Unit → Prop)
    (begun : holds done pending p (.ok ()))
    (visits : ∀ {done item pending p result left q}, holds done (item :: pending) p (.ok ()) →
      visit done item pending p = (result, left, q) → holds (done ++ [left]) pending q result) :
    ∃ front rest, all = front ++ rest ∧ holds front rest q result ∧
      (result = .ok () → rest = []) := by
  -- On what is still to come. A visit that fails ends the walk before the rest is looked at.
  induction pending generalizing done p with
  | nil =>
    simp only [walk, Prod.mk.injEq] at walked
    obtain ⟨rfl, rfl, rfl⟩ := walked
    exact ⟨done, [], by simp, begun, fun _ => rfl⟩
  | cons item pending ih =>
    rcases visited : visit done item pending p with ⟨ended, left, r⟩
    have kept := visits begun visited
    simp only [walk, visited] at walked
    cases ended with
    | error e =>
      simp only [Prod.mk.injEq] at walked
      obtain ⟨rfl, rfl, rfl⟩ := walked
      exact ⟨done ++ [left], pending, by simp, kept, by simp⟩
    | ok value => exact ih walked kept

/-- A pass between two methods: the methods that it has left, those that are still to come, and the
state of the rules, the log and the report so far. -/
structure Stage (σ : Type) where
  done : List MethodDef
  pending : List (TypeName × MethodDef)
  progress : Progress σ

namespace Stage

/-- A pass that has not begun. -/
def first (m : Module) (state : σ) : Stage σ := ⟨[], namedMethods m.types, ⟨state, [], {}⟩⟩

/-- The rules visit the next method and end with a result. They are shown the module with the
methods behind the pass as they were left and the method under way without its body. -/
structure Visits (rules : List (Rule σ)) (m : Module) (s : Stage σ) (method : MethodDef)
    (later : List (TypeName × MethodDef)) (b : Body) (result : Except PassError Unit)
    (w : Workspace σ) : Prop where
  held : method.body = some b
  ran : ∃ site : Site, s.pending = (site.type, method) :: later ∧ site.method = method.bare ∧
    site.enclosing.bare = m.bare ∧
    site.enclosing.methods.map (·.2) = s.done ++ method.bare :: later.map (·.2) ∧
    (visitBody rules site b.order).outcome ⟨b, s.progress.state, s.progress.log⟩ = (result, w)

/-- A pass gets past a method, which has no body or which the rules visit without failing. -/
inductive Step (rules : List (Rule σ)) (m : Module) : Stage σ → Stage σ → Prop
  | skip {s : Stage σ} {type : TypeName} {method : MethodDef} {later : List (TypeName × MethodDef)}
      (next : s.pending = (type, method) :: later) (bodiless : method.body = none) :
      Step rules m s ⟨s.done ++ [method], later, s.progress⟩
  | visit {s : Stage σ} {method : MethodDef} {later : List (TypeName × MethodDef)} {b : Body}
      {w : Workspace σ} (visits : s.Visits rules m method later b (.ok ()) w) :
      Step rules m s ⟨s.done ++ [{ method with body := some w.body }], later,
        ⟨w.state, w.log, s.progress.report.count b w.body true⟩⟩

/-- The rules fail in the next method. Its body is put back as they left it. -/
def Fails (rules : List (Rule σ)) (m : Module) (s : Stage σ) (e : PassError)
    (methods : List MethodDef) (state : σ) (log : List LogEvent) : Prop :=
  ∃ method later b w, s.Visits rules m method later b (.error e) w ∧
    methods = s.done ++ { method with body := some w.body } :: later.map (·.2) ∧
    state = w.state ∧ log = w.log

/-- A pass goes on from a stage until it fails or only `rest` is to come, and leaves methods. -/
def Leads (rules : List (Rule σ)) (m : Module) (s : Stage σ) (rest : List (TypeName × MethodDef))
    (methods : List MethodDef) (q : Progress σ) : Except PassError Unit → Prop
  | .ok () => Relation.ReflTransGen (Step rules m) s ⟨methods, rest, q⟩
  | .error e => ∃ t, Relation.ReflTransGen (Step rules m) s t ∧
      t.Fails rules m e (methods ++ rest.map (·.2)) q.state q.log

variable {rules : List (Rule σ)} {m : Module} {s t : Stage σ}
  {rest back : List (TypeName × MethodDef)} {methods : List MethodDef} {q : Progress σ}
  {result : Except PassError Unit}

theorem Leads.of_steps (steps : Relation.ReflTransGen (Step rules m) s t)
    (leads : t.Leads rules m rest methods q result) : s.Leads rules m rest methods q result := by
  cases result with
  | ok => exact steps.trans leads
  | error e =>
    obtain ⟨u, more, fails⟩ := leads
    exact ⟨u, steps.trans more, fails⟩

/-- What a pass that failed did not come to is among the methods it leaves. -/
theorem Leads.settle (leads : s.Leads rules m (rest ++ back) methods q result)
    (ended : result = .ok () → rest = []) :
    s.Leads rules m back (methods ++ rest.map (·.2)) q result := by
  cases result with
  | ok =>
    rw [ended rfl] at leads ⊢
    simpa using leads
  | error e => simpa [Leads] using leads

end Stage

section traversal

variable {rules : List (Rule σ)} {m : Module} {p q : Progress σ} {result : Except PassError Unit}

/-- Visiting a method of a type, whose methods stand behind `front` and before `back`. -/
theorem visitMethod_leads {type : TypeName} {rebuild : List MethodDef → Module}
    {done pending : List MethodDef} {method left : MethodDef} (front : List MethodDef)
    (back : List (TypeName × MethodDef))
    (same : (rebuild (done ++ method.bare :: pending)).bare = m.bare)
    (around : ∀ others, (rebuild others).methods.map (·.2) = front ++ others ++ back.map (·.2))
    (visited : visitMethod rules type rebuild done method pending p = (result, left, q)) :
    left.bare = method.bare ∧
      Stage.Leads rules m ⟨front ++ done, (method :: pending).map (type, ·) ++ back, p⟩
        (pending.map (type, ·) ++ back) (front ++ (done ++ [left])) q result := by
  unfold visitMethod at visited
  rw [← List.append_assoc]
  cases held : method.body with
  | none =>
    simp only [held, Prod.mk.injEq] at visited
    obtain ⟨rfl, rfl, rfl⟩ := visited
    exact ⟨rfl, .single (.skip rfl held)⟩
  | some b =>
    rcases ran : (visitBody rules ⟨rebuild (done ++ { method with body := none } :: pending),
      type, { method with body := none }⟩ b.order).run.run ⟨b, p.state, p.log⟩ with ⟨ended, w⟩
    simp only [held, ran, Prod.mk.injEq] at visited
    obtain ⟨rfl, rfl, rfl⟩ := visited
    refine ⟨rfl, ?_⟩
    -- The site of the visit is the module around the methods as they stand now.
    have visits : Stage.Visits rules m
        ⟨front ++ done, (method :: pending).map (type, ·) ++ back, p⟩ method
        (pending.map (type, ·) ++ back) b ended w := by
      refine ⟨held, _, rfl, rfl, same, ?_, ran⟩
      rw [around]
      simp [MethodDef.bare, Function.comp_def]
    cases ended with
    | ok value => exact .single (.visit visits)
    | error e => exact ⟨_, .refl, method, _, b, w, visits, by simp, rfl, rfl⟩

theorem visitType_leads {rebuild : List TypeDef → Module} {done pending : List TypeDef}
    {type left : TypeDef}
    (same : ∀ others, others.map (·.bare) = (done ++ type :: pending).map (·.bare) →
      (rebuild others).bare = m.bare)
    (around : ∀ others, (rebuild others).types = others)
    (visited : visitType rules rebuild done type pending p = (result, left, q)) :
    left.bare = type.bare ∧
      Stage.Leads rules m ⟨done.flatMap (·.methods), namedMethods (type :: pending), p⟩
        (namedMethods pending) ((done ++ [left]).flatMap (·.methods)) q result := by
  rw [namedMethods_cons]
  rcases walked : walk (visitMethod rules type.name fun methods =>
    rebuild (done ++ { type with methods := methods } :: pending)) [] type.methods p
    with ⟨ended, methods, r⟩
  simp only [visitType, walked, Prod.mk.injEq] at visited
  obtain ⟨rfl, rfl, rfl⟩ := visited
  -- The headers stay, so the rules look up the same whichever methods of the type are done.
  obtain ⟨front, rest, rfl, ⟨headers, leads⟩, ended⟩ := walk_keeps walked
    (fun front rest r ended =>
      (front ++ rest).map (·.bare) = type.methods.map (·.bare) ∧
        Stage.Leads rules m ⟨done.flatMap (·.methods),
          type.methods.map (type.name, ·) ++ namedMethods pending, p⟩
          (rest.map (type.name, ·) ++ namedMethods pending) (done.flatMap (·.methods) ++ front) r
          ended)
    ⟨rfl, by simpa using .refl⟩
    (by
      rintro _ _ _ _ _ _ _ ⟨headers, leads⟩ visited
      obtain ⟨header, next⟩ := visitMethod_leads (m := m) (done.flatMap (·.methods))
        (namedMethods pending)
        (same _ (by simpa [TypeDef.bare, MethodDef.bare] using headers))
        (fun others => by
          rw [Module.map_snd_methods, around, map_snd_namedMethods]
          simp) visited
      exact ⟨by simpa [header] using headers, next.of_steps leads⟩)
  refine ⟨by simpa [TypeDef.bare] using headers, ?_⟩
  have settled := leads.settle fun succeeded => by rw [ended succeeded, List.map_nil]
  simpa [Function.comp_def] using settled

/-- The part of a pass before the stack check. -/
def visitAll (rules : List (Rule σ)) (m : Module) (state : σ) :
    Except PassError Unit × List TypeDef × Progress σ :=
  walk (visitType rules fun types => { m with types := types }) [] m.types ⟨state, [], {}⟩

/-- The visits of a pass, step by step. -/
theorem visitAll_leads (rules : List (Rule σ)) (m : Module) (state : σ) :
    (visitAll rules m state).2.1.map (·.bare) = m.types.map (·.bare) ∧
      (Stage.first m state).Leads rules m [] ((visitAll rules m state).2.1.flatMap (·.methods))
        (visitAll rules m state).2.2 (visitAll rules m state).1 := by
  rcases walked : visitAll rules m state with ⟨result, types, q⟩
  obtain ⟨front, rest, rfl, ⟨headers, leads⟩, ended⟩ := walk_keeps walked
    (fun front rest r ended =>
      (front ++ rest).map (·.bare) = m.types.map (·.bare) ∧
        (Stage.first m state).Leads rules m (namedMethods rest) (front.flatMap (·.methods)) r ended)
    ⟨rfl, .refl⟩
    (by
      rintro _ _ _ _ _ _ _ ⟨headers, leads⟩ visited
      obtain ⟨header, next⟩ := visitType_leads (m := m)
        (fun others equal => by simpa [Module.bare] using equal.trans headers)
        (fun others => rfl) visited
      exact ⟨by simpa [header] using headers, next.of_steps leads⟩)
  refine ⟨headers, ?_⟩
  -- Types that the walk did not come to are still in the module.
  rw [← List.append_nil (namedMethods rest)] at leads
  have settled := leads.settle fun succeeded => by rw [ended succeeded]; rfl
  rwa [map_snd_namedMethods, ← List.flatMap_append] at settled

/-- The stack check has no part in what a pass leaves, only in whether it succeeds. -/
theorem run_eq (rules : List (Rule σ)) (checked : Bool) (m : Module) (state : σ) :
    (run rules checked m state).edited = { m with types := (visitAll rules m state).2.1 } ∧
      (run rules checked m state).state = (visitAll rules m state).2.2.state ∧
      (run rules checked m state).result = (do
        (visitAll rules m state).1
        if checked then (run rules checked m state).edited.checkStacks.mapError .stack
        pure (visitAll rules m state).2.2.report) := by
  unfold run visitAll
  dsimp only
  split
  next e failed => exact ⟨rfl, rfl, failed.symm⟩
  next report succeeded => exact ⟨rfl, rfl, succeeded.symm⟩

/-- However a pass ends, the headers of its module are as they were, and its methods are those that
it leads to from the first stage. -/
theorem run_leads (rules : List (Rule σ)) (checked : Bool) (m : Module) (state : σ) :
    (run rules checked m state).edited.bare = m.bare ∧
      (Stage.first m state).Leads rules m []
        ((run rules checked m state).edited.methods.map (·.2)) (visitAll rules m state).2.2
        (visitAll rules m state).1 := by
  obtain ⟨headers, leads⟩ := visitAll_leads rules m state
  rw [Module.map_snd_methods, (run_eq rules checked m state).1]
  exact ⟨by simp only [Module.bare, headers], leads⟩

end traversal

/-! What the rules make of each method that a pass gets past. -/

/-- The rules turn a body of a method and their state into another body and state. -/
def Visited (rules : List (Rule σ)) (m : Module) (method : MethodDef) (state : σ) (b : Body)
    (edited : Body) (after : σ) : Prop :=
  ∃ site before log, site.enclosing.bare = m.bare ∧ site.method = method.bare ∧
    (visitBody rules site b.order).Yields ⟨b, state, before⟩ () ⟨edited, after, log⟩

/-- The rules turn a method into one that differs in its body only. -/
def MethodVisited (rules : List (Rule σ)) (m : Module) (state : σ) (method edited : MethodDef)
    (after : σ) : Prop :=
  (method.body = none ∧ edited = method ∧ after = state) ∨
    ∃ b c, method.body = some b ∧ edited = { method with body := some c } ∧
      Visited rules m method state b c after

section visited

variable {rules : List (Rule σ)} {m : Module} {state : σ}

/-- The methods behind a stage were visited one after the other. -/
theorem Stage.threads_of_steps {s : Stage σ}
    (steps : Relation.ReflTransGen (Step rules m) (first m state) s) :
    ∃ visited, namedMethods m.types = visited ++ s.pending ∧
      Threads (MethodVisited rules m) state (visited.map (·.2)) s.done s.progress.state := by
  induction steps with
  | refl => exact ⟨[], rfl, .nil _⟩
  | tail _ step ih =>
    obtain ⟨visited, all, threads⟩ := ih
    cases step with
    | @skip type method later next bodiless =>
      refine ⟨visited ++ [(type, method)], by simp [all, next], ?_⟩
      rw [List.map_append]
      exact threads.append (.cons (Or.inl ⟨bodiless, rfl, rfl⟩) (.nil _))
    | @visit method later b w visits =>
      obtain ⟨held, site, next, header, same, _, ran⟩ := visits
      refine ⟨visited ++ [(site.type, method)], by simp [all, next], ?_⟩
      rw [List.map_append]
      exact threads.append (.cons (Or.inr ⟨b, w.body, held, rfl, site, _, w.log, same, header, ran⟩)
        (.nil _))

/-- The methods of a pass that succeeds, in the order of the module. -/
theorem run_methods {checked : Bool} {report : Report}
    (succeeded : (run rules checked m state).result = .ok report) :
    (run rules checked m state).edited.bare = m.bare ∧
      Threads (MethodVisited rules m) state (m.methods.map (·.2))
        ((run rules checked m state).edited.methods.map (·.2))
        (run rules checked m state).state := by
  obtain ⟨headers, leads⟩ := run_leads rules checked m state
  obtain ⟨_, after, result⟩ := run_eq rules checked m state
  rw [succeeded, eq_comm, Success.bind_ok_iff] at result
  -- The pass can only have succeeded if the visit of all types did.
  obtain ⟨⟨⟩, visited, _⟩ := result
  rw [visited] at leads
  obtain ⟨all, covers, threads⟩ := Stage.threads_of_steps leads
  rw [List.append_nil] at covers
  rw [← covers, map_snd_namedMethods, ← Module.map_snd_methods, ← after] at threads
  exact ⟨headers, threads⟩

/-- Along types with the same headers, what is related method by method is related type by type. -/
theorem types_of_threads {R : σ → MethodDef → MethodDef → σ → Prop} {after : σ}
    {types edited : List TypeDef} (headers : edited.map (·.bare) = types.map (·.bare))
    (threads : Threads R state (types.flatMap (·.methods)) (edited.flatMap (·.methods)) after) :
    Threads (fun before t u after => u.bare = t.bare ∧ Threads R before t.methods u.methods after)
      state types edited after := by
  induction types generalizing edited state with
  | nil =>
    cases List.map_eq_nil_iff.mp headers
    cases threads
    exact .nil _
  | cons type types ih =>
    obtain ⟨first, others, rfl, header, rest⟩ := List.map_eq_cons_iff.mp headers
    have lengths : type.methods.length = first.methods.length := by
      simpa [TypeDef.bare] using congrArg (·.methods.length) header.symm
    obtain ⟨between, methods, threads⟩ := threads.split lengths
    exact .cons ⟨header, methods⟩ (ih rest threads)

/-- A method reference names the same method before and after a pass that succeeds. -/
theorem resolve?_of_run {checked : Bool} {report : Report}
    (succeeded : (run rules checked m state).result = .ok report)
    {callee : MethodRef} {method : MethodDef} (resolved : m.resolve? callee = some method) :
    ∃ edited, (run rules checked m state).edited.resolve? callee = some edited ∧
      ∃ before after, MethodVisited rules m before method edited after := by
  obtain ⟨headers, methods⟩ := run_methods succeeded
  rw [Module.map_snd_methods, Module.map_snd_methods] at methods
  have types := types_of_threads (congrArg (·.types) headers) methods
  simp only [Module.resolve?, Module.findType?, Option.bind_eq_bind, Option.bind_eq_some_iff]
    at resolved ⊢
  obtain ⟨type, found, chosen⟩ := resolved
  obtain ⟨other, there, _, _, _, visited⟩ := types.find?
    (q := fun t => t.name == callee.declaringType)
    (fun _ t u _ ⟨header, _⟩ => by
      have named : u.name = t.name := congrArg (·.name) header
      rw [named]) found
  obtain ⟨edited, picked, before, after, result⟩ := visited.find?
    (q := fun method => method.matchesRef callee)
    (fun _ _ _ _ visited => by
      rcases visited with ⟨_, rfl, _⟩ | ⟨_, _, _, rfl, _⟩ <;> rfl) chosen
  exact ⟨edited, ⟨_, there, picked⟩, before, after, result⟩

end visited

end Pass

end NativeBridge
