import NativeBridge.Proofs.RuleOrder

/-! The worker types that a pass collects, read off the module before the pass. The other rules
change calls and take instructions out while the types are collected, but every call is shown as it
stood, once. -/

namespace NativeBridge

/-- The methods that the live calls of a body name, in order. -/
def calleesOf (code : List (InstrId × Instruction)) : List MethodRef :=
  code.filterMap fun entry => if entry.2.opcode.isCall then entry.2.method? else none

theorem calleesOf_cons (entry : InstrId × Instruction) (code : List (InstrId × Instruction)) :
    calleesOf (entry :: code) =
      (if entry.2.opcode.isCall then entry.2.method? else none).toList ++ calleesOf code := by
  simp only [calleesOf, List.filterMap_cons]
  cases if entry.2.opcode.isCall then entry.2.method? else none <;> rfl

/-- The calls of a body that look a worker up. Parameters, and generic arguments of the declaring
type, do not matter. -/
def Body.lookups (factory : WorkerFactory) (b : Body) : List MethodRef :=
  (calleesOf b.code).filter fun callee =>
    callee.name = factory.method ∧ callee.declaringType.space = factory.declaringType.space ∧
      callee.declaringType.name = factory.declaringType.name

/-- The lookups of workers in a method. -/
def MethodDef.lookups (factory : WorkerFactory) (method : MethodDef) : List MethodRef :=
  method.body.toList.flatMap (·.lookups factory)

/-- The lookups of workers in a module, in the order of its types, methods and instructions. -/
def Module.lookups (factory : WorkerFactory) (m : Module) : List MethodRef :=
  m.methods.flatMap fun entry => entry.2.lookups factory

theorem Opcode.isCall_iff (op : Opcode) : op.isCall = true ↔ op.category = .call := by
  cases op <;> decide

theorem WorkerFactory.isLookup_iff (factory : WorkerFactory) (callee : MethodRef) :
    factory.isLookup callee = true ↔ callee.name = factory.method ∧
      callee.declaringType.space = factory.declaringType.space ∧
        callee.declaringType.name = factory.declaringType.name := by
  simp only [isLookup, Bool.and_eq_true, beq_iff_eq, and_assoc]

theorem Body.mem_lookups_iff (factory : WorkerFactory) (b : Body) (callee : MethodRef) :
    callee ∈ b.lookups factory ↔ factory.isLookup callee = true ∧
      ∃ entry ∈ b.code, entry.2.opcode.category = .call ∧ entry.2.method? = some callee := by
  simp only [lookups, calleesOf, List.mem_filter, decide_eq_true_eq, List.mem_filterMap,
    factory.isLookup_iff, Option.ite_none_right_eq_some, Opcode.isCall_iff]
  exact and_comm

namespace Pass

/-- Adds a type to those found, unless it is there already. -/
def noteType (found : List TypeName) (type : TypeName) : List TypeName :=
  if found.contains type then found else found ++ [type]

theorem foldl_noteType (types : List TypeName) : types.foldl noteType [] = types.eraseDups := by
  have loop : ∀ found, types.foldl noteType found =
      List.eraseDupsBy.loop (· == ·) types found.reverse := by
    induction types with
    | nil => simp [List.eraseDupsBy.loop]
    | cons type types ih =>
      intro found
      -- The loop keeps what it has found with the last type first.
      have seen : found.reverse.any (type == ·) = found.contains type := by
        rw [List.any_reverse, List.contains_eq_any_beq]
      rw [List.foldl_cons, List.eraseDupsBy.loop, seen, noteType, ih]
      cases found.contains type with
      | true => rfl
      | false => simp
  exact loop []

section scan

variable {bindings : StaticBindings} {factory : WorkerFactory} {m : Module} {method : MethodDef}
  {b : Body}

/-- The scan notes workers at calls and nowhere else. -/
theorem workers_scan (entries : List (InstrId × Instruction))
    (s : List (InstrId × Instruction) × Tables) :
    (entries.foldl (scanStep bindings factory m method b) s).2.workers =
      (calleesOf entries).foldl (noteWorker factory) s.2.workers := by
  induction entries generalizing s with
  | nil => rfl
  | cons entry entries ih =>
    have step : (scanStep bindings factory m method b s entry).2.workers =
        ((if entry.2.opcode.isCall then entry.2.method? else none).toList).foldl
          (noteWorker factory) s.2.workers := by
      unfold scanStep
      cases kind : entry.2.opcode.category <;> cases named : entry.2.method? <;>
        simp [Opcode.isCall_iff, kind]
    rw [List.foldl_cons, ih, step, calleesOf_cons, List.foldl_append]

/-- Lookups with one generic argument are noted by that argument. -/
theorem foldl_noteWorker {callees : List MethodRef}
    (single : ∀ callee ∈ callees, factory.isLookup callee = true →
      ∃ worker, callee.genericArgs = [worker]) (found : List TypeName) :
    callees.foldl (noteWorker factory) found =
      ((callees.filter (factory.isLookup ·)).flatMap (·.genericArgs)).foldl noteType found := by
  induction callees generalizing found with
  | nil => rfl
  | cons callee callees ih =>
    obtain ⟨here, others⟩ := List.forall_mem_cons.mp single
    rw [List.foldl_cons, ih others, List.filter_cons]
    cases lookup : factory.isLookup callee with
    | false =>
      have same : noteWorker factory found callee = found := by
        unfold noteWorker
        split <;> simp [lookup]
      rw [same]
      rfl
    | true =>
      obtain ⟨worker, args⟩ := here lookup
      have noted : noteWorker factory found callee = noteType found worker := by
        simp only [noteWorker, args, lookup, Bool.true_and, noteType]
        cases found.contains worker <;> rfl
      simp [noted, args]

end scan

/-- The rule for worker types refuses a lookup without exactly one generic argument. -/
theorem single_of_workerTypes {factory : WorkerFactory} {site : Site} {id : InstrId}
    {callee : MethodRef} {w after : Workspace (List TypeName)}
    (reacted : ((workerTypes factory).react site id (.call callee)).Yields w () after)
    (lookup : factory.isLookup callee = true) : ∃ worker, callee.genericArgs = [worker] := by
  simp only [workerTypes, lookup, if_true] at reacted
  rcases args : callee.genericArgs with _ | ⟨worker, _ | ⟨_, _⟩⟩
  · simp [args] at reacted
  · exact ⟨worker, rfl⟩
  · simp [args] at reacted

section pass

variable {bindings : StaticBindings} {factory : WorkerFactory} {m : Module} {tables after : Tables}

/-- Every lookup of a body that was visited has exactly one generic argument. -/
theorem single_of_visited {method : MethodDef} {b edited : Body} (formed : b.WellFormed)
    (visited : Visited (standardRules bindings factory) m method tables b edited after)
    {callee : MethodRef} (member : callee ∈ b.lookups factory) :
    ∃ worker, callee.genericArgs = [worker] := by
  obtain ⟨lookup, ⟨id, i⟩, there, kind, named⟩ := (b.mem_lookups_iff factory callee).mp member
  obtain ⟨_, _, _, shows⟩ := scan_shows formed (Body.lists_tracks b) formed.lists_code visited
  obtain ⟨site, kept, w, between, held, listed, shown⟩ := shows _ there
  -- The call is shown as it stood when the visit began.
  obtain ⟨_, ⟨described, _⟩ | ⟨visit, described, reacted⟩⟩ := showTo_lists listed held shown
  · rcases described.1 with other | other <;> rw [kind] at other <;> cases other
  cases visit with
  | call shownCallee =>
    obtain rfl : shownCallee = callee := Option.some.inj (described.2.symm.trans named)
    simp only [standardRules, Edit.forM_cons_yields_iff, Edit.forM_nil_yields_iff,
      exists_eq_right] at reacted
    obtain ⟨_, _, _, _, workers⟩ := reacted
    obtain ⟨inner, ran, _⟩ := (Rule.zoom_yields_iff ..).mp workers
    exact single_of_workerTypes ran lookup
  | _ => simp [Describes, kind] at described

theorem workers_of_visited {method : MethodDef} {b edited : Body} (formed : b.WellFormed)
    (visited : Visited (standardRules bindings factory) m method tables b edited after) :
    after.workers =
      ((b.lookups factory).flatMap (·.genericArgs)).foldl noteType tables.workers := by
  obtain ⟨_, rfl, _⟩ := scan_shows formed (Body.lists_tracks b) formed.lists_code visited
  have lookups : (calleesOf b.code).filter (factory.isLookup ·) = b.lookups factory := by
    apply List.filter_congr
    intro callee _
    rw [Bool.eq_iff_iff, decide_eq_true_eq, factory.isLookup_iff]
  rw [workers_scan, foldl_noteWorker, lookups]
  intro callee member lookup
  apply single_of_visited formed visited
  rw [← lookups]
  exact List.mem_filter.mpr ⟨member, lookup⟩

/-- The state is handed on from method to method, and each adds what it looks up. -/
theorem workers_of_threads {methods edited : List MethodDef}
    (formed : ∀ method ∈ methods, ∀ b ∈ method.body, b.WellFormed)
    (visited : Threads (MethodVisited (standardRules bindings factory) m) tables methods edited
      after) :
    after.workers = ((methods.flatMap (·.lookups factory)).flatMap (·.genericArgs)).foldl noteType
        tables.workers ∧
      ∀ callee ∈ methods.flatMap (·.lookups factory), ∃ worker, callee.genericArgs = [worker] := by
  induction visited with
  | nil => exact ⟨rfl, by simp⟩
  | @cons s t u method edited methods _ head _ ih =>
    obtain ⟨here, others⟩ := List.forall_mem_cons.mp formed
    obtain ⟨workers, single⟩ := ih others
    rw [List.flatMap_cons, List.flatMap_append, List.foldl_append, workers]
    rcases head with ⟨bodiless, _, rfl⟩ | ⟨b, c, held, _, visited⟩
    · have none : method.lookups factory = [] := by simp [MethodDef.lookups, bodiless]
      rw [none]
      exact ⟨rfl, single⟩
    · have own : method.lookups factory = b.lookups factory := by
        simp [MethodDef.lookups, held]
      rw [own, workers_of_visited (here b held) visited]
      refine ⟨rfl, fun callee member => ?_⟩
      rcases List.mem_append.mp member with first | later
      · exact single_of_visited (here b held) visited first
      · exact single callee later

end pass

/-- The worker types that a pass collects depend on the module alone. Whatever the order of the
rules, a pass that succeeds has collected the generic arguments of the lookups, each type once, in
the order in which they first occur; and it fails if a lookup has not exactly one generic
argument. -/
theorem workers_eq_lookups (m : Module) (bindings : StaticBindings) (factory : WorkerFactory)
    {rules : List (Rule Tables)} (order : rules.Perm (standardRules bindings factory))
    (formed : ∀ entry ∈ m.methods, ∀ b ∈ entry.2.body, b.WellFormed) (checked : Bool)
    (callbacks : CallbackTable) :
    (∀ report, (run rules checked m { callbacks := callbacks }).result = .ok report →
        (run rules checked m { callbacks := callbacks }).state.workers =
          ((m.lookups factory).flatMap (·.genericArgs)).eraseDups) ∧
      ((∃ callee ∈ m.lookups factory, callee.genericArgs.length ≠ 1) →
        ∃ e, (run rules checked m { callbacks := callbacks }).result = .error e) := by
  have all : (m.methods.map (·.2)).flatMap (·.lookups factory) = m.lookups factory :=
    List.flatMap_map ..
  rcases run_perm order order checked m { callbacks := callbacks } with
    ⟨report, ended, ended', states, _⟩ | ⟨e, _, failed, _, _⟩
  · obtain ⟨_, threads⟩ := run_methods ended'
    obtain ⟨workers, single⟩ := workers_of_threads (List.forall_mem_map.mpr formed) threads
    rw [all] at workers single
    constructor
    · intro _ _
      rw [states, workers, foldl_noteType]
    · rintro ⟨callee, member, several⟩
      obtain ⟨worker, args⟩ := single callee member
      exact absurd (by rw [args]; rfl) several
  · constructor
    · intro report ended
      rw [failed] at ended
      cases ended
    · exact fun _ => ⟨e, failed⟩

/-- Of three lookups in the sample program two are of the same worker. -/
theorem workers_eq_lookups_sample :
    (standardRules Sample.bindings Sample.factory).reverse.Perm
        (standardRules Sample.bindings Sample.factory) ∧
      (∀ entry ∈ Sample.program.methods, ∀ b ∈ entry.2.body, b.WellFormed) ∧
      (run (standardRules Sample.bindings Sample.factory).reverse true Sample.program
        {}).state.workers = [.simple "" "Job", .simple "" "Task"] := by
  have order := List.reverse_perm (standardRules Sample.bindings Sample.factory)
  have formed := Module.wellFormed_of_load Sample.load_document
  have succeeded : (run (standardRules Sample.bindings Sample.factory).reverse true Sample.program
      {}).result = .ok ⟨3, 29, 9⟩ := by decide +kernel
  refine ⟨order, formed, ?_⟩
  rw [(workers_eq_lookups Sample.program Sample.bindings Sample.factory order formed true {}).1 _
    succeeded]
  decide +kernel

end Pass

end NativeBridge
