import NativeBridge.Proofs.Contraction
import NativeBridge.Proofs.Interruption

/-! Handles in code and entries in the callback table. The pass gives one handle for each delegate
that it takes out of the code, in the order in which a reader meets them: the k-th has the handle k,
a load of k stands where it was made, and the k-th entry says what it called. -/

namespace NativeBridge

/-- An instruction with what a body now holds for it. -/
def Body.currently (b : Body) (entry : InstrId × Instruction) : InstrId × Instruction :=
  (entry.1, (b.get? entry.1).getD default)

theorem Body.Lists.code_eq {b origin : Body} {kept : List (InstrId × Instruction)}
    (listed : b.Lists origin kept) : b.code = kept.map b.currently := by
  rw [Body.code_eq_map listed.wellFormed, listed.order, List.map_map]
  rfl

theorem CallbackTable.Dense.handle_eq {t : CallbackTable} (dense : t.Dense) {k : Nat}
    {entry : CallbackEntry} (there : t.entries[k]? = some entry) :
    entry.handle = k ∧ (Int32.ofNat k).toInt = k := by
  obtain ⟨bound, handles⟩ := dense
  have inside : k < t.entries.length := (List.getElem?_eq_some_iff.mp there).1
  constructor
  · have mapped : (t.entries.map (·.handle))[k]? = some entry.handle := by
      rw [List.getElem?_map, there]
      rfl
    rw [handles, List.getElem?_range inside] at mapped
    exact (Option.some.inj mapped).symm
  · apply Int32.toInt_ofNat_of_lt
    have most : Pass.greatestHandle + 1 = 2147483648 := by decide
    omega

namespace Pass

/-- The loads of constants in an edited body that the original one did not have. -/
def handleLoads (b c : Body) : List (InstrId × Instruction) :=
  c.code.filter fun entry => entry.2.opcode = .ldcI4 ∧ entry ∉ b.code

/-- In a body `b` stood the three instructions of a fold, with nothing between them that is left in
`c`. There the first one is live and loads the handle, and the other two are gone. -/
structure Fold.Stands (m : Module) (b c : Body) (f : Fold) : Prop extends f.Made m where
  placed : ∃ front gap gap' rear,
    b.code = front ++ f.plain :: (gap ++ f.address :: (gap' ++ f.construct :: rear)) ∧
      ∀ entry ∈ gap ++ f.address :: (gap' ++ [f.construct]), entry.1 ∉ c.order
  live : f.plain.1 ∈ c.order
  held : c.get? f.plain.1 = some f.load.2

/-- A fold in a body, given with what the body became. -/
structure HandleSite where
  bodies : Body × Body
  fold : Fold
deriving DecidableEq, Repr

/-- The body of a method with that of the edited method, if both have one. -/
def bodyPair (method edited : MethodDef) : List (Body × Body) :=
  match method.body, edited.body with
  | some b, some c => [(b, c)]
  | _, _ => []

/-- The bodies of methods, each with what it became. -/
def bodyPairs (methods edited : List MethodDef) : List (Body × Body) :=
  (methods.zip edited).flatMap fun pair => bodyPair pair.1 pair.2

/-- What is picked from each pair of bodies, one pair after another. -/
def gather (pick : Body → Body → List (InstrId × Instruction)) (pairs : List (Body × Body)) :
    List ((Body × Body) × (InstrId × Instruction)) :=
  pairs.flatMap fun pair => (pick pair.1 pair.2).map fun entry => (pair, entry)

section bodies

variable {m : Module} {b c : Body} {code output : List (InstrId × Instruction)} {folds : List Fold}
  {f : Fold}

theorem Fold.Made.plain_ne_call (made : f.Made m) : f.plain.2.opcode.category ≠ .call := by
  have simple := made.simple
  intro kind
  cases op : f.plain.2.opcode <;> simp_all [Opcode.isPlainLoad, Opcode.category]

/-- Where a fold was made there stood its instructions, of which the load of the handle is left. -/
theorem Contracted.stands (contracted : Contracted m b c code output folds) (member : f ∈ folds) :
    f.Stands m b c := by
  obtain ⟨made, _, construct, address, rear, front, rfl⟩ :=
    contracted.contracts.of_mem contracted.distinct member
  obtain ⟨live, held⟩ := contracted.get?_load member
  refine ⟨made, ?_, live, held⟩
  -- Each of the three was in the body as well, with nothing but accesses between them.
  obtain ⟨late, _, _, whole, lateSifts, alike, upToAddress⟩ := contracted.sifts.split rear
  obtain rfl := alike.eq_of_ne_call (by rw [made.constructs]; rintro ⟨⟩)
  obtain ⟨gap', _, _, rfl, _, alike, upToPlain⟩ := upToAddress.split []
  obtain rfl := alike.eq_of_ne_call (by rw [made.loads]; rintro ⟨⟩)
  obtain ⟨gap, _, early, rfl, _, alike, earlySifts⟩ := upToPlain.split []
  obtain rfl := alike.eq_of_ne_call made.plain_ne_call
  have forward : b.code = early.reverse ++ f.plain :: (gap.reverse ++
      f.address :: (gap'.reverse ++ f.construct :: late.reverse)) := by
    rw [← List.reverse_reverse b.code, whole]
    simp
  refine ⟨_, _, _, _, forward, fun entry between => ?_⟩
  -- Identities are distinct, so what is in the middle is neither before the plain load nor behind.
  generalize middle : gap.reverse ++ f.address :: (gap'.reverse ++ [f.construct]) = mid at between
  have grouped : b.code.map (·.1) = early.reverse.map (·.1) ++
      (f.plain.1 :: mid.map (·.1) ++ late.reverse.map (·.1)) := by
    rw [forward, ← middle]
    simp
  have distinct : (b.code.map (·.1)).Nodup := by
    rw [Body.map_fst_code contracted.formed]
    exact contracted.formed.distinct
  rw [grouped, List.nodup_append, List.cons_append, List.nodup_cons, List.nodup_append] at distinct
  obtain ⟨_, ⟨notPlain, _, _, notLate⟩, notEarly⟩ := distinct
  have inside : entry.1 ∈ mid.map (·.1) := List.mem_map_of_mem between
  -- What is live came from before the last two of them or from behind.
  intro live
  have left := (contracted.mem_order_iff _).mp live
  have kept := contracted.contracts.map_fst_sublist.subset left
  simp only [List.map_append, List.map_cons, List.mem_append, List.mem_cons] at kept
  rcases kept with behind | same | same | same | before
  · have inLate := lateSifts.map_fst_sublist.subset behind
    exact notLate _ inside _ (by simpa using inLate) rfl
  · exact construct (same ▸ left)
  · exact address (same ▸ left)
  · exact notPlain (List.mem_append_left _ (same ▸ inside))
  · have inEarly := earlySifts.map_fst_sublist.subset before
    exact notEarly _ (by simpa using inEarly) _
      (List.mem_cons_of_mem _ (List.mem_append_left _ inside)) rfl

/-- The loads of constants that are new are those of the folds, in the same order. -/
theorem Contracted.handleLoads_eq (contracted : Contracted m b c code output folds) :
    handleLoads b c = folds.reverse.map (·.load) := by
  have loads : ∀ f ∈ folds, c.currently f.load = f.load := by
    intro f member
    obtain ⟨_, held⟩ := contracted.get?_load member
    exact Prod.ext rfl (congrArg (·.getD default) held)
  rw [handleLoads, contracted.lists.code_eq, List.filter_map, List.filter_reverse,
    contracted.contracts.filter_loads, ← List.map_reverse, List.map_map]
  · exact List.map_congr_left fun f member => loads f (List.mem_reverse.mp member)
  · intro entry inCode inOutput
    obtain ⟨move, held⟩ := contracted.lists.held entry.1 entry.2 (List.mem_reverse.mpr inOutput)
    by_cases constant : entry.2.opcode = .ldcI4
    · -- A constant has no target, so it is still the instruction of the original body.
      have original : entry ∈ b.code := by
        simpa using contracted.sifts.mem_of_ne_call inCode (by rw [constant]; rintro ⟨⟩)
      have straight := Instruction.target?_of_isMatched (contracted.matched _ original)
        (by rw [constant]; rintro ⟨⟩)
      rw [Instruction.mapTarget_eq_self (by simp [straight])] at held
      simp [Body.currently, held, original]
    · simp [Body.currently, held, constant]
  · intro f member
    obtain ⟨made, _, _, _, rear, front, rfl⟩ :=
      contracted.contracts.of_mem contracted.distinct member
    have original : f.plain ∈ b.code := by
      have inCode : f.plain ∈ rear ++ f.construct :: f.address :: f.plain :: front := by simp
      simpa using contracted.sifts.mem_of_ne_call inCode made.plain_ne_call
    -- The load has the identity of the plain load, and the body has only one of the two.
    have fresh : f.load ∉ b.code := by
      intro same
      have first := ((b.mem_code_iff ..).mp original).2
      have second := ((b.mem_code_iff ..).mp same).2
      have equal : f.plain.2 = f.load.2 := Option.some.inj (first.symm.trans second)
      exact Opcode.ne_of_isPlainLoad made.simple rfl (congrArg (·.opcode) equal)
    have constant : f.load.2.opcode = .ldcI4 := rfl
    simp [loads f member, fresh, constant]

end bodies

/-- Sites account for pairs of bodies: in order, they are all constructions that are gone and all
loads that are new, and each stands in its bodies. -/
structure Accounts (m : Module) (pairs : List (Body × Body)) (sites : List HandleSite) : Prop where
  constructs : sites.map (fun s => (s.bodies, s.fold.construct)) =
    gather (fun b c => droppedConstructions b.code c.order) pairs
  loads : sites.map (fun s => (s.bodies, s.fold.load)) = gather handleLoads pairs
  stands : ∀ s ∈ sites, s.fold.Stands m s.bodies.1 s.bodies.2

section pass

variable {m : Module} {bindings : StaticBindings} {factory : WorkerFactory} {tables after : Tables}

theorem Accounts.append {pairs pairs' : List (Body × Body)} {sites sites' : List HandleSite}
    (first : Accounts m pairs sites) (second : Accounts m pairs' sites') :
    Accounts m (pairs ++ pairs') (sites ++ sites') where
  constructs := by
    rw [List.map_append, first.constructs, second.constructs]
    exact List.flatMap_append.symm
  loads := by
    rw [List.map_append, first.loads, second.loads]
    exact List.flatMap_append.symm
  stands := List.forall_mem_append.mpr ⟨first.stands, second.stands⟩

/-- The folds of one body account for it. -/
theorem Contracted.accounts {b c : Body} {code output : List (InstrId × Instruction)}
    {folds : List Fold} (contracted : Contracted m b c code output folds) :
    Accounts m [(b, c)] (folds.reverse.map fun f => ⟨(b, c), f⟩) where
  constructs := by
    simp [gather, contracted.droppedConstructions_eq]
  loads := by
    simp [gather, contracted.handleLoads_eq]
  stands := by
    intro s member
    obtain ⟨f, inFolds, rfl⟩ := List.mem_map.mp member
    exact contracted.stands (List.mem_reverse.mp inFolds)

theorem accounts_of_methodVisited {method edited : MethodDef}
    (formed : ∀ b ∈ method.body, b.WellFormed)
    (visited : MethodVisited (standardRules bindings factory) m tables method edited after) :
    ∃ sites, Accounts m (bodyPair method edited) sites ∧
      after.callbacks.entries = tables.callbacks.entries ++ sites.map (·.fold.entry) ∧
      (tables.callbacks.Dense → after.callbacks.Dense) := by
  rcases visited with ⟨bodiless, rfl, rfl⟩ | ⟨b, c, held, rfl, visited⟩
  · have none : bodyPair edited edited = [] := by rw [bodyPair, bodiless]
    rw [none]
    exact ⟨[], ⟨rfl, rfl, by simp⟩, by simp, fun dense => dense⟩
  · obtain ⟨output, folds, contracted, filled, dense⟩ :=
      contracted_of_visited (formed b held) visited
    have single : bodyPair method { method with body := some c } = [(b, c)] := by
      rw [bodyPair, held]
    rw [single]
    exact ⟨_, contracted.accounts, by simpa [Function.comp_def] using filled, dense⟩

theorem accounts_of_threads {methods edited : List MethodDef}
    (formed : ∀ method ∈ methods, ∀ b ∈ method.body, b.WellFormed)
    (visited : Threads (MethodVisited (standardRules bindings factory) m) tables methods edited
      after) :
    ∃ sites, Accounts m (bodyPairs methods edited) sites ∧
      after.callbacks.entries = tables.callbacks.entries ++ sites.map (·.fold.entry) ∧
      (tables.callbacks.Dense → after.callbacks.Dense) := by
  induction visited with
  | nil => exact ⟨[], ⟨rfl, rfl, by simp⟩, by simp, fun dense => dense⟩
  | @cons _ _ _ method _ _ _ head _ ih =>
    obtain ⟨here, accounts, filled, dense⟩ :=
      accounts_of_methodVisited (formed method List.mem_cons_self) head
    obtain ⟨there, others, filledThere, denseThere⟩ :=
      ih fun method member => formed method (List.mem_cons_of_mem _ member)
    refine ⟨here ++ there, ?_, ?_, fun start => denseThere (dense start)⟩
    · rw [bodyPairs, List.zip_cons_cons, List.flatMap_cons]
      exact accounts.append others
    · rw [filledThere, filled, List.map_append, List.append_assoc]

end pass

/-- Whenever the pass with the three rules succeeds from an empty callback table, handles in code
and entries correspond one to one. In the order of the module, the constructions that are gone, the
constants that are new and the entries of the table are those of the same sites; the k-th site and
the k-th entry have the handle k, and the load of k stands at the site. -/
theorem handles_match_entries (m : Module) (bindings : StaticBindings) (factory : WorkerFactory)
    (checked : Bool) (workers : List TypeName) (report : Report)
    (formed : ∀ entry ∈ m.methods, ∀ b ∈ entry.2.body, b.WellFormed)
    (succeeded : (run (standardRules bindings factory) checked m
      { workers := workers }).result = .ok report) :
    let outcome := run (standardRules bindings factory) checked m { workers := workers }
    outcome.edited.bare = m.bare ∧
      outcome.edited.methods.map (·.2.body.isSome) = m.methods.map (·.2.body.isSome) ∧
      ∃ sites, Accounts m
          (bodyPairs (m.methods.map (·.2)) (outcome.edited.methods.map (·.2))) sites ∧
        outcome.state.callbacks.entries = sites.map (·.fold.entry) ∧
        ∀ k s, sites[k]? = some s → s.fold.entry.handle = k ∧
          s.fold.load.2 = ⟨.ldcI4, .int32 (Int32.ofNat k)⟩ ∧ (Int32.ofNat k).toInt = k := by
  obtain ⟨headers, threads⟩ := run_methods succeeded
  obtain ⟨sites, accounts, filled, dense⟩ :=
    accounts_of_threads (List.forall_mem_map.mpr formed) threads
  have bodies := isSome_of_left (threads.forall₂ (·.left))
  refine ⟨headers, by simpa [Function.comp_def] using bodies, sites, accounts, filled,
    fun k s there => ?_⟩
  have listed : (run (standardRules bindings factory) checked m
      { workers := workers }).state.callbacks.entries[k]? = some s.fold.entry := by
    rw [filled, List.nil_append, List.getElem?_map, there]
    rfl
  obtain ⟨handle, loaded⟩ := (dense ⟨by simp, rfl⟩).handle_eq listed
  exact ⟨handle, by rw [Fold.load, handle], loaded⟩

/-- The pass finds both delegates of the sample program, which stand side by side. -/
theorem handles_match_entries_sample :
    let outcome := run (standardRules Sample.bindings Sample.factory) true Sample.program {}
    outcome.result = .ok ⟨3, 29, 9⟩ ∧ outcome.state.callbacks.entries.map (·.handle) = [0, 1] ∧
      outcome.edited.bare = Sample.program.bare ∧
      outcome.edited.methods.map (·.2.body.isSome) =
        Sample.program.methods.map (·.2.body.isSome) ∧
      ∃ sites, Accounts Sample.program
          (bodyPairs (Sample.program.methods.map (·.2)) (outcome.edited.methods.map (·.2)))
          sites ∧
        outcome.state.callbacks.entries = sites.map (·.fold.entry) ∧
        ∀ k s, sites[k]? = some s → s.fold.entry.handle = k ∧
          s.fold.load.2 = ⟨.ldcI4, .int32 (Int32.ofNat k)⟩ ∧ (Int32.ofNat k).toInt = k := by
  have formed := Module.wellFormed_of_load Sample.load_document
  exact ⟨run_sample, by decide +kernel,
    handles_match_entries _ _ _ _ _ _ formed run_sample⟩

end Pass

end NativeBridge
