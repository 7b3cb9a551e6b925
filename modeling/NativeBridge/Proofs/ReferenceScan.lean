import NativeBridge.Pass.Standard
import NativeBridge.Proofs.Elision
import NativeBridge.Proofs.Loading

/-! The whole pass as one scan. The three rules together edit a body in place while they walk over
what it held at first and look back at what they have made of it. The result is that of a plain
left-to-right scan with an output stack, after which branches and handlers are led to what is
left. -/

namespace NativeBridge

/-- The entries of a table have the handles from 0 on, all of which can be loaded. -/
def CallbackTable.Dense (t : CallbackTable) : Prop :=
  t.entries.length ≤ Pass.greatestHandle + 1 ∧
    t.entries.map (·.handle) = List.range t.entries.length

theorem CallbackTable.Dense.add {t : CallbackTable} (dense : t.Dense) {signature : String}
    {method : MethodRef} (loadable : (t.add signature method).1 ≤ Pass.greatestHandle) :
    (t.add signature method).2.Dense := by
  obtain ⟨bound, handles⟩ := dense
  -- The count of a dense table is far from where 32 bits wrap around.
  have small : t.entries.length % Nat.pow 2 32 = t.entries.length := by
    apply Nat.mod_eq_of_lt
    exact Nat.lt_of_le_of_lt bound (by decide)
  simp only [CallbackTable.add, small] at loadable ⊢
  constructor
  · simpa using loadable
  · simp [handles, List.range_succ]

namespace Pass

variable {ρ : Type}

/-- The method of the delegate that two instructions prepare: a plain load and the load of the
method's address. -/
def delegateTarget? (address plain : Instruction) : Option MethodRef :=
  if address.opcode = .ldftn ∧ plain.opcode.isPlainLoad = true then address.method? else none

/-- Scans the construction of a delegate. When its type has a native signature and the output ends
with what prepares it, the method gets a handle, whose load takes the place of the plain load. -/
def foldDelegate (add : ρ → String → MethodRef → Nat × ρ) (m : Module) (ctor : MethodRef)
    (registry : ρ) (output : List (InstrId × Instruction)) (entry : InstrId × Instruction) :
    List (InstrId × Instruction) × ρ :=
  match (m.findType? ctor.declaringType).bind (·.nativeSignature), output with
  | some signature, (_, address) :: (receiver, plain) :: below =>
    match delegateTarget? address plain with
    | some target =>
      let added := add registry signature target
      ((receiver, ⟨.ldcI4, .int32 (Int32.ofNat added.1)⟩) :: below, added.2)
    | none => (entry :: output, registry)
  | _, _ => (entry :: output, registry)

/-- Notes the type that a call of the worker factory asks for, once. -/
def noteWorker (factory : WorkerFactory) (workers : List TypeName) (callee : MethodRef) :
    List TypeName :=
  match callee.genericArgs with
  | [worker] =>
    if factory.isLookup callee && !workers.contains worker then workers ++ [worker] else workers
  | _ => workers

/-- Scans one instruction onto an output, whose last instruction comes first, and into the
tables. -/
def scanStep (bindings : StaticBindings) (factory : WorkerFactory) (m : Module)
    (method : MethodDef) (b : Body) (s : List (InstrId × Instruction) × Tables)
    (entry : InstrId × Instruction) : List (InstrId × Instruction) × Tables :=
  match entry.2.opcode.category, entry.2.method? with
  | .newObject, some ctor =>
    let folded := foldDelegate CallbackTable.add m ctor s.2.callbacks s.1 entry
    (folded.1, { s.2 with callbacks := folded.2 })
  | .call, some callee =>
    (elide bindings m method b s.1 entry,
      { s.2 with workers := noteWorker factory s.2.workers callee })
  | _, _ => (elide bindings m method b s.1 entry, s.2)

/-- What can be seen of a body: the live code and the declarations. -/
structure Contents where
  code : List (InstrId × Instruction)
  locals : List Local
  handlers : List Handler
  hasReceiver : Bool
deriving DecidableEq, Repr

/-- What can be seen of a body. -/
def contents (b : Body) : Contents := ⟨b.code, b.locals, b.handlers, b.hasReceiver⟩

/-- What is seen of a body of which some instructions are kept. Branches, region starts and region
ends name the first kept instruction at or behind the one they named. -/
def keeping (b : Body) (kept : List (InstrId × Instruction)) : Contents where
  code := kept.map fun entry =>
    (entry.1, entry.2.mapTarget (landing b.order (kept.map (·.1))))
  locals := b.locals
  handlers := b.handlers.map (·.relocate b.order (kept.map (·.1)))
  hasReceiver := b.hasReceiver

/-- Scans a method. -/
def scanMethod (bindings : StaticBindings) (factory : WorkerFactory) (m : Module)
    (method : MethodDef) (tables : Tables) : Option Contents × Tables :=
  match method.body with
  | none => (none, tables)
  | some b =>
    let scanned := b.code.foldl (scanStep bindings factory m method b) ([], tables)
    (some (keeping b scanned.1.reverse), scanned.2)

/-- Scans methods one after the other. -/
def scanMethods (bindings : StaticBindings) (factory : WorkerFactory) (m : Module) :
    List MethodDef → Tables → List (Option Contents) × Tables
  | [], tables => ([], tables)
  | method :: rest, tables =>
    let first := scanMethod bindings factory m method tables
    let others := scanMethods bindings factory m rest first.2
    (first.1 :: others.1, others.2)

theorem contents_of_retains {b origin : Body}
    {kept : List (InstrId × Instruction)} (retained : b.Retains origin kept)
    (distinct : origin.order.Nodup) : contents b = keeping origin kept := by
  simp [contents, keeping, retained.code_eq distinct, retained.locals, retained.handlers,
    retained.receiver, retained.order]

section delegates

variable {add : ρ → String → MethodRef → Nat × ρ} {site : Site} {origin : Body} {id : InstrId}
  {i : Instruction} {output rest : List (InstrId × Instruction)} {w after : Workspace ρ}
  {R : Body → List (InstrId × Instruction) → Prop}

/-- The idiom is recognised by what is on top of the output. -/
theorem delegateIdiom?_of_lists
    (listed : w.body.Lists origin (output.reverse ++ (id, i) :: rest)) :
    delegateIdiom? w.body id = match output with
      | (address, load) :: (receiver, plain) :: _ =>
        (delegateTarget? load plain).map fun target => ⟨receiver, address, target⟩
      | _ => none := by
  unfold delegateIdiom? guard
  obtain ⟨_, before⟩ := precedingIn_of_lists listed
  rw [before]
  cases output with
  | nil => rfl
  | cons top output =>
    obtain ⟨address, load⟩ := top
    -- The load of the address is the instruction under way when one looks further back.
    have shifted : w.body.Lists origin (output.reverse ++ (address, load) :: (id, i) :: rest) := by
      simpa using listed
    obtain ⟨_, before⟩ := precedingIn_of_lists shifted
    cases output with
    | nil => simp [before]
    | cons plain below =>
      simp only [List.head?_cons, Option.map_some, Option.bind_eq_bind, Option.bind_some, before,
        Instruction.opcode_mapTarget, Instruction.method?_mapTarget, delegateTarget?]
      by_cases loads : load.opcode = .ldftn
      · by_cases simple : plain.2.opcode.isPlainLoad = true <;>
          cases load.method? <;> simp [loads, simple]
      · simp [loads]

theorem callbackHandles_tracks {ctor : MethodRef}
    (reacted : ((callbackHandles add).react site id (.newObject ctor)).Yields w () after)
    (tracks : Body.Tracks origin R) (tracked : R w.body (output.reverse ++ (id, i) :: rest)) :
    let folded := foldDelegate add site.enclosing ctor w.state output (id, i)
    after.state = folded.2 ∧ R after.body (folded.1.reverse ++ rest) ∧
      (after.state = w.state ∨ ∃ signature target,
        (add w.state signature target).1 ≤ greatestHandle ∧
          after.state = (add w.state signature target).2) := by
  simp only [callbackHandles, Edit.bind_yields_iff, Edit.body_yields_iff] at reacted
  obtain ⟨_, _, ⟨rfl, rfl⟩, reacted⟩ := reacted
  rw [if_pos (isLive_of_lists (tracks.lists tracked)),
    delegateIdiom?_of_lists (tracks.lists tracked)] at reacted
  unfold foldDelegate
  cases signed : (site.enclosing.findType? ctor.declaringType).bind (·.nativeSignature) with
  | none =>
    simp only [signed, Edit.pure_yields_iff, true_and] at reacted
    subst reacted
    exact ⟨rfl, by simpa using tracked, Or.inl rfl⟩
  | some signature =>
    rcases output with _ | ⟨⟨address, load⟩, _ | ⟨⟨receiver, plain⟩, below⟩⟩
    · simp only [signed, Edit.pure_yields_iff, true_and] at reacted
      subst reacted
      exact ⟨rfl, by simpa using tracked, Or.inl rfl⟩
    · simp only [signed, Edit.pure_yields_iff, true_and] at reacted
      subst reacted
      exact ⟨rfl, by simpa using tracked, Or.inl rfl⟩
    · cases prepared : delegateTarget? load plain with
      | none =>
        simp only [signed, prepared, Option.map_none, Edit.pure_yields_iff, true_and] at reacted ⊢
        subst reacted
        exact ⟨rfl, by simpa using tracked, Or.inl rfl⟩
      | some target =>
        simp only [signed, prepared, Option.map_some, Edit.bind_yields_iff, Edit.get_yields_iff,
          Edit.modify_yields_iff] at reacted ⊢
        obtain ⟨_, _, ⟨rfl, rfl⟩, _, _, rfl, reacted⟩ := reacted
        split at reacted
        next => simp at reacted
        next loadable =>
          simp only [Edit.bind_yields_iff, Edit.record_yields_iff,
            Edit.replace_yields_iff] at reacted
          obtain ⟨_, _, rfl, _, _, ⟨old, b, replaced, rfl⟩, ⟨⟩, between, cut, removed⟩ := reacted
          -- The plain load is replaced first, then the load of the address and the construction go.
          have prepares : R w.body
              (below.reverse ++ (receiver, plain) :: (address, load) :: (id, i) :: rest) := by
            simpa using tracked
          have handled := tracks.replace prepares rfl replaced
          rw [List.append_cons, ← List.reverse_cons] at handled
          obtain ⟨same, between⟩ := remove_tracks cut tracks handled
          obtain ⟨kept, edited⟩ := remove_tracks removed tracks between
          exact ⟨kept.trans same, edited, Or.inr ⟨signature, target, by omega, kept.trans same⟩⟩

end delegates

/-- The rule for worker types notes types and leaves bodies alone. -/
theorem workerTypes_yields {factory : WorkerFactory} {site : Site} {id : InstrId}
    {callee : MethodRef} {w after : Workspace (List TypeName)}
    (reacted : ((workerTypes factory).react site id (.call callee)).Yields w () after) :
    after.body = w.body ∧ after.state = noteWorker factory w.state callee := by
  unfold workerTypes at reacted
  unfold noteWorker
  cases lookup : factory.isLookup callee with
  | false =>
    simp only [lookup, Bool.false_eq_true, if_false, Edit.pure_yields_iff, true_and] at reacted
    subst reacted
    refine ⟨rfl, ?_⟩
    split <;> simp
  | true =>
    simp only [lookup, if_true] at reacted
    rcases single : callee.genericArgs with _ | ⟨worker, _ | ⟨_, _⟩⟩
    · simp [single] at reacted
    · simp only [single, Edit.bind_yields_iff, Edit.get_yields_iff] at reacted ⊢
      obtain ⟨_, _, ⟨rfl, rfl⟩, reacted⟩ := reacted
      cases known : w.state.contains worker with
      | true =>
        simp only [known, Bool.not_true, Bool.false_eq_true, if_false, Edit.pure_yields_iff,
          true_and] at reacted
        subst reacted
        simp
      | false =>
        simp only [known, Bool.not_false, if_true, Edit.bind_yields_iff, Edit.modify_yields_iff,
          Edit.record_yields_iff] at reacted
        obtain ⟨_, _, rfl, rfl⟩ := reacted
        simp
    · simp [single] at reacted

section standard

variable {bindings : StaticBindings} {factory : WorkerFactory} {site : Site} {origin : Body}
  {id : InstrId} {i : Instruction} {output rest : List (InstrId × Instruction)}
  {w after : Workspace Tables} {R : Body → List (InstrId × Instruction) → Prop}

/-- The rule for delegates looks at constructions only. -/
theorem callbackRule_idle {visit : Visit} (other : ∀ ctor, visit ≠ .newObject ctor)
    (reacted : (callbackRule.react site id visit).Yields w () after) : after = w := by
  have idle : (callbackHandles CallbackTable.add).react site id visit = pure () := by
    cases visit with
    | newObject ctor => exact absurd rfl (other ctor)
    | _ => rfl
  obtain ⟨inner, ran, rfl⟩ := (Rule.zoom_yields_iff ..).mp reacted
  rw [idle] at ran
  obtain ⟨_, rfl⟩ := (Edit.pure_yields_iff ..).mp ran
  rfl

/-- The rule for worker types looks at calls only. -/
theorem workerRule_idle {visit : Visit} (other : ∀ callee, visit ≠ .call callee)
    (reacted : ((workerRule factory).react site id visit).Yields w () after) : after = w := by
  have idle : (workerTypes factory).react site id visit = pure () := by
    cases visit with
    | call callee => exact absurd rfl (other callee)
    | _ => rfl
  obtain ⟨inner, ran, rfl⟩ := (Rule.zoom_yields_iff ..).mp reacted
  rw [idle] at ran
  obtain ⟨_, rfl⟩ := (Edit.pure_yields_iff ..).mp ran
  rfl

theorem opcode_of_newObject {op : Opcode} (kind : op.category = .newObject) : op = .newobj := by
  cases op <;> first | rfl | cases kind

theorem scanStep_of_category {m : Module} {method : MethodDef} {b : Body}
    {s : List (InstrId × Instruction) × Tables} (noCall : i.opcode.category ≠ .call)
    (noConstruction : i.opcode.category ≠ .newObject) :
    scanStep bindings factory m method b s (id, i) =
      (elide bindings m method b s.1 (id, i), s.2) := by
  unfold scanStep
  split
  next kind _ => exact absurd kind noConstruction
  next kind _ => exact absurd kind noCall
  next => rfl

/-- What the three rules do at an instruction is a step of the scan. -/
theorem standardRules_tracks
    (shown : (showTo (standardRules bindings factory) site id).Yields w () after)
    (tracks : Body.Tracks origin R) (tracked : R w.body (output.reverse ++ (id, i) :: rest)) :
    let scanned := scanStep bindings factory site.enclosing site.method origin (output, w.state)
      (id, i)
    R after.body (scanned.1.reverse ++ rest) ∧ after.state = scanned.2 ∧
      (w.state.callbacks.Dense → after.state.callbacks.Dense) := by
  obtain ⟨_, ⟨described, rfl⟩ | ⟨visit, described, reacted⟩⟩ :=
    showTo_lists (i := i) (tracks.lists tracked) (by simp) shown
  · have kind := described.1
    rw [scanStep_of_category (by aesop) (by aesop), elide_receiver _ described]
    exact ⟨by simpa using tracked, rfl, fun dense => dense⟩
  · simp only [standardRules, Edit.forM_cons_yields_iff, Edit.forM_nil_yields_iff,
      exists_eq_right] at reacted
    -- The last two rules are idle except at their own kinds of instructions.
    obtain ⟨u, interfaces, v, delegates, workers⟩ := reacted
    obtain ⟨same, elided⟩ := interfaceCalls_tracks interfaces described tracks tracked
    cases visit with
    | call callee =>
      obtain ⟨kind, named⟩ := described
      obtain rfl := callbackRule_idle (by simp) delegates
      obtain ⟨inner, ran, rfl⟩ := (Rule.zoom_yields_iff ..).mp workers
      obtain ⟨body, noted⟩ := workerTypes_yields ran
      simp only [scanStep, kind, named, body, noted, same]
      exact ⟨elided, trivial, fun dense => dense⟩
    | newObject ctor =>
      obtain ⟨kind, named⟩ := described
      obtain rfl := workerRule_idle (by simp) workers
      obtain ⟨_, rfl⟩ := (Edit.pure_yields_iff ..).mp interfaces
      obtain ⟨inner, ran, rfl⟩ := (Rule.zoom_yields_iff ..).mp delegates
      obtain ⟨state, folded, added⟩ := callbackHandles_tracks ran tracks tracked
      simp only [scanStep, kind, named]
      refine ⟨folded, by rw [state], fun dense => ?_⟩
      rcases added with same | ⟨signature, target, loadable, added⟩
      · rwa [same]
      · rw [added]
        exact dense.add loadable
    | _ =>
      obtain rfl := callbackRule_idle (by simp) delegates
      obtain rfl := workerRule_idle (by simp) workers
      have kind := described
      rw [scanStep_of_category (by simp_all [Describes]) (by simp_all [Describes])]
      exact ⟨elided, same, fun dense => same ▸ dense⟩

end standard

/-- A native signature is found without looking at bodies. -/
theorem nativeSignature_congr {m n : Module} (same : m.bare = n.bare) (type : TypeName) :
    (m.findType? type).bind (·.nativeSignature) = (n.findType? type).bind (·.nativeSignature) := by
  have hidden : ∀ k : Module, (k.bare.findType? type).bind (·.nativeSignature) =
      (k.findType? type).bind (·.nativeSignature) := by
    intro k
    rw [Module.findType?_bare]
    cases k.findType? type <;> rfl
  rw [← hidden m, same, hidden n]

/-- The scan looks at no bodies but its own. -/
theorem scanStep_congr {bindings : StaticBindings} {factory : WorkerFactory} {m n : Module}
    (same : m.bare = n.bare) (method : MethodDef) :
    scanStep bindings factory m method.bare = scanStep bindings factory n method := by
  funext b s entry
  simp only [scanStep, elide_congr same method, foldDelegate, nativeSignature_congr same]

section pass

variable {bindings : StaticBindings} {factory : WorkerFactory} {m : Module} {tables after : Tables}

/-- The three rules turn a body into what the scan gives, however its instructions are tracked, and
keep the callback table dense. Every instruction is shown to them while it is listed. -/
theorem scan_shows {R : Body → List (InstrId × Instruction) → Prop} {method : MethodDef}
    {b edited : Body} (formed : b.WellFormed) (tracks : Body.Tracks b R) (start : R b b.code)
    (visited : Visited (standardRules bindings factory) m method tables b edited after) :
    let scanned := b.code.foldl (scanStep bindings factory m method b) ([], tables)
    R edited scanned.1.reverse ∧ after = scanned.2 ∧
      (tables.callbacks.Dense → after.callbacks.Dense) ∧
      ∀ entry ∈ b.code, ∃ site kept, ∃ before between : Workspace Tables, entry ∈ kept ∧
        R before.body kept ∧
        (showTo (standardRules bindings factory) site entry.1).Yields before () between := by
  obtain ⟨site, before, log, found, header, visited⟩ := visited
  rw [← Body.map_fst_code formed] at visited
  have begun : R b (List.reverse [] ++ b.code) := by simpa using start
  obtain ⟨⟨tracked, dense⟩, state, shown⟩ := visitBody_tracks
    (R := fun w kept => R w.body kept ∧ (tables.callbacks.Dense → w.state.callbacks.Dense))
    (scanStep bindings factory m method b)
    (fun output id i rest w final ⟨tracked, dense⟩ shown => by
      rw [← scanStep_congr found method, ← header]
      obtain ⟨kept, state, still⟩ := standardRules_tracks shown tracks tracked
      exact ⟨⟨kept, fun fresh => still (dense fresh)⟩, state⟩) ⟨begun, fun fresh => fresh⟩ visited
  refine ⟨tracked, state, dense, fun entry member => ?_⟩
  obtain ⟨kept, w, between, held, ⟨tracked, _⟩, shown⟩ := shown entry member
  exact ⟨site, kept, w, between, held, tracked, shown⟩

/-- What the scan gives; every instruction has an operand of the right kind. -/
theorem scan_tracks {R : Body → List (InstrId × Instruction) → Prop} {method : MethodDef}
    {b edited : Body} (formed : b.WellFormed) (tracks : Body.Tracks b R) (start : R b b.code)
    (visited : Visited (standardRules bindings factory) m method tables b edited after) :
    let scanned := b.code.foldl (scanStep bindings factory m method b) ([], tables)
    R edited scanned.1.reverse ∧ after = scanned.2 ∧
      (tables.callbacks.Dense → after.callbacks.Dense) ∧
      ∀ entry ∈ b.code, entry.2.isMatched = true := by
  obtain ⟨tracked, state, dense, shows⟩ := scan_shows formed tracks start visited
  refine ⟨tracked, state, dense, fun entry member => ?_⟩
  obtain ⟨site, kept, w, between, held, listed, shown⟩ := shows entry member
  exact (showTo_lists (tracks.lists listed) held shown).1

theorem retains_scan {method : MethodDef} {b edited : Body} (sound : b.Sound)
    (visited : Visited (standardRules bindings factory) m method tables b edited after) :
    let scanned := b.code.foldl (scanStep bindings factory m method b) ([], tables)
    edited.Retains b scanned.1.reverse ∧ after = scanned.2 := by
  obtain ⟨retained, state, _⟩ := scan_tracks sound.toWellFormed
    (Body.retains_tracks sound.distinct) sound.retains_code visited
  exact ⟨retained, state⟩

/-- A method that was visited is what the scan makes of it, and still sound. -/
theorem scanMethod_of_visited {method edited : MethodDef}
    (sound : ∀ b ∈ method.body, b.Sound ∧ b.hasReceiver = !method.isStatic)
    (visited : MethodVisited (standardRules bindings factory) m tables method edited after) :
    (edited.body.map contents, after) = scanMethod bindings factory m method tables ∧
      ∀ b ∈ edited.body, b.Sound ∧ b.hasReceiver = !edited.isStatic := by
  rcases visited with ⟨bodiless, rfl, rfl⟩ | ⟨b, c, held, rfl, visited⟩
  · simp [scanMethod, bodiless]
  · obtain ⟨formed, receiver⟩ := sound b held
    obtain ⟨retained, rfl⟩ := retains_scan formed visited
    constructor
    · simp [scanMethod, held, contents_of_retains retained formed.distinct]
    · rintro d ⟨⟩
      exact ⟨retained.sound formed.distinct, retained.receiver.trans receiver⟩

theorem scanMethods_of_threads {methods edited : List MethodDef}
    (sound : ∀ method ∈ methods, ∀ b ∈ method.body, b.Sound ∧ b.hasReceiver = !method.isStatic)
    (visited : Threads (MethodVisited (standardRules bindings factory) m) tables methods edited
      after) :
    (edited.map fun method => method.body.map contents, after) =
        scanMethods bindings factory m methods tables ∧
      ∀ method ∈ edited, ∀ b ∈ method.body, b.Sound ∧ b.hasReceiver = !method.isStatic := by
  induction visited with
  | nil => simp [scanMethods]
  | cons head _ ih =>
    obtain ⟨here, formed⟩ := scanMethod_of_visited (sound _ List.mem_cons_self) head
    obtain ⟨there, rest⟩ := ih fun method member => sound method (List.mem_cons_of_mem _ member)
    refine ⟨?_, List.forall_mem_cons.mpr ⟨formed, rest⟩⟩
    simp only [scanMethods, List.map_cons, ← here, ← there]

end pass

theorem run_sample :
    (run (standardRules Sample.bindings Sample.factory) true Sample.program {}).result =
      .ok ⟨3, 29, 9⟩ := by
  decide +kernel

end Pass

end NativeBridge
