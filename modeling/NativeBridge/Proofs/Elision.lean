import NativeBridge.Pass.InterfaceCalls
import NativeBridge.Proofs.Visits

/-! What the rule for interfaces makes of a body. It edits the body in place while it walks through
it; what comes out is what a plain scan with an output stack gives. -/

namespace NativeBridge

section lookups

variable (m : Module) (type : TypeName) (method : MethodRef)

theorem Module.findType?_bare : m.bare.findType? type = (m.findType? type).map (·.bare) := by
  simp only [Module.findType?, Module.bare, List.find?_map]
  rfl

/-- The choice of an adapter's method does not look at bodies. -/
theorem Pass.adapterMethod?_bare (adapter : TypeDef) :
    adapterMethod? adapter.bare method = (adapterMethod? adapter method).map (·.bare) := by
  have byRef : (adapter.bare.methods.find? fun m => m.isStatic && m.matchesRef method) =
      (adapter.methods.find? fun m => m.isStatic && m.matchesRef method).map (·.bare) := by
    simp only [TypeDef.bare, List.find?_map]
    rfl
  have byName : adapter.bare.staticMethod? method.name =
      (adapter.staticMethod? method.name).map (·.bare) := by
    simp only [TypeDef.staticMethod?, TypeDef.bare, List.find?_map]
    rfl
  simp only [adapterMethod?, byRef, byName, Option.map_or]

theorem Pass.adapterTarget_bare :
    adapterTarget m.bare type method = adapterTarget m type method := by
  unfold adapterTarget
  rw [Module.findType?_bare]
  cases m.findType? type with
  | none => rfl
  | some adapter =>
    simp only [Option.map_some, adapterMethod?_bare]
    cases adapterMethod? adapter method <;> rfl

end lookups

namespace Pass

variable {σ : Type}

/-- The declared type of the slot that an instruction loads or stores; the receiver has none. -/
def slotType? (method : MethodDef) (b : Body) (i : Instruction) : Option TypeName :=
  match i.opcode.category with
  | .loadArgument | .storeArgument =>
    (i.slot?.bind (parameter? method b.hasReceiver)).map (·.type)
  | .loadLocal | .storeLocal => (i.slot?.bind b.local?).map (·.type)
  | _ => none

/-- The method of an adapter that a call reaches instead of the one it names. -/
def redirection? (bindings : StaticBindings) (m : Module) (i : Instruction) : Option MethodRef := do
  let callee ← i.method?
  let adapter ← bindings.adapter? callee.declaringType
  (adapterTarget m adapter callee).toOption

/-- A call, or the call of an adapter in its place. -/
def redirect (bindings : StaticBindings) (m : Module) (i : Instruction) : Instruction :=
  match redirection? bindings m i with
  | some target => ⟨.call, .method target⟩
  | none => i

/-- Takes a receiver load off the top of an output. -/
def dropReceiver (b : Body) : List (InstrId × Instruction) → List (InstrId × Instruction)
  | [] => []
  | top :: output => if isReceiverLoad b top.2 then output else top :: output

/-- Scans one instruction onto an output, whose last instruction comes first. A load or store of a
designated value leaves nothing there; that of a field of an object also takes the load of the
receiver with it. A call on an interface with an adapter becomes one of the adapter. -/
def elide (bindings : StaticBindings) (m : Module) (method : MethodDef) (b : Body)
    (output : List (InstrId × Instruction)) (entry : InstrId × Instruction) :
    List (InstrId × Instruction) :=
  match entry.2.opcode.category with
  | .loadArgument | .storeArgument | .loadLocal | .storeLocal =>
    if (slotType? method b entry.2).any bindings.isDesignated then output else entry :: output
  | .loadField | .storeField =>
    match entry.2.field? with
    | none => entry :: output
    | some field =>
      if bindings.isDesignated field.type then
        if field.isStatic then output else dropReceiver b output
      else entry :: output
  | .call => (entry.1, redirect bindings m entry.2) :: output
  | .newObject | .other => entry :: output

section steps

variable {bindings : StaticBindings} {site : Site} {origin : Body} {id : InstrId} {i : Instruction}
  {output rest : List (InstrId × Instruction)} {w after : Workspace σ}
  {R : Body → List (InstrId × Instruction) → Prop}

/-- The instruction under way is live. -/
theorem isLive_of_lists (listed : w.body.Lists origin (output.reverse ++ (id, i) :: rest)) :
    w.body.isLive id = true := by
  simp [Body.isLive, listed.order]

theorem remove_tracks (removed : (Edit.remove site id : Edit σ Unit).Yields w () after)
    (tracks : Body.Tracks origin R) (tracked : R w.body (output.reverse ++ (id, i) :: rest)) :
    after.state = w.state ∧ R after.body (output.reverse ++ rest) := by
  obtain ⟨old, b, edited, rfl⟩ := (Edit.remove_yields_iff ()).mp removed
  exact ⟨rfl, tracks.remove tracked edited⟩

theorem elideValue_tracks {type : TypeName}
    (elided : (elideValue bindings site id type : Edit σ Unit).Yields w () after)
    (tracks : Body.Tracks origin R) (tracked : R w.body (output.reverse ++ (id, i) :: rest)) :
    after.state = w.state ∧ R after.body
      ((if bindings.isDesignated type then output else (id, i) :: output).reverse ++ rest) := by
  simp only [elideValue, Edit.bind_yields_iff, Edit.body_yields_iff] at elided
  obtain ⟨_, _, ⟨rfl, rfl⟩, elided⟩ := elided
  rw [isLive_of_lists (tracks.lists tracked), Bool.and_true] at elided
  split
  next designated =>
    simp only [designated, if_true, Edit.bind_yields_iff, Edit.record_yields_iff] at elided
    obtain ⟨_, between, rfl, elided⟩ := elided
    have removed := remove_tracks elided tracks tracked
    exact removed
  next kept =>
    rw [if_neg kept, Edit.pure_yields_iff] at elided
    obtain ⟨_, rfl⟩ := elided
    exact ⟨rfl, by simpa using tracked⟩

/-- The instruction before the one under way is on top of the output. -/
theorem precedingIn_of_lists
    (listed : w.body.Lists origin (output.reverse ++ (id, i) :: rest)) :
    ∃ move, precedingIn w.body id = output.head?.map fun top => (top.1, top.2.mapTarget move) := by
  have there : w.body.position? id = some output.length := by
    rw [Body.position?_eq_some_iff listed.wellFormed, listed.order]
    simp
  unfold precedingIn Body.previous?
  rw [there]
  cases output with
  | nil => exact ⟨fun t => t, rfl⟩
  | cons top output =>
    have before : w.body.order[output.length]? = some top.1 := by
      rw [listed.order]
      simp
    obtain ⟨move, held⟩ := listed.held top.1 top.2 (by simp)
    exact ⟨move, by simp [before, held]⟩

theorem elideObject_tracks {field : FieldRef}
    (elided : (elideObject site id field : Edit σ Unit).Yields w () after)
    (tracks : Body.Tracks origin R) (tracked : R w.body (output.reverse ++ (id, i) :: rest)) :
    after.state = w.state ∧
      R after.body ((dropReceiver origin output).reverse ++ (id, i) :: rest) := by
  simp only [elideObject, Edit.bind_yields_iff, Edit.body_yields_iff] at elided
  obtain ⟨_, _, ⟨rfl, rfl⟩, elided⟩ := elided
  obtain ⟨move, before⟩ := precedingIn_of_lists (tracks.lists tracked)
  rw [before] at elided
  cases output with
  | nil =>
    simp only [List.head?_nil, Option.map_none, Option.filter_none,
      Edit.record_yields_iff] at elided
    subst elided
    exact ⟨rfl, tracked⟩
  | cons top output =>
    have same : isReceiverLoad w.body (top.2.mapTarget move) = isReceiverLoad origin top.2 := by
      simp [isReceiverLoad, (tracks.lists tracked).receiver]
    cases loads : isReceiverLoad origin top.2 with
    | true =>
      simp only [List.head?_cons, Option.map_some, Option.filter_some, same, loads,
        if_true] at elided
      rw [dropReceiver, if_pos loads]
      exact remove_tracks (i := top.2) elided tracks (by simpa using tracked)
    | false =>
      simp only [List.head?_cons, Option.map_some, Option.filter_some, same, loads,
        Bool.false_eq_true, if_false, Edit.record_yields_iff] at elided
      rw [dropReceiver, if_neg (by simp [loads])]
      subst elided
      exact ⟨rfl, tracked⟩

theorem elideField_tracks {field : FieldRef}
    (elided : (elideField bindings site id field : Edit σ Unit).Yields w () after)
    (tracks : Body.Tracks origin R) (tracked : R w.body (output.reverse ++ (id, i) :: rest)) :
    after.state = w.state ∧ R after.body
      ((if bindings.isDesignated field.type then
          if field.isStatic then output else dropReceiver origin output
        else (id, i) :: output).reverse ++ rest) := by
  simp only [elideField, Edit.bind_yields_iff, Edit.body_yields_iff] at elided
  obtain ⟨_, _, ⟨rfl, rfl⟩, elided⟩ := elided
  rw [isLive_of_lists (tracks.lists tracked), Bool.and_true] at elided
  by_cases designated : bindings.isDesignated field.type = true
  · rw [if_pos designated] at elided ⊢
    cases static : field.isStatic with
    | true =>
      simp only [static, Bool.not_true, Bool.false_eq_true, if_false, if_true,
        Edit.bind_yields_iff, Edit.record_yields_iff] at elided ⊢
      obtain ⟨_, _, rfl, elided⟩ := elided
      have removed := remove_tracks elided tracks tracked
      exact removed
    | false =>
      simp only [static, Bool.not_false, if_true, Bool.false_eq_true, if_false,
        Edit.bind_yields_iff, Edit.record_yields_iff] at elided ⊢
      -- The load of the object goes first, so the access itself is removed from what is left.
      obtain ⟨⟨⟩, between, objectElided, _, _, rfl, elided⟩ := elided
      obtain ⟨same, between⟩ := elideObject_tracks objectElided tracks tracked
      rw [← same]
      have removed := remove_tracks elided tracks between
      exact removed
  · rw [if_neg designated, Edit.pure_yields_iff] at elided
    obtain ⟨_, rfl⟩ := elided
    rw [if_neg designated]
    exact ⟨rfl, by simpa using tracked⟩

theorem retargetCall_tracks {callee : MethodRef}
    (called : i.method? = some callee)
    (retargeted : (retargetCall bindings site id callee : Edit σ Unit).Yields w () after)
    (tracks : Body.Tracks origin R) (tracked : R w.body (output.reverse ++ (id, i) :: rest)) :
    after.state = w.state ∧ R after.body
      (((id, redirect bindings site.enclosing i) :: output).reverse ++ rest) := by
  unfold retargetCall at retargeted
  unfold redirect redirection?
  cases bound : bindings.adapter? callee.declaringType with
  | none =>
    simp only [bound, Edit.pure_yields_iff] at retargeted
    obtain ⟨_, rfl⟩ := retargeted
    exact ⟨rfl, by simpa [called, bound] using tracked⟩
  | some adapter =>
    simp only [bound, Edit.bind_yields_iff, Edit.body_yields_iff] at retargeted
    obtain ⟨_, _, ⟨rfl, rfl⟩, retargeted⟩ := retargeted
    rw [if_pos (isLive_of_lists (tracks.lists tracked))] at retargeted
    cases chosen : adapterTarget site.enclosing adapter callee with
    | error e => simp [chosen] at retargeted
    | ok target =>
      simp only [chosen, Edit.bind_yields_iff, Edit.record_yields_iff,
        Edit.replace_yields_iff] at retargeted
      obtain ⟨_, _, rfl, old, b, replaced, rfl⟩ := retargeted
      have edited := tracks.replace tracked rfl replaced
      exact ⟨rfl, by simpa [called, bound, chosen, Except.toOption] using edited⟩

theorem adapterTarget_of_retargetCall {callee : MethodRef} {adapter : TypeName}
    (bound : bindings.adapter? callee.declaringType = some adapter)
    (live : w.body.isLive id = true)
    (retargeted : (retargetCall bindings site id callee : Edit σ Unit).Yields w () after) :
    ∃ target, adapterTarget site.enclosing adapter callee = .ok target := by
  simp only [retargetCall, bound, Edit.bind_yields_iff, Edit.body_yields_iff] at retargeted
  obtain ⟨_, _, ⟨rfl, rfl⟩, retargeted⟩ := retargeted
  rw [if_pos live] at retargeted
  cases chosen : adapterTarget site.enclosing adapter callee with
  | error e => simp [chosen] at retargeted
  | ok target => exact ⟨target, rfl⟩

/-- What the rule does at an instruction is a step of the scan. -/
theorem interfaceCalls_tracks {visit : Visit}
    (reacted : ((interfaceCalls bindings : Rule σ).react site id visit).Yields w () after)
    (described : Describes site.method origin i (some visit)) (tracks : Body.Tracks origin R)
    (tracked : R w.body (output.reverse ++ (id, i) :: rest)) :
    after.state = w.state ∧ R after.body
      ((elide bindings site.enclosing site.method origin output (id, i)).reverse ++ rest) := by
  unfold elide
  cases visit with
  | loadArgument slot param | storeArgument slot param | loadLocal slot param
      | storeLocal slot param =>
    obtain ⟨kind, slot, declared⟩ := described
    simpa [kind, slotType?, slot, declared] using elideValue_tracks reacted tracks tracked
  | loadField field | storeField field =>
    obtain ⟨kind, named⟩ := described
    simpa [kind, named] using elideField_tracks reacted tracks tracked
  | call callee =>
    obtain ⟨kind, named⟩ := described
    simpa [kind] using retargetCall_tracks named reacted tracks tracked
  | newObject ctor =>
    obtain ⟨_, rfl⟩ := (Edit.pure_yields_iff () ()).mp reacted
    exact ⟨rfl, by simpa [described.1] using tracked⟩
  | other j =>
    obtain ⟨_, rfl⟩ := (Edit.pure_yields_iff () ()).mp reacted
    exact ⟨rfl, by simpa [show i.opcode.category = .other from described] using tracked⟩

/-- Nothing is done about an access to the receiver. -/
theorem elide_receiver (m : Module) {method : MethodDef}
    (described : Describes method origin i none) :
    elide bindings m method origin output (id, i) = (id, i) :: output := by
  obtain ⟨kind, receiver, slot⟩ := described
  unfold elide
  rcases kind with kind | kind <;> simp [kind, slotType?, slot, parameter?, receiver]

end steps

theorem slotType?_bare (method : MethodDef) : slotType? method.bare = slotType? method := rfl

theorem adapterTarget_congr {m n : Module} (same : m.bare = n.bare) :
    adapterTarget m = adapterTarget n := by
  funext adapter callee
  rw [← adapterTarget_bare, same, adapterTarget_bare]

/-- The scan looks at no bodies but its own. -/
theorem elide_congr {bindings : StaticBindings} {m n : Module} (same : m.bare = n.bare)
    (method : MethodDef) : elide bindings m method.bare = elide bindings n method := by
  have redirected : redirect bindings m = redirect bindings n := by
    funext i
    simp only [redirect, redirection?, adapterTarget_congr same]
  funext b output entry
  unfold elide
  rw [slotType?_bare, redirected]

/-- What the scan of a whole body gives. -/
def elideAll (bindings : StaticBindings) (m : Module) (method : MethodDef) (b : Body) :
    List (InstrId × Instruction) :=
  (b.code.foldl (elide bindings m method b) []).reverse

private theorem foldl_fst {α β : Type} (f : α → β → α) (entries : List β) (a : α) (state : σ) :
    entries.foldl (fun s entry => (f s.1 entry, s.2)) (a, state) = (entries.foldl f a, state) := by
  induction entries generalizing a with
  | nil => rfl
  | cons entry entries ih => exact ih (f a entry)

/-- The rule by itself turns a body into what the scan gives. Every instruction has an operand of
the right kind, and every call on an interface with an adapter has found its method. -/
theorem retains_elideAll {bindings : StaticBindings} {m : Module} {method : MethodDef}
    {state final : σ} {b edited : Body} (sound : b.Sound)
    (visited : Visited [interfaceCalls bindings] m method state b edited final) :
    edited.Retains b (elideAll bindings m method b) ∧
      ∀ id i, (id, i) ∈ b.code → i.isMatched = true ∧
        (i.opcode.category = .call → ∀ callee adapter, i.method? = some callee →
          bindings.adapter? callee.declaringType = some adapter →
          ∃ target, adapterTarget m adapter callee = .ok target) := by
  obtain ⟨site, before, log, found, header, visited⟩ := visited
  have tracks := Body.retains_tracks sound.distinct
  rw [← Body.map_fst_code sound.toWellFormed] at visited
  have start : b.Retains b (List.reverse [] ++ b.code) := by simpa using sound.retains_code
  have each : ∀ output id i rest (w after : Workspace σ),
      w.body.Retains b (output.reverse ++ (id, i) :: rest) →
      (showTo [interfaceCalls bindings] site id).Yields w () after →
      after.body.Retains b ((elide bindings m method b output (id, i)).reverse ++ rest) ∧
        after.state = w.state := by
    intro output id i rest w after retained shown
    -- The rule sees the module as edited so far, the scan as it was: the headers are the same.
    rw [← elide_congr found method, ← header]
    obtain ⟨_, ⟨described, rfl⟩ | ⟨visit, described, reacted⟩⟩ :=
      showTo_lists (i := i) (tracks.lists retained) (by simp) shown
    · rw [elide_receiver _ described]
      exact ⟨by simpa using retained, rfl⟩
    · simp only [Edit.forM_cons_yields_iff, Edit.forM_nil_yields_iff, exists_eq_right] at reacted
      exact (interfaceCalls_tracks reacted described tracks retained).symm
  obtain ⟨retained, _, shown⟩ := visitBody_tracks (R := fun w kept => w.body.Retains b kept)
    (fun s entry => (elide bindings m method b s.1 entry, s.2)) each start visited
  rw [foldl_fst] at retained
  refine ⟨retained, fun id i member => ?_⟩
  -- Each instruction was shown to the rule while it was live, and the rule did not fail.
  obtain ⟨kept, w, after, held, retained, shown⟩ := shown (id, i) member
  obtain ⟨matched, reaction⟩ := showTo_lists (tracks.lists retained) held shown
  refine ⟨matched, fun kind callee adapter named bound => ?_⟩
  rcases reaction with ⟨described, _⟩ | ⟨visit, described, reacted⟩
  · simp [Describes, kind] at described
  · cases visit with
    | call method =>
      obtain rfl : method = callee := Option.some.inj (described.2.symm.trans named)
      simp only [Edit.forM_cons_yields_iff, Edit.forM_nil_yields_iff, exists_eq_right] at reacted
      have live : id ∈ w.body.order := retained.order ▸ List.mem_map_of_mem held
      rw [← adapterTarget_congr found]
      exact adapterTarget_of_retargetCall bound (by simpa [Body.isLive] using live) reacted
    | _ => simp [Describes, kind] at described

end Pass

end NativeBridge
