import NativeBridge.Proofs.Elision
import NativeBridge.Proofs.Loading
import NativeBridge.Proofs.Running

/-! Where a retargeted call leads. The rule for interfaces chooses a static method of the adapter,
but a reference names a method by its name and parameter types alone. The call reaches the chosen
method exactly if no instance method of that name and those types is defined before it. -/

namespace NativeBridge

/-- An instance method has the name and the parameter types of the method at a place behind it. -/
def TypeDef.Shadowed (t : TypeDef) (place : Nat) : Prop :=
  ∃ earlier < place, ∃ cover hidden, t.methods[earlier]? = some cover ∧
    t.methods[place]? = some hidden ∧ cover.isStatic = false ∧ cover.name = hidden.name ∧
    cover.paramTypes = hidden.paramTypes

theorem MethodDef.matchesRef_iff (m : MethodDef) (ref : MethodRef) :
    m.matchesRef ref = true ↔ m.name = ref.name ∧ m.paramTypes = ref.params := by
  simp only [matchesRef, Bool.and_eq_true, beq_iff_eq]

namespace Pass

/-- The place of the method that stands in for another one among the methods of an adapter. -/
def adapterPlace? (adapter : TypeDef) (method : MethodRef) : Option Nat :=
  (adapter.methods.findIdx? fun m => m.isStatic && m.matchesRef method).or
    (adapter.methods.findIdx? fun m => m.isStatic && m.name == method.name)

section choice

variable {adapter : TypeDef} {callee : MethodRef} {place : Nat} {chosen : MethodDef}

theorem adapterMethod?_eq (adapter : TypeDef) (callee : MethodRef) :
    adapterMethod? adapter callee = (adapterPlace? adapter callee).bind (adapter.methods[·]?) := by
  rw [adapterMethod?, adapterPlace?, TypeDef.staticMethod?, List.find?_eq_bind_findIdx?_getElem?,
    List.find?_eq_bind_findIdx?_getElem?]
  cases found : adapter.methods.findIdx? fun m => m.isStatic && m.matchesRef callee with
  | none => rfl
  | some place =>
    obtain ⟨inside, _⟩ := List.findIdx?_eq_some_iff_getElem.mp found
    simp [List.getElem?_eq_getElem inside]

/-- The chosen method is static, and no static method before it has its name and parameters. -/
theorem chosen_of_place (found : adapterPlace? adapter callee = some place)
    (there : adapter.methods[place]? = some chosen) :
    chosen.isStatic = true ∧ ∀ earlier < place, ∀ other, adapter.methods[earlier]? = some other →
      other.isStatic = true → other.name = chosen.name → other.paramTypes ≠ chosen.paramTypes := by
  obtain ⟨inside, rfl⟩ := List.getElem?_eq_some_iff.mp there
  rcases Option.or_eq_some_iff.mp found with exact | ⟨_, byName⟩
  · obtain ⟨_, matched, before⟩ := List.findIdx?_eq_some_iff_getElem.mp exact
    simp only [Bool.and_eq_true, MethodDef.matchesRef_iff] at matched before
    refine ⟨matched.1, fun earlier less other there static name params => ?_⟩
    obtain ⟨_, rfl⟩ := List.getElem?_eq_some_iff.mp there
    exact before earlier less ⟨static, name.trans matched.2.1, params.trans matched.2.2⟩
  · obtain ⟨_, matched, before⟩ := List.findIdx?_eq_some_iff_getElem.mp byName
    simp only [Bool.and_eq_true, beq_iff_eq] at matched before
    refine ⟨matched.1, fun earlier less other there static name _ => ?_⟩
    obtain ⟨_, rfl⟩ := List.getElem?_eq_some_iff.mp there
    exact before earlier less ⟨static, name.trans matched.2⟩

/-- A reference to the chosen method finds it, or an instance method that is defined before it. -/
theorem find?_chosen (found : adapterPlace? adapter callee = some place)
    (there : adapter.methods[place]? = some chosen) {ref : MethodRef}
    (named : chosen.matchesRef ref = true) :
    (¬ adapter.Shadowed place → adapter.methods.find? (·.matchesRef ref) = some chosen) ∧
      (adapter.Shadowed place →
        ∃ other, adapter.methods.find? (·.matchesRef ref) = some other ∧
          other.isStatic = false) := by
  obtain ⟨_, unique⟩ := chosen_of_place found there
  obtain ⟨name, params⟩ := (chosen.matchesRef_iff ref).mp named
  constructor
  · intro clear
    obtain ⟨inside, same⟩ := List.getElem?_eq_some_iff.mp there
    refine List.find?_eq_some_iff_getElem.mpr ⟨named, place, inside, same, ?_⟩
    intro earlier less
    rw [Bool.not_eq_true', ← Bool.not_eq_true, MethodDef.matchesRef_iff]
    rintro ⟨sameName, sameParams⟩
    have earlierThere := List.getElem?_eq_getElem (Nat.lt_trans less inside)
    cases static : (adapter.methods[earlier]).isStatic with
    | true =>
      exact unique earlier less _ earlierThere static (sameName.trans name.symm)
        (sameParams.trans params.symm)
    | false =>
      exact clear ⟨earlier, less, _, chosen, earlierThere, there, static,
        sameName.trans name.symm, sameParams.trans params.symm⟩
  · rintro ⟨earlier, less, cover, hidden, hides, hiddenThere, _, sameName, sameParams⟩
    obtain rfl : hidden = chosen := Option.some.inj (hiddenThere.symm.trans there)
    have matched : cover.matchesRef ref = true :=
      (cover.matchesRef_iff ref).mpr ⟨sameName.trans name, sameParams.trans params⟩
    obtain ⟨first, other, less', otherThere, picked⟩ : ∃ first, ∃ other, first ≤ earlier ∧
        adapter.methods[first]? = some other ∧
        adapter.methods.find? (·.matchesRef ref) = some other := by
      obtain ⟨bound, rfl⟩ := List.getElem?_eq_some_iff.mp hides
      cases picked : adapter.methods.find? (·.matchesRef ref) with
      | none => exact absurd matched (by
          simpa using List.find?_eq_none.mp picked _ (List.getElem_mem bound))
      | some other =>
        obtain ⟨_, first, inside, same, before⟩ := List.find?_eq_some_iff_getElem.mp picked
        refine ⟨first, other, ?_, List.getElem?_eq_some_iff.mpr ⟨inside, same⟩, rfl⟩
        by_contra later
        have missed := before earlier (Nat.lt_of_not_le later)
        rw [matched] at missed
        cases missed
    refine ⟨other, picked, ?_⟩
    -- A static one in its place would have been chosen.
    rw [← Bool.not_eq_true]
    intro static
    have otherMatched := List.find?_some picked
    obtain ⟨otherName, otherParams⟩ := (other.matchesRef_iff ref).mp otherMatched
    exact unique first (Nat.lt_of_le_of_lt less' less) other otherThere static
      (otherName.trans name.symm) (otherParams.trans params.symm)

end choice

section bare

variable {t u : TypeDef} (same : t.bare = u.bare)

include same

theorem map_bare_methods : t.methods.map (·.bare) = u.methods.map (·.bare) :=
  congrArg (·.methods) same

theorem adapterPlace?_congr (callee : MethodRef) :
    adapterPlace? t callee = adapterPlace? u callee := by
  have places : ∀ p : MethodDef → Bool, (∀ m, p m.bare = p m) →
      t.methods.findIdx? p = u.methods.findIdx? p := by
    intro p blind
    have hidden : ∀ ms : List MethodDef, (ms.map (·.bare)).findIdx? p = ms.findIdx? p := by
      intro ms
      rw [List.findIdx?_map]
      congr 1
      exact funext blind
    rw [← hidden t.methods, map_bare_methods same, hidden]
  rw [adapterPlace?, adapterPlace?, places _ fun _ => rfl, places _ fun _ => rfl]

theorem exists_method {n : Nat} {method : MethodDef} (there : t.methods[n]? = some method) :
    ∃ method', u.methods[n]? = some method' ∧ method'.bare = method.bare := by
  have bares : (t.methods.map (·.bare))[n]? = (u.methods.map (·.bare))[n]? := by
    rw [map_bare_methods same]
  rw [List.getElem?_map, List.getElem?_map, there, Option.map_some, eq_comm,
    Option.map_eq_some_iff] at bares
  exact bares

theorem Shadowed.congr {place : Nat} (shadowed : t.Shadowed place) : u.Shadowed place := by
  obtain ⟨earlier, less, cover, hidden, hides, there, static, name, params⟩ := shadowed
  obtain ⟨cover', hides', bare⟩ := exists_method same hides
  obtain ⟨hidden', there', bare'⟩ := exists_method same there
  have static' : cover'.isStatic = cover.isStatic := congrArg (·.isStatic) bare
  have name' : cover'.name = cover.name := congrArg (·.name) bare
  have params' : cover'.paramTypes = cover.paramTypes := congrArg (·.paramTypes) bare
  have hiddenName : hidden'.name = hidden.name := congrArg (·.name) bare'
  have hiddenParams : hidden'.paramTypes = hidden.paramTypes := congrArg (·.paramTypes) bare'
  exact ⟨earlier, less, cover', hidden', hides', there', static'.trans static,
    name'.trans (name.trans hiddenName.symm), params'.trans (params.trans hiddenParams.symm)⟩

end bare

section scan

variable {bindings : StaticBindings} {m : Module} {method : MethodDef} {b : Body}

/-- The scan takes nothing off its output but loads of the receiver. -/
theorem mem_elide {output : List (InstrId × Instruction)} {kept : InstrId × Instruction}
    (member : kept ∈ output) (other : kept.2.opcode.category = .call)
    (entry : InstrId × Instruction) : kept ∈ elide bindings m method b output entry := by
  have stays : kept ∈ dropReceiver b output := by
    cases output with
    | nil => exact member
    | cons top output =>
      rw [dropReceiver]
      split
      next receiver =>
        rcases List.mem_cons.mp member with rfl | below
        · simp [isReceiverLoad, other] at receiver
        · exact below
      next => exact member
  have stacked : kept ∈ entry :: output := List.mem_cons_of_mem _ member
  unfold elide
  cases entry.2.opcode.category with
  | loadArgument | storeArgument | loadLocal | storeLocal =>
    dsimp only
    split
    · exact member
    · exact stacked
  | loadField | storeField =>
    cases entry.2.field? with
    | none => exact stacked
    | some field =>
      dsimp only
      split
      · split
        · exact member
        · exact stays
      · exact stacked
  | call => exact List.mem_cons_of_mem _ member
  | newObject | other => exact stacked

theorem category_redirect {i : Instruction} (kind : i.opcode.category = .call) :
    (redirect bindings m i).opcode.category = .call := by
  unfold redirect
  split
  · rfl
  · exact kind

/-- Every call is kept, as the call that it is redirected to. -/
theorem mem_elideAll (bindings : StaticBindings) (m : Module) (method : MethodDef) {id : InstrId}
    {i : Instruction} (member : (id, i) ∈ b.code)
    (kind : i.opcode.category = .call) :
    (id, redirect bindings m i) ∈ elideAll bindings m method b := by
  have kept : ∀ (entries output : List (InstrId × Instruction)),
      (id, redirect bindings m i) ∈ output ∨ (id, i) ∈ entries →
      (id, redirect bindings m i) ∈ entries.foldl (elide bindings m method b) output := by
    intro entries
    induction entries with
    | nil =>
      rintro output (done | pending)
      · exact done
      · cases pending
    | cons entry entries ih =>
      rintro output (done | pending)
      · exact ih _ (Or.inl (mem_elide done (category_redirect kind) entry))
      · rcases List.mem_cons.mp pending with rfl | later
        · apply ih
          left
          simp [elide, kind]
        · exact ih _ (Or.inr later)
  rw [elideAll, List.mem_reverse]
  exact kept b.code [] (Or.inr member)

end scan

/-- The rule chooses the method at a place of the adapter to stand in for another one. -/
structure Chooses (m : Module) (adapter : TypeName) (callee : MethodRef) (type : TypeDef)
    (place : Nat) (chosen : MethodDef) : Prop where
  defined : m.findType? adapter = some type
  selected : adapterMethod? type callee = some chosen
  located : adapterPlace? type callee = some place
  there : type.methods[place]? = some chosen
  static : chosen.isStatic = true

theorem chooses_of_adapterTarget {m : Module} {adapter : TypeName} {callee target : MethodRef}
    (found : adapterTarget m adapter callee = .ok target) :
    ∃ type place chosen, Chooses m adapter callee type place chosen ∧
      target = { chosen.ref adapter with genericArgs := callee.genericArgs } := by
  unfold adapterTarget at found
  rcases defined : m.findType? adapter with _ | type
  · simp [defined] at found
  rcases picked : adapterMethod? type callee with _ | chosen
  · simp [defined, picked] at found
  simp only [defined, picked, Except.ok.injEq] at found
  have located := picked
  rw [adapterMethod?_eq, Option.bind_eq_some_iff] at located
  obtain ⟨place, located, there⟩ := located
  exact ⟨type, place, chosen, ⟨defined, picked, located, there, (chosen_of_place located there).1⟩,
    found.symm⟩

/-- Where a reference leads in a module whose adapter has a method at a place: to that method, which
calls enter, or to an instance method before it, which they do not. -/
structure Leads (m : Module) (target : MethodRef) (chosen : MethodDef) (shadowed : Prop) :
    Prop where
  visible : ¬ shadowed → m.resolve? target = some chosen ∧
    ∀ args depth body, depth < maxCallDepth → chosen.body = some body →
      args.length = chosen.params.length →
      Machine.enter m target args depth = .ok (.initial target chosen body args)
  hidden : shadowed → ∃ other, m.resolve? target = some other ∧ other.isStatic = false ∧
    ∀ args depth, depth < maxCallDepth →
      Machine.enter m target args depth = .error (.unsupported .call target.qualified)

theorem leads_of_chosen {m : Module} {adapter : TypeName} {callee : MethodRef} {type : TypeDef}
    {place : Nat} {chosen : MethodDef} (defined : m.findType? adapter = some type)
    (located : adapterPlace? type callee = some place)
    (there : type.methods[place]? = some chosen) {target : MethodRef}
    (declared : target.declaringType = adapter) (named : chosen.matchesRef target = true) :
    Leads m target chosen (type.Shadowed place) := by
  have resolves : m.resolve? target = type.methods.find? (·.matchesRef target) := by
    simp only [Module.resolve?, declared, defined, Option.bind_eq_bind, Option.bind_some]
  obtain ⟨clear, hidden⟩ := find?_chosen located there named
  constructor
  · intro visible
    have found := resolves.trans (clear visible)
    refine ⟨found, fun args depth body shallow held counts => ?_⟩
    rw [Machine.enter_ok_iff]
    exact ⟨shallow, chosen, body, found, (chosen_of_place located there).1, held, counts, rfl⟩
  · intro shadowed
    obtain ⟨other, found, instance'⟩ := hidden shadowed
    refine ⟨other, resolves.trans found, instance', fun args depth shallow => ?_⟩
    unfold Machine.enter
    simp only [if_neg (Nat.not_le.mpr shallow), resolves.trans found, instance']
    rfl

/-- Every call on an interface with an adapter that the rule meets becomes a call of the static
method that it chooses. In the module that it leaves, the new reference leads to the very method at
the chosen place, unless an instance method before that place has its name and parameter types: then
it leads to an instance method, and the machine refuses the call. -/
theorem retargeted_call_leads {σ : Type} (document : Json.Document) (m : Module)
    (bindings : StaticBindings) (checked : Bool) (state : σ) (report : Report)
    (loaded : Module.load document = .ok m)
    (succeeded : (run [interfaceCalls bindings] checked m state).result = .ok report)
    {n : Nat} {method : MethodDef} {b : Body} {id : InstrId} {i : Instruction} {callee : MethodRef}
    {adapter : TypeName} (input : (m.methods.map (·.2))[n]? = some method)
    (held : method.body = some b) (member : (id, i) ∈ b.code) (calls : i.opcode.isCall = true)
    (named : i.method? = some callee)
    (bound : bindings.adapter? callee.declaringType = some adapter) :
    let out := (run [interfaceCalls bindings] checked m state).edited
    ∃ type place chosen, Chooses m adapter callee type place chosen ∧
      let target := { chosen.ref adapter with genericArgs := callee.genericArgs }
      (∃ edited c, (out.methods.map (·.2))[n]? = some edited ∧ edited.body = some c ∧
        (id, ⟨.call, .method target⟩) ∈ c.code) ∧
      ∃ type' chosen', out.findType? adapter = some type' ∧
        type'.methods[place]? = some chosen' ∧ chosen'.bare = chosen.bare ∧
        Leads out target chosen' (type.Shadowed place) := by
  have sound := Module.sound_of_load loaded
  obtain ⟨headers, threads⟩ := run_methods succeeded
  obtain ⟨edited, output, before, after, visited⟩ := threads.getElem? input
  rcases visited with ⟨bodiless, _⟩ | ⟨b', c, held', rfl, visited⟩
  · rw [held] at bodiless
    cases bodiless
  obtain rfl : b = b' := Option.some.inj (held.symm.trans held')
  obtain ⟨entry, inModule, rfl⟩ := List.mem_map.mp (List.mem_of_getElem? input)
  have formed := (sound entry inModule b held).1
  obtain ⟨retained, reached⟩ := retains_elideAll formed visited
  have kind : i.opcode.category = .call := by
    cases op : i.opcode <;> rw [op] at calls <;> first | rfl | cases calls
  obtain ⟨target, found⟩ := (reached id i member).2 kind callee adapter named bound
  obtain ⟨type, place, chosen, choice, rfl⟩ := chooses_of_adapterTarget found
  refine ⟨type, place, chosen, choice, ⟨_, c, output, rfl, ?_⟩, ?_⟩
  · -- The call is kept, and it has no target that could move.
    have redirected : redirect bindings m i = ⟨.call, .method
        { chosen.ref adapter with genericArgs := callee.genericArgs }⟩ := by
      simp [redirect, redirection?, named, bound, found, Except.toOption]
    have kept := mem_elideAll bindings m entry.2 member kind
    rw [redirected] at kept
    rw [retained.code_eq formed.distinct, List.mem_map]
    exact ⟨_, kept, rfl⟩
  · -- The adapter has the same headers in both modules.
    have bares : ((run [interfaceCalls bindings] checked m state).edited.findType? adapter).map
        (·.bare) = some type.bare := by
      rw [← Module.findType?_bare, headers, Module.findType?_bare, choice.defined, Option.map_some]
    obtain ⟨type', defined, bare⟩ := Option.map_eq_some_iff.mp bares
    obtain ⟨chosen', there, header⟩ := exists_method bare.symm choice.there
    have located : adapterPlace? type' callee = some place :=
      (adapterPlace?_congr bare callee).trans choice.located
    have refers : chosen'.matchesRef
        { chosen.ref adapter with genericArgs := callee.genericArgs } = true := by
      rw [MethodDef.matchesRef_iff]
      exact ⟨congrArg (·.name) header, congrArg (·.paramTypes) header⟩
    obtain ⟨visible, hidden⟩ := leads_of_chosen defined located there rfl refers
    refine ⟨type', chosen', defined, there, header, ?_, ?_⟩
    · exact fun clear => visible fun shadowed => clear (Shadowed.congr bare shadowed)
    · exact fun shadowed => hidden (Shadowed.congr bare.symm shadowed)

/-- The call of the sample program reaches the one method of its adapter. -/
theorem retargeted_call_leads_sample :
    Module.load Sample.document = .ok Sample.program ∧
      (run [interfaceCalls Sample.bindings] true Sample.program ()).result = .ok ⟨3, 29, 5⟩ ∧
      ∃ type place chosen found,
        Chooses Sample.program (.simple "" "Adapter") Sample.writeRef type place chosen ∧
        (run [interfaceCalls Sample.bindings] true Sample.program ()).edited.resolve?
          { chosen.ref (.simple "" "Adapter") with genericArgs := [] } = some found ∧
        found.bare = chosen.bare := by
  have succeeded : (run [interfaceCalls Sample.bindings] true Sample.program ()).result =
      .ok ⟨3, 29, 5⟩ := by decide +kernel
  have placed : ((Sample.program.findType? (.simple "" "Adapter")).bind
      (adapterPlace? · Sample.writeRef)) = some 0 := by decide +kernel
  obtain ⟨method, b, input, held, member⟩ : ∃ method b,
      (Sample.program.methods.map (·.2))[1]? = some method ∧ method.body = some b ∧
        (⟨2⟩, ⟨.callvirt, .method Sample.writeRef⟩) ∈ b.code := by
    refine ⟨((Sample.program.methods.map (·.2))[1]?).getD default,
      (((Sample.program.methods.map (·.2))[1]?).bind (·.body)).getD default, ?_, ?_, ?_⟩ <;>
      decide +kernel
  obtain ⟨type, place, chosen, choice, _, _, found, _, _, header, leads⟩ :=
    retargeted_call_leads Sample.document Sample.program Sample.bindings true () _
      Sample.load_document succeeded input held member rfl rfl rfl
  refine ⟨Sample.load_document, succeeded, type, place, chosen, found, choice, ?_, header⟩
  -- No method stands before the first one.
  rw [choice.defined, Option.bind_some, choice.located] at placed
  cases placed
  refine (leads.visible ?_).1
  rintro ⟨earlier, before, _⟩
  exact Nat.not_lt_zero earlier before

/-- The rule chooses the static method, but the call that it writes names the instance method, and
the machine refuses it. -/
theorem instance_method_shadows_adapter :
    let out := (run [interfaceCalls Sample.bindings] true Sample.overlappingProgram ()).edited
    let level : MethodRef := ⟨.simple "" "Log", "Level", true, [], .simple "" "Int", []⟩
    let target : MethodRef := ⟨.simple "" "Adapter", "Level", false, [], .simple "" "Int", []⟩
    let main : MethodRef :=
      ⟨.simple "" "Program", "Main", false, [.simple "" "Log"], .simple "" "Int", []⟩
    Module.load Sample.overlapping = .ok Sample.overlappingProgram ∧
      (run [interfaceCalls Sample.bindings] true Sample.overlappingProgram ()).result =
        .ok ⟨3, 7, 1⟩ ∧
      ((Sample.overlappingProgram.findType? (.simple "" "Adapter")).bind
        (adapterMethod? · level)).map (·.isStatic) = some true ∧
      ((out.resolve? main).bind (·.body)).map (·.code) =
        some [(⟨1⟩, ⟨.call, .method target⟩), (⟨2⟩, ⟨.ret, .none⟩)] ∧
      (out.resolve? target).map (·.isStatic) = some false ∧
      out.call defaultStepLimit main [.null] = .error (.unsupported .call "Adapter::Level") := by
  dsimp only
  refine ⟨?_, ?_, ?_, ?_, ?_, ?_⟩ <;> decide +kernel

end Pass

end NativeBridge
