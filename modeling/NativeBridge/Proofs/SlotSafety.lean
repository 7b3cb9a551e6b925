import NativeBridge.Pass.Standard
import NativeBridge.Proofs.AdapterResolution
import NativeBridge.Proofs.EditHistory
import NativeBridge.Proofs.ReferenceScan
import NativeBridge.Proofs.StackSafety
import NativeBridge.Proofs.Visits

/-! Slot safety. A pass looks up every slot that live code names, and what its rules put into a body
names none. So after a pass that succeeds every slot is declared, and every frame of the machine has
a value for each slot that its code names: for a static method there is one argument for each
parameter, because a call takes as many values as the method it names has parameters. The machine
never looks for a slot in vain, and only the arguments of the first call can be too many or too
few. -/

namespace NativeBridge

namespace Instruction

/-- An instruction loads from a slot or stores to it. -/
def Accesses (i : Instruction) (bank : Bank) (slot : Nat) : Prop :=
  (i.opcode.category = bank.loads ∨ i.opcode.category = bank.stores) ∧ i.slot? = some slot

/-- An instruction has an operand of the right kind and keeps to banks of the given sizes. -/
structure Confined (sizes : Bank → Nat) (i : Instruction) : Prop where
  matched : i.isMatched = true
  inside : ∀ bank slot, i.Accesses bank slot → slot < sizes bank

variable {sizes : Bank → Nat} {i : Instruction}

theorem Confined.mapTarget (confined : i.Confined sizes) (move : InstrId → InstrId) :
    (i.mapTarget move).Confined sizes where
  matched := by simpa using confined.matched
  inside bank slot access := confined.inside bank slot (by simpa [Accesses] using access)

/-- A matched instruction that works on no slot keeps to banks of any size. -/
theorem confined_of_slot?_eq_none (matched : i.isMatched = true) (named : i.slot? = none) :
    i.Confined sizes where
  matched := matched
  inside _ _ access := by simp [access.2] at named

end Instruction

namespace Body

/-- What an identity names, if anything, keeps to banks of the given sizes. -/
def ConfinedAt (b : Body) (sizes : Bank → Nat) (id : InstrId) : Prop :=
  ∀ i ∈ b.get? id, i.Confined sizes

/-- A body has the declarations of another one and no code that the other one lacks; what was
confined there is confined here. -/
structure Inherits (c b : Body) : Prop where
  receiver : c.hasReceiver = b.hasReceiver
  locals : c.locals = b.locals
  order : c.order ⊆ b.order
  confined : ∀ sizes id, b.ConfinedAt sizes id → c.ConfinedAt sizes id

variable {b c d : Body} {id : InstrId}

theorem inherits_refl (b : Body) : b.Inherits b :=
  ⟨rfl, rfl, List.Subset.refl _, fun _ _ confined => confined⟩

theorem Inherits.trans (later : d.Inherits c) (earlier : c.Inherits b) : d.Inherits b where
  receiver := later.receiver.trans earlier.receiver
  locals := later.locals.trans earlier.locals
  order := List.Subset.trans later.order earlier.order
  confined sizes id confined := later.confined sizes id (earlier.confined sizes id confined)

/-- Releasing an instruction retargets branches, which touches no slot. -/
theorem inherits_of_release {next : Option InstrId} (released : b.release id next = .ok c) :
    c.Inherits b ∧ c.order = b.order := by
  have kept : c.hasReceiver = b.hasReceiver ∧ c.locals = b.locals ∧ c.order = b.order := by
    unfold Body.release at released
    split at released
    · cases next with
      | none => cases released
      | some heir =>
        cases released
        exact ⟨rfl, rfl, rfl⟩
    · cases released
      exact ⟨rfl, rfl, rfl⟩
  refine ⟨⟨kept.1, kept.2.1, fun x member => kept.2.2 ▸ member, ?_⟩, kept.2.2⟩
  intro sizes x confined i held
  rcases get?_of_release released x with same | ⟨heir, _, moved⟩
  · exact confined i (same ▸ held)
  · rw [moved] at held
    obtain ⟨j, there, rfl⟩ := Option.map_eq_some_iff.mp held
    exact (confined j there).mapTarget _

theorem inherits_of_remove {i : Instruction} (removed : b.remove id = .ok (i, c)) :
    c.Inherits b := by
  unfold Body.remove at removed
  obtain ⟨place, _, removed⟩ := (Success.bind_ok_iff ..).mp removed
  obtain ⟨r, released, removed⟩ := (Success.bind_ok_iff ..).mp removed
  obtain ⟨inherits, _⟩ := inherits_of_release released
  cases held : r.get? id with
  | none => simp [held] at removed
  | some j =>
    simp only [held, Success.pure_ok_iff, Prod.mk.injEq] at removed
    obtain ⟨_, rfl⟩ := removed
    have erased : (r.order.eraseIdx place) ⊆ r.order := List.eraseIdx_subset
    exact ⟨inherits.receiver, inherits.locals, List.Subset.trans erased inherits.order,
      inherits.confined⟩

/-- Replacing an instruction by one that is confined anywhere brings in no access to a slot. -/
theorem inherits_of_replace {i old : Instruction} (free : ∀ sizes, i.Confined sizes)
    (replaced : b.replace id i = .ok (old, c)) : c.Inherits b := by
  obtain ⟨_, rfl⟩ := replace_ok replaced
  refine ⟨rfl, rfl, List.Subset.refl _, fun sizes x confined j held => ?_⟩
  rw [Option.mem_def, get?_set] at held
  split at held
  · obtain ⟨_, _, rfl⟩ := Option.map_eq_some_iff.mp held
    exact free sizes
  · exact confined j held

end Body

/-- How many slots a method declares in a body. A receiver has a slot of its own. -/
def MethodDef.slotCount (method : MethodDef) (b : Body) : Bank → Nat
  | .arguments => b.hasReceiver.toNat + method.params.length
  | .locals => b.locals.length

theorem Body.Inherits.slotCount_eq {b c : Body} (inherits : c.Inherits b) (method : MethodDef) :
    method.slotCount c = method.slotCount b := by
  funext bank
  cases bank <;> simp only [MethodDef.slotCount, inherits.receiver, inherits.locals]

namespace Pass

variable {σ τ α β : Type}

section declarations

variable {site : Site} {method : MethodDef} {b : Body} {id : InstrId} {i : Instruction}
  {visit : Option Visit} {bank : Bank} {slot : Nat}

theorem lt_of_parameter {param : Parameter}
    (found : parameter? method b.hasReceiver slot = some param) :
    slot < method.slotCount b .arguments := by
  unfold parameter? at found
  unfold MethodDef.slotCount
  cases receiver : b.hasReceiver with
  | false =>
    rw [receiver] at found
    obtain ⟨inside, _⟩ := List.getElem?_eq_some_iff.mp found
    simpa using inside
  | true =>
    rw [receiver] at found
    cases slot with
    | zero => cases found
    | succ place =>
      obtain ⟨inside, _⟩ := List.getElem?_eq_some_iff.mp found
      simp only [Bool.toNat_true]
      omega

/-- A slot that a described instruction works on is declared. -/
theorem Describes.slot_lt (described : Describes method b i visit) (access : i.Accesses bank slot) :
    slot < method.slotCount b bank := by
  obtain ⟨kind, named⟩ := access
  -- The category says which visits are possible, and each of those has looked the slot up.
  cases bank with
  | arguments =>
    rcases visit with _ | visit
    · obtain ⟨_, receiver, zero⟩ := described
      cases zero.symm.trans named
      simp only [MethodDef.slotCount, receiver, Bool.toNat_true]
      omega
    · cases visit with
      | loadArgument | storeArgument =>
        obtain ⟨_, there, found⟩ := described
        cases there.symm.trans named
        exact lt_of_parameter found
      | _ =>
        rcases kind with kind | kind <;>
          simp [Describes, kind, Bank.loads, Bank.stores] at described
  | locals =>
    rcases visit with _ | visit
    · rcases kind with kind | kind <;> simp [Describes, kind, Bank.loads, Bank.stores] at described
    · cases visit with
      | loadLocal | storeLocal =>
        obtain ⟨_, there, found⟩ := described
        cases there.symm.trans named
        exact (List.getElem?_eq_some_iff.mp found).1
      | _ =>
        rcases kind with kind | kind <;>
          simp [Describes, kind, Bank.loads, Bank.stores] at described

/-- What can be looked up keeps to the slots that are declared. -/
theorem confined_of_lookUp (shown : lookUp site b id i = .ok visit) :
    i.Confined (site.method.slotCount b) := by
  obtain ⟨matched, described⟩ := describes_of_lookUp shown
  exact ⟨matched, fun _ _ access => described.slot_lt access⟩

end declarations

/-- Where a change succeeds it leaves a body that inherits from the one it found. -/
def Edit.Narrows (change : Edit σ α) : Prop :=
  ∀ w value after, change.Yields w value after → after.body.Inherits w.body

namespace Edit

theorem narrows_pure (a : α) : (pure a : Edit σ α).Narrows := by
  intro w value after made
  obtain ⟨_, rfl⟩ := (pure_yields_iff a value).mp made
  exact w.body.inherits_refl

theorem narrows_throw (e : PassError) : (throw e : Edit σ α).Narrows :=
  fun _ _ _ made => ((throw_yields_iff e _).mp made).elim

theorem narrows_throw_bind (e : PassError) (f : α → Edit σ β) :
    ((throw e : Edit σ α) >>= f).Narrows := by
  intro w value after made
  obtain ⟨_, _, thrown, _⟩ := (bind_yields_iff _ f value).mp made
  exact ((throw_yields_iff e _).mp thrown).elim

theorem narrows_bind {change : Edit σ α} {f : α → Edit σ β} (first : change.Narrows)
    (second : ∀ a, (f a).Narrows) : (change >>= f).Narrows := by
  intro w value after made
  obtain ⟨a, between, made, rest⟩ := (bind_yields_iff change f value).mp made
  exact (second a _ _ _ rest).trans (first _ _ _ made)

theorem narrows_get : (get : Edit σ (Workspace σ)).Narrows := by
  intro w value after made
  obtain ⟨_, rfl⟩ := (get_yields_iff value).mp made
  exact w.body.inherits_refl

theorem narrows_body : (body : Edit σ Body).Narrows :=
  narrows_bind narrows_get fun _ => narrows_pure _

theorem narrows_record (event : LogEvent) : (record event : Edit σ Unit).Narrows := by
  intro w value after made
  obtain rfl := (record_yields_iff event value).mp made
  exact w.body.inherits_refl

theorem narrows_setState (state : σ) :
    (modify fun w => { w with state := state } : Edit σ PUnit).Narrows := by
  intro w value after made
  obtain rfl := (modify_yields_iff _ value).mp made
  exact w.body.inherits_refl

theorem narrows_remove (site : Site) (id : InstrId) : (remove site id : Edit σ Unit).Narrows := by
  intro w value after made
  obtain ⟨_, b, removed, rfl⟩ := (remove_yields_iff value).mp made
  exact Body.inherits_of_remove removed

theorem narrows_replace (site : Site) (id : InstrId) {i : Instruction}
    (free : ∀ sizes, i.Confined sizes) : (replace site id i : Edit σ Unit).Narrows := by
  intro w value after made
  obtain ⟨_, b, replaced, rfl⟩ := (replace_yields_iff i value).mp made
  exact Body.inherits_of_replace free replaced

theorem narrows_forM {f : α → Edit σ Unit} {xs : List α} (each : ∀ x ∈ xs, (f x).Narrows) :
    (xs.forM f).Narrows := by
  induction xs with
  | nil => exact narrows_pure ()
  | cons x xs ih =>
    obtain ⟨head, tail⟩ := List.forall_mem_cons.mp each
    exact narrows_bind head fun _ => ih tail

end Edit

/-- The rules that the library brings along, each with a registry of its own kind and on a part of
the state of the pass. -/
inductive Rule.BuiltIn : Rule σ → Prop
  | interfaceCalls (bindings : StaticBindings) : BuiltIn (Pass.interfaceCalls bindings)
  | callbackHandles {ρ : Type} (add : ρ → String → MethodRef → Nat × ρ) (part : σ → ρ)
      (update : ρ → σ → σ) : BuiltIn ((Pass.callbackHandles add).zoom part update)
  | workerTypes (factory : WorkerFactory) (part : σ → List TypeName)
      (update : List TypeName → σ → σ) : BuiltIn ((Pass.workerTypes factory).zoom part update)

theorem standardRules_builtIn (bindings : StaticBindings) (factory : WorkerFactory) :
    ∀ rule ∈ standardRules bindings factory, rule.BuiltIn := by
  simp only [standardRules, List.forall_mem_cons]
  exact ⟨.interfaceCalls _, .callbackHandles _ _ _, .workerTypes _ _ _, by simp⟩

section rules

open Edit

variable (site : Site) (id : InstrId)

theorem elideValue_narrows (bindings : StaticBindings) (type : TypeName) :
    (elideValue bindings site id type : Edit σ Unit).Narrows := by
  refine narrows_bind narrows_body fun b => ?_
  split
  · exact narrows_bind (narrows_record _) fun _ => narrows_remove site id
  · exact narrows_pure ()

theorem elideObject_narrows (field : FieldRef) :
    (elideObject site id field : Edit σ Unit).Narrows := by
  refine narrows_bind narrows_body fun b => ?_
  dsimp only
  split
  · exact narrows_remove site _
  · exact narrows_record _

theorem elideField_narrows (bindings : StaticBindings) (field : FieldRef) :
    (elideField bindings site id field : Edit σ Unit).Narrows := by
  refine narrows_bind narrows_body fun b => ?_
  have ending : ∀ _ : PUnit, (do
      Edit.record ⟨.debug, "eliding field " ++ field.text, Edit.whereabouts site id⟩
      Edit.remove site id : Edit σ Unit).Narrows :=
    fun _ => narrows_bind (narrows_record _) fun _ => narrows_remove site id
  split
  · cases field.isStatic with
    | true => exact ending ⟨⟩
    | false => exact narrows_bind (elideObject_narrows site id field) ending
  · exact narrows_pure ()

theorem retargetCall_narrows (bindings : StaticBindings) (method : MethodRef) :
    (retargetCall bindings site id method : Edit σ Unit).Narrows := by
  unfold retargetCall
  cases bindings.adapter? method.declaringType with
  | none => exact narrows_pure ()
  | some adapter =>
    refine narrows_bind narrows_body fun b => ?_
    split
    · cases adapterTarget site.enclosing adapter method with
      | error e => exact narrows_throw e
      | ok target =>
        refine narrows_bind (narrows_record _) fun _ => narrows_replace site id fun sizes => ?_
        exact Instruction.confined_of_slot?_eq_none rfl rfl
    · exact narrows_pure ()

theorem interfaceCalls_narrows (bindings : StaticBindings) (visit : Visit) :
    ((interfaceCalls bindings : Rule σ).react site id visit).Narrows := by
  cases visit with
  | loadArgument => exact elideValue_narrows site id bindings _
  | storeArgument => exact elideValue_narrows site id bindings _
  | loadLocal => exact elideValue_narrows site id bindings _
  | storeLocal => exact elideValue_narrows site id bindings _
  | loadField => exact elideField_narrows site id bindings _
  | storeField => exact elideField_narrows site id bindings _
  | call => exact retargetCall_narrows site id bindings _
  | newObject => exact narrows_pure ()
  | other => exact narrows_pure ()

theorem callbackHandles_narrows (add : σ → String → MethodRef → Nat × σ) (visit : Visit) :
    ((callbackHandles add).react site id visit).Narrows := by
  cases visit with
  | newObject ctor =>
    refine narrows_bind narrows_body fun b => ?_
    split
    · split
      next signature idiom _ _ =>
        refine narrows_bind narrows_get fun w => narrows_bind (narrows_setState _) fun _ => ?_
        split
        · exact narrows_throw_bind _ _
        · refine narrows_bind (narrows_record _) fun _ => narrows_bind ?_ fun _ =>
            narrows_bind (narrows_remove site _) fun _ => narrows_remove site id
          exact narrows_replace site _ fun sizes =>
            Instruction.confined_of_slot?_eq_none rfl rfl
      · exact narrows_pure ()
    · exact narrows_pure ()
  | _ => exact narrows_pure ()

theorem workerTypes_narrows (factory : WorkerFactory) (visit : Visit) :
    ((workerTypes factory).react site id visit).Narrows := by
  cases visit with
  | call callee =>
    simp only [workerTypes]
    split
    · split
      · refine narrows_bind narrows_get fun w => ?_
        split
        · exact narrows_bind (narrows_setState _) fun _ => narrows_record _
        · exact narrows_pure ()
      · exact narrows_throw _
    · exact narrows_pure ()
  | _ => exact narrows_pure ()

theorem Rule.zoom_narrows {part : τ → σ} {update : σ → τ → τ} {rule : Rule σ} {visit : Visit}
    (narrows : (rule.react site id visit).Narrows) :
    ((rule.zoom part update).react site id visit).Narrows := by
  intro w value after made
  obtain ⟨inner, reacted, rfl⟩ := (Rule.zoom_yields_iff part update rule value).mp made
  exact narrows _ _ _ reacted

/-- What a rule of the library makes of a body inherits from it. -/
theorem Rule.BuiltIn.narrows {rule : Rule σ} (builtIn : rule.BuiltIn) (visit : Visit) :
    (rule.react site id visit).Narrows := by
  cases builtIn with
  | interfaceCalls bindings => exact interfaceCalls_narrows site id bindings visit
  | callbackHandles add => exact zoom_narrows site id (callbackHandles_narrows site id add visit)
  | workerTypes factory => exact zoom_narrows site id (workerTypes_narrows site id factory visit)

end rules

section visits

variable {rules : List (Rule σ)} {site : Site} {w after : Workspace σ}

/-- Once an instruction has been shown, it keeps to the slots that are declared. -/
theorem showTo_confines (builtIn : ∀ rule ∈ rules, rule.BuiltIn) {id : InstrId}
    (shown : (showTo rules site id).Yields w () after) :
    after.body.Inherits w.body ∧ after.body.ConfinedAt (site.method.slotCount w.body) id := by
  cases held : w.body.get? id with
  | none =>
    -- An identity that names nothing is passed over.
    simp only [showTo, Edit.bind_yields_iff, Edit.body_yields_iff] at shown
    obtain ⟨_, _, ⟨rfl, rfl⟩, shown⟩ := shown
    simp only [held, Edit.pure_yields_iff] at shown
    obtain ⟨_, rfl⟩ := shown
    exact ⟨w.body.inherits_refl, fun i there => by simp [held] at there⟩
  | some i =>
    have confined : ∀ visit, lookUp site w.body id i = .ok visit →
        w.body.ConfinedAt (site.method.slotCount w.body) id := by
      intro visit found j there
      cases held.symm.trans there
      exact confined_of_lookUp found
    rcases (showTo_yields_iff held).mp shown with ⟨found, rfl⟩ | ⟨visit, found, reacted⟩
    · exact ⟨w.body.inherits_refl, confined _ found⟩
    · have inherits := Edit.narrows_forM
        (fun rule member => (builtIn rule member).narrows site id visit) _ _ _ reacted
      exact ⟨inherits, inherits.confined _ _ (confined _ found)⟩

/-- A visit confines every instruction that it shows. -/
theorem visitBody_confines (builtIn : ∀ rule ∈ rules, rule.BuiltIn) {ids : List InstrId}
    (visited : (visitBody rules site ids).Yields w () after) :
    after.body.Inherits w.body ∧
      ∀ id ∈ ids, after.body.ConfinedAt (site.method.slotCount w.body) id := by
  -- What has been shown stays confined, whatever the rules do at later instructions.
  induction ids generalizing w with
  | nil =>
    simp only [visitBody, Edit.forM_nil_yields_iff] at visited
    subst visited
    exact ⟨w.body.inherits_refl, by simp⟩
  | cons id ids ih =>
    simp only [visitBody, Edit.forM_cons_yields_iff] at visited
    obtain ⟨between, shown, visited⟩ := visited
    obtain ⟨first, confined⟩ := showTo_confines builtIn shown
    obtain ⟨rest, others⟩ := ih visited
    -- No rule changes what is declared.
    rw [first.slotCount_eq] at others
    exact ⟨rest.trans first, List.forall_mem_cons.mpr ⟨rest.confined _ _ confined, others⟩⟩

/-- The rules of the library leave live code that names declared slots only. -/
theorem Visited.confined (builtIn : ∀ rule ∈ rules, rule.BuiltIn) {m : Module} {method : MethodDef}
    {b edited : Body} {state next : σ} (visited : Visited rules m method state b edited next) :
    edited.hasReceiver = b.hasReceiver ∧
      ∀ id ∈ edited.order, edited.ConfinedAt (method.slotCount edited) id := by
  obtain ⟨site, before, log, _, here, visited⟩ := visited
  obtain ⟨inherits, confined⟩ := visitBody_confines builtIn visited
  refine ⟨inherits.receiver, fun id member => ?_⟩
  have same : site.method.slotCount b = method.slotCount b := by
    rw [here]
    funext bank
    cases bank <;> rfl
  rw [inherits.slotCount_eq method, ← same]
  exact confined id (inherits.order member)

end visits

end Pass

namespace Module

/-- Every body knows whether its method has a receiver. -/
def Linked (m : Module) : Prop :=
  ∀ entry ∈ m.methods, ∀ b ∈ entry.2.body, b.hasReceiver = !entry.2.isStatic

/-- A module that was loaded is linked. -/
theorem linked_of_load {document : Json.Document} {m : Module}
    (loaded : Module.load document = .ok m) : m.Linked :=
  fun entry member b held => (sound_of_load loaded entry member b held).2

/-- Live code names declared slots only, and its operands are of the right kinds. -/
def SlotsDeclared (m : Module) : Prop :=
  ∀ entry ∈ m.methods, ∀ b ∈ entry.2.body, ∀ id ∈ b.order, b.ConfinedAt (entry.2.slotCount b) id

/-- A reference has as many parameters as the method that it names. -/
theorem params_of_resolve {m : Module} {callee : MethodRef} {method : MethodDef}
    (resolved : m.resolve? callee = some method) :
    method.params.length = callee.params.length := by
  simp only [resolve?, Option.bind_eq_bind, Option.bind_eq_some_iff] at resolved
  obtain ⟨_, _, chosen⟩ := resolved
  obtain ⟨_, types⟩ := (method.matchesRef_iff callee).mp
    (List.find?_some (p := fun other : MethodDef => other.matchesRef callee) chosen)
  rw [← types, MethodDef.paramTypes, List.length_map]

end Module

/-- A pass that succeeds has looked up every slot that its module names. -/
theorem Pass.slotsDeclared_of_run {σ : Type} {rules : List (Rule σ)}
    (builtIn : ∀ rule ∈ rules, rule.BuiltIn) {checked : Bool} {m : Module} {state : σ}
    {report : Report} (linked : m.Linked)
    (succeeded : (run rules checked m state).result = .ok report) :
    (run rules checked m state).edited.Linked ∧
      (run rules checked m state).edited.SlotsDeclared := by
  obtain ⟨_, threads⟩ := run_methods succeeded
  have each : ∀ entry ∈ (run rules checked m state).edited.methods, ∀ c ∈ entry.2.body,
      c.hasReceiver = !entry.2.isStatic ∧
        ∀ id ∈ c.order, c.ConfinedAt (entry.2.slotCount c) id := by
    intro entry member c held
    obtain ⟨method, found, _, _, visited⟩ :=
      threads.exists_of_mem_right (List.mem_map_of_mem (f := (·.2)) member)
    obtain ⟨origin, there, rfl⟩ := List.mem_map.mp found
    rcases visited with ⟨none, same, _⟩ | ⟨b, d, body, same, visited⟩
    · -- A method without a body has none afterwards.
      rw [same, none] at held
      cases held
    · obtain ⟨receiver, confined⟩ := visited.confined builtIn
      rw [same] at held ⊢
      cases held
      exact ⟨receiver.trans (linked origin there b body), confined⟩
  exact ⟨fun entry member c held => (each entry member c held).1,
    fun entry member c held => (each entry member c held).2⟩

/-- The faults that declarations rule out: a slot that is not there, a wrong number of arguments. -/
def Fault.OfSlots : Fault → Prop
  | .badIndex _ _ | .arity _ _ _ => True
  | _ => False

namespace Frame

/-- A frame has a value for every slot that its code names. -/
def Equipped (f : Frame) : Prop :=
  ∀ id ∈ f.body.order, f.body.ConfinedAt (fun bank => (f.slots bank).length) id

/-- Two frames run the same body with equally many values in each bank. -/
structure SameSlots (f g : Frame) : Prop where
  body : g.body = f.body
  sizes : ∀ bank, (g.slots bank).length = (f.slots bank).length

variable {f g : Frame} {i : Instruction}

theorem Equipped.congr (equipped : f.Equipped) (same : f.SameSlots g) : g.Equipped := by
  unfold Equipped
  rw [same.body, funext same.sizes]
  exact equipped

theorem Equipped.confined (equipped : f.Equipped) (fetched : f.fetch? = some i) :
    i.Confined fun bank => (f.slots bank).length := by
  obtain ⟨id, there, held⟩ := Option.bind_eq_some_iff.mp fetched
  exact equipped id (List.mem_of_getElem? there) i held

theorem sameSlots_refl (f : Frame) : f.SameSlots f := ⟨rfl, fun _ => rfl⟩

/-- The stack and the place of the next instruction have no part in the slots. -/
theorem SameSlots.move (same : f.SameSlots g) (stack : List Value) (next : Nat) :
    f.SameSlots { g with stack := stack, next := next } where
  body := same.body
  sizes bank := by
    rw [← same.sizes bank]
    cases bank <;> rfl

theorem SameSlots.store (same : f.SameSlots g) (stack : List Value) (bank : Bank) (slot : Nat)
    (v : Value) :
    f.SameSlots ({ g with stack := stack }.setSlots ((g.slots bank).set slot v) bank) where
  body := by
    rw [← same.body]
    cases bank <;> rfl
  sizes other := by
    rw [slots_setSlots]
    split
    next here =>
      rw [List.length_set, here]
      exact same.sizes bank
    · exact (same.move stack g.next).sizes other

/-- What a confined instruction comes to: the frame keeps its slots, a call hands over as many
values as its callee has parameters, and no slot is missing. -/
def Upholds (f : Frame) : Except Fault Effect → Prop
  | .ok (.proceed g) => f.SameSlots g
  | .ok (.call callee args g) => f.SameSlots g ∧ args.length = callee.params.length
  | .ok (.finish _) => True
  | .error fault => ¬fault.OfSlots

theorem jump_upholds (same : f.SameSlots g) (op : Opcode) (target : InstrId) (taken : Bool) :
    f.Upholds (g.jump op target taken) := by
  unfold jump
  split
  · split
    · exact not_false
    next place _ => exact same.move g.stack place
  · exact same

/-- One case for each operation of the machine. -/
theorem execute_upholds (same : f.SameSlots g)
    (confined : i.Confined fun bank => (f.slots bank).length) : f.Upholds (g.execute i) := by
  obtain ⟨o, denoted⟩ := Instruction.exists_operation confined.matched
  have encoded := Instruction.encoded_of_operation denoted
  rw [execute_eq_perform g i o denoted]
  cases o with
  | nothing => exact same
  | constant v => exact same.move _ _
  | load bank slot =>
    -- Loads and stores are where a slot could be missing.
    have inside := confined.inside bank slot ⟨Or.inl encoded.1, encoded.2⟩
    rw [← same.sizes bank] at inside
    simp only [perform, List.getElem?_eq_getElem inside]
    exact same.move _ _
  | store bank slot =>
    have inside := confined.inside bank slot ⟨Or.inr encoded.1, encoded.2⟩
    rw [← same.sizes bank] at inside
    simp only [perform, if_pos inside]
    cases g.stack with
    | nil => exact not_false
    | cons v stack => exact same.store stack bank slot v
  | discard =>
    simp only [perform]
    cases g.stack with
    | nil => exact not_false
    | cons v stack => exact same.move stack _
  | duplicate =>
    simp only [perform]
    cases g.stack with
    | nil => exact not_false
    | cons v stack => exact same.move _ _
  | compute =>
    simp only [perform]
    rcases g.stack with _ | ⟨b, _ | ⟨a, stack⟩⟩
    · exact not_false
    · exact not_false
    · dsimp only
      cases Value.binary? i.opcode a b with
      | none => exact not_false
      | some v => exact same.move _ _
  | jump condition target =>
    cases condition with
    | none => exact jump_upholds same _ _ _
    | some expected =>
      simp only [perform]
      cases g.stack with
      | nil => exact not_false
      | cons v stack => exact jump_upholds (same.move stack g.next) _ _ _
  | invoke callee =>
    simp only [perform]
    split
    · exact not_false
    · split
      · exact not_false
      next enough =>
        refine ⟨same.move _ _, ?_⟩
        rw [List.length_reverse, List.length_take]
        omega
  | leave =>
    simp only [perform]
    split
    · cases g.stack with
      | nil => exact not_false
      | cons v stack => exact trivial
    · exact trivial
  | foreign => exact not_false

end Frame

namespace Machine

variable {m : Module} {s t : Machine}

/-- Entering a static method of a module whose slots are declared. -/
theorem enter_equipped (linked : m.Linked) (declared : m.SlotsDeclared) {callee : MethodRef}
    {args : List Value} {depth : Nat} {f : Frame} (entered : enter m callee args depth = .ok f) :
    f.Equipped := by
  obtain ⟨_, method, b, resolved, static, held, counts, rfl⟩ := (enter_ok_iff ..).mp entered
  obtain ⟨type, member⟩ := Module.mem_methods_of_resolve resolved
  have receiver : b.hasReceiver = false := by simpa [static] using linked _ member b held
  -- Without a receiver there is one argument slot for each parameter.
  have sizes : (fun bank => ((Frame.initial callee method b args).slots bank).length) =
      method.slotCount b := by
    funext bank
    cases bank with
    | arguments => simp [Frame.slots, Frame.initial, MethodDef.slotCount, receiver, counts]
    | locals => simp [Frame.slots, Frame.initial, MethodDef.slotCount]
  unfold Frame.Equipped
  rw [sizes]
  exact declared _ member b held

/-- A call with as many arguments as the reference has parameters is refused for another reason, if
at all. -/
theorem enter_error_of_params {callee : MethodRef} {args : List Value} {depth : Nat} {fault : Fault}
    (counts : args.length = callee.params.length)
    (refused : enter m callee args depth = .error fault) : ¬fault.OfSlots := by
  rcases enter_error refused with rfl | rfl | ⟨method, resolved, rfl | rfl | ⟨rfl, differ⟩⟩
  · exact not_false
  · exact not_false
  · exact not_false
  · exact not_false
  · exact absurd (counts.trans (Module.params_of_resolve resolved).symm) differ

/-- All frames of a machine have a value for every slot that their code names. -/
def Equipped (s : Machine) : Prop := ∀ f ∈ s.current :: s.callers, f.Equipped

/-- What an instruction may come to: an equipped machine, a result, or a fault that has nothing to
do with slots. -/
def Upholds : Except Fault Progress → Prop
  | .ok (.running t) => t.Equipped
  | .ok (.finished _) => True
  | .error fault => ¬fault.OfSlots

/-- One instruction leaves an equipped machine equipped. -/
theorem step_upholds (linked : m.Linked) (declared : m.SlotsDeclared) (equipped : s.Equipped)
    {i : Instruction} (fetched : s.current.fetch? = some i) : Upholds (step m s i) := by
  obtain ⟨current, callers⟩ := List.forall_mem_cons.mp equipped
  have upheld := Frame.execute_upholds
    (s.current.sameSlots_refl.move s.current.stack (s.current.next + 1)) (current.confined fetched)
  rw [step_eq_handle]
  cases executed : { s.current with next := s.current.next + 1 }.execute i with
  | error fault =>
    rw [executed] at upheld
    exact upheld
  | ok effect =>
    rw [executed] at upheld
    rw [Success.ok_bind]
    cases effect with
    | proceed frame => exact List.forall_mem_cons.mpr ⟨current.congr upheld, callers⟩
    | call callee args frame =>
      -- The caller waits as it is, and the arguments are as many as the callee takes.
      obtain ⟨same, counts⟩ := upheld
      simp only [handle]
      cases entered : enter m callee args (frame :: s.callers).length with
      | error fault => exact enter_error_of_params counts entered
      | ok f =>
        exact List.forall_mem_cons.mpr ⟨enter_equipped linked declared entered,
          List.forall_mem_cons.mpr ⟨current.congr same, callers⟩⟩
    | finish result =>
      cases waiting : s.callers with
      | nil =>
        simp only [handle, waiting]
        exact trivial
      | cons caller others =>
        rw [waiting] at callers
        obtain ⟨first, rest⟩ := List.forall_mem_cons.mp callers
        simp only [handle, waiting]
        refine List.forall_mem_cons.mpr ⟨?_, rest⟩
        -- The caller gets a value on its stack at most.
        cases s.current.kept with
        | true => exact first.congr (caller.sameSlots_refl.move _ _)
        | false => exact first

end Machine

namespace Module

variable {m : Module} {method : MethodRef} {args : List Value}

/-- Every state that a call reaches is equipped. -/
theorem Reaches.equipped (linked : m.Linked) (declared : m.SlotsDeclared) {s : Machine}
    (reached : m.Reaches method args s) : s.Equipped := by
  obtain ⟨frame, entered, steps⟩ := reached
  induction steps with
  | refl =>
    exact List.forall_mem_cons.mpr ⟨Machine.enter_equipped linked declared entered, by simp⟩
  | tail _ next ih =>
    obtain ⟨i, fetched, stepped⟩ := next
    have upheld := Machine.step_upholds linked declared ih fetched
    rw [stepped] at upheld
    exact upheld

/-- No instruction that a call executes fails for its slots. -/
theorem Reaches.step_error (linked : m.Linked) (declared : m.SlotsDeclared) {s : Machine}
    (reached : m.Reaches method args s) {i : Instruction} (fetched : s.current.fetch? = some i)
    {fault : Fault} (failed : Machine.step m s i = .error fault) : ¬fault.OfSlots := by
  have upheld := Machine.step_upholds linked declared (reached.equipped linked declared) fetched
  rw [failed] at upheld
  exact upheld

/-- A call that fails for its slots is refused at its entry, for the number of its arguments. -/
theorem enter_of_call (linked : m.Linked) (declared : m.SlotsDeclared) {limit : Nat}
    {fault : Fault} (failed : m.call limit method args = .error fault) (slots : fault.OfSlots) :
    args.length ≠ method.params.length ∧ Machine.enter m method args 0 = .error fault ∧
      fault = .arity method.qualified method.params.length args.length := by
  unfold call at failed
  cases entered : Machine.enter m method args 0 with
  | error e =>
    rw [entered] at failed
    cases failed
    rcases Machine.enter_error entered with
      rfl | rfl | ⟨target, resolved, rfl | rfl | ⟨rfl, differ⟩⟩
    · exact slots.elim
    · exact slots.elim
    · exact slots.elim
    · exact slots.elim
    · rw [params_of_resolve resolved] at differ ⊢
      exact ⟨differ, rfl, rfl⟩
  | ok frame =>
    rw [entered] at failed
    obtain ⟨t, steps, stopped⟩ := Machine.run_error failed
    rcases stopped with ⟨_, rfl⟩ | rfl | ⟨i, fetched, stepped⟩
    · exact slots.elim
    · exact slots.elim
    · have reached : m.Reaches method args t := ⟨frame, entered, steps⟩
      exact absurd slots (reached.step_error linked declared fetched stepped)

end Module

namespace Pass

/-- After a pass that succeeds, no call looks for a slot in vain. A call is refused for the number
of its arguments at its entry only, when they are not as many as the parameters of the reference;
no call that it makes in turn is. -/
theorem run_rules_out_bad_slots {σ : Type} {rules : List (Rule σ)}
    (builtIn : ∀ rule ∈ rules, rule.BuiltIn) (checked : Bool) (m : Module) (state : σ)
    (report : Report) (linked : m.Linked)
    (succeeded : (run rules checked m state).result = .ok report) (method : MethodRef)
    (args : List Value) :
    let edited := (run rules checked m state).edited
    (∀ limit slot name, edited.call limit method args ≠ .error (.badIndex slot name)) ∧
      (∀ limit name expected actual,
        edited.call limit method args = .error (.arity name expected actual) →
        args.length ≠ method.params.length ∧
          Machine.enter edited method args 0 = .error (.arity name expected actual) ∧
          name = method.qualified ∧ expected = method.params.length ∧ actual = args.length) ∧
      ∀ s i name expected actual, edited.Reaches method args s → s.current.fetch? = some i →
        Machine.step edited s i ≠ .error (.arity name expected actual) := by
  obtain ⟨linked, declared⟩ := slotsDeclared_of_run builtIn linked succeeded
  refine ⟨?_, ?_, ?_⟩
  · intro limit slot name failed
    cases (Module.enter_of_call linked declared failed trivial).2.2
  · intro limit name expected actual failed
    obtain ⟨differ, refused, same⟩ := Module.enter_of_call linked declared failed trivial
    cases same
    exact ⟨differ, refused, rfl, rfl, rfl⟩
  · intro s i name expected actual reached fetched failed
    exact reached.step_error linked declared fetched failed trivial

/-- In the sample program the pass takes out code on both sides of the nested calls. One argument
is too few. -/
theorem run_rules_out_bad_slots_sample :
    let rules := standardRules Sample.bindings Sample.factory
    let edited := (run rules true Sample.program {}).edited
    (∀ rule ∈ rules, rule.BuiltIn) ∧ Sample.program.Linked ∧
      (run rules true Sample.program {}).result = .ok ⟨3, 29, 9⟩ ∧
      edited.call 20 Sample.quadRef [.null, .int32 3] = .ok (.int32 12) ∧
      edited.call 20 Sample.quadRef [.null] = .error (.arity "Program::Quad" 2 1) ∧
      ∀ limit slot name, edited.call limit Sample.quadRef [.null, .int32 3] ≠
        .error (.badIndex slot name) := by
  have builtIn := standardRules_builtIn Sample.bindings Sample.factory
  have linked := Module.linked_of_load Sample.load_document
  exact ⟨builtIn, linked, run_sample, by decide +kernel, by decide +kernel,
    (run_rules_out_bad_slots builtIn true _ {} _ linked run_sample _ _).1⟩

end Pass

end NativeBridge
