import NativeBridge.Proofs.Loading
import NativeBridge.Proofs.Survivors

/-! Histories of edits. Edits are made in place, one write after the other, and may be refused. A
refused one has written nothing, and after every history each branch and each handler boundary
names a live instruction, as long as it did when it was supplied. -/

namespace NativeBridge.Body

/-- A program that edits a body in place. What it has written when it fails stays written. -/
abbrev InPlace (α : Type) := ExceptT EditError (StateM Body) α

namespace InPlace

/-- What a program returns and the body it leaves. -/
def outcome {α : Type} (program : InPlace α) (b : Body) : Except EditError α × Body :=
  program.run.run b

/-- The place of an identity that must be live. -/
def place (id : InstrId) : InPlace Nat := do
  match (← get).place id with
  | .ok place => return place
  | .error e => throw e

def alloc (i : Instruction) : InPlace InstrId := do
  let id : InstrId := ⟨(← get).arena.length⟩
  modify fun b => { b with arena := b.arena ++ [i] }
  return id

def enlist (place : Nat) (id : InstrId) : InPlace Unit :=
  modify fun b => { b with order := b.order.insertIdx place id }

def push (i : Instruction) : InPlace InstrId := do
  let id ← alloc i
  modify fun b => { b with order := b.order ++ [id] }
  return id

def insertBefore (anchor : InstrId) (i : Instruction) : InPlace InstrId := do
  let place ← place anchor
  let id ← alloc i
  enlist place id
  return id

def insertAfter (anchor : InstrId) (i : Instruction) : InPlace InstrId := do
  let place ← place anchor
  let id ← alloc i
  enlist (place + 1) id
  return id

def replace (id : InstrId) (i : Instruction) : InPlace Unit := do
  let _ ← place id
  modify fun b => { b with arena := b.arena.set id.index i }

def release (id : InstrId) (successor : Option InstrId) : InPlace Unit := do
  if (← get).isReferenced id then
    match successor with
    | none => throw (.dangling id)
    | some heir => modify (·.retarget id heir)

def remove (id : InstrId) : InPlace Unit := do
  let place ← place id
  let successor := (← get).order[place + 1]?
  release id successor
  modify fun b => { b with handlers := b.handlers.map (·.moveEnds id successor) }
  modify fun b => { b with order := b.order.eraseIdx place }

end InPlace

/-- One edit of a body. -/
inductive Change where
  | push (i : Instruction)
  | insertBefore (anchor : InstrId) (i : Instruction)
  | insertAfter (anchor : InstrId) (i : Instruction)
  | replace (id : InstrId) (i : Instruction)
  | remove (id : InstrId)
  | addLocal (l : Local)
  | addHandler (h : Handler)
  | setReceiver (hasReceiver : Bool)
deriving DecidableEq, Repr

namespace Change

/-- Makes a change in place; returns the identity of the instruction that it adds. -/
def perform : Change → InPlace (Option InstrId)
  | .push i => do return some (← InPlace.push i)
  | .insertBefore anchor i => do return some (← InPlace.insertBefore anchor i)
  | .insertAfter anchor i => do return some (← InPlace.insertAfter anchor i)
  | .replace id i => do InPlace.replace id i; return none
  | .remove id => do InPlace.remove id; return none
  | .addLocal l => do modify fun b => (b.addLocal l).2; return none
  | .addHandler h => do modify fun b => b.addHandler h; return none
  | .setReceiver hasReceiver => do
    modify fun b => { b with hasReceiver := hasReceiver }
    return none

/-- What the edits of bodies make of a body. -/
def apply (b : Body) : Change → Except EditError (Option InstrId × Body)
  | .push i => .ok (some (b.push i).1, (b.push i).2)
  | .insertBefore anchor i => (b.insertBefore anchor i).map fun r => (some r.1, r.2)
  | .insertAfter anchor i => (b.insertAfter anchor i).map fun r => (some r.1, r.2)
  | .replace id i => (b.replace id i).map fun r => (none, r.2)
  | .remove id => (b.remove id).map fun r => (none, r.2)
  | .addLocal l => .ok (none, (b.addLocal l).2)
  | .addHandler h => .ok (none, b.addHandler h)
  | .setReceiver hasReceiver => .ok (none, { b with hasReceiver := hasReceiver })

end Change

/-- Releasing an instruction changes nothing of the others but targets that name it. -/
theorem get?_of_release {b r : Body} {id : InstrId} {next : Option InstrId}
    (released : b.release id next = .ok r) (x : InstrId) :
    r.get? x = b.get? x ∨ ∃ heir, next = some heir ∧
      r.get? x = (b.get? x).map (·.mapTarget (handOver id (some heir))) := by
  unfold Body.release at released
  split at released
  · cases next with
    | none => cases released
    | some heir =>
      cases released
      exact Or.inr ⟨heir, rfl, b.get?_retarget id heir x⟩
  · cases released
    exact Or.inl rfl

theorem get?_of_place {b : Body} {id : InstrId} {place : Nat} (found : b.place id = .ok place) :
    (∃ i, b.get? id = some i) ∧ b.position? id = some place := by
  unfold Body.place at found
  cases held : b.get? id with
  | none => simp [held] at found
  | some i =>
    cases there : b.position? id with
    | none => simp [held, there] at found
    | some p =>
      simp only [held, there, Except.ok.injEq] at found
      subst found
      exact ⟨⟨i, rfl⟩, rfl⟩

namespace InPlace

variable {α β : Type} (b : Body)

theorem outcome_bind (program : InPlace α) (f : α → InPlace β) :
    (program >>= f).outcome b = match program.outcome b with
      | (.ok a, between) => (f a).outcome between
      | (.error e, between) => (.error e, between) := by
  change StateT.run (ExceptT.run program >>= ExceptT.bindCont f) b = _
  rw [StateT.run_bind]
  change _ = match StateT.run (ExceptT.run program) b with
      | (.ok a, between) => (f a).outcome between
      | (.error e, between) => (.error e, between)
  rcases StateT.run (ExceptT.run program) b with ⟨result, between⟩
  cases result <;> rfl

theorem outcome_place (id : InstrId) : (place id).outcome b = (b.place id, b) := by
  unfold place
  rw [outcome_bind, show (get : InPlace Body).outcome b = (.ok b, b) from rfl]
  dsimp only
  cases b.place id <;> rfl

/-- What an edit that may be refused comes to when it is made in place. -/
def settle (result : Except EditError (α × Body)) (b : Body) : Except EditError α × Body :=
  match result with
  | .ok (value, after) => (.ok value, after)
  | .error e => (.error e, b)

theorem outcome_insertBefore (anchor : InstrId) (i : Instruction) :
    (insertBefore anchor i).outcome b = settle (b.insertBefore anchor i) b := by
  unfold insertBefore Body.insertBefore
  rw [outcome_bind, outcome_place]
  cases b.place anchor <;> rfl

theorem outcome_insertAfter (anchor : InstrId) (i : Instruction) :
    (insertAfter anchor i).outcome b = settle (b.insertAfter anchor i) b := by
  unfold insertAfter Body.insertAfter
  rw [outcome_bind, outcome_place]
  cases b.place anchor <;> rfl

theorem outcome_replace (id : InstrId) (i : Instruction) :
    (replace id i).outcome b = settle ((b.replace id i).map fun r => ((), r.2)) b := by
  unfold replace Body.replace
  rw [outcome_bind, outcome_place]
  cases found : b.place id with
  | error e => rfl
  | ok place =>
    obtain ⟨⟨old, held⟩, _⟩ := get?_of_place found
    simp only [Success.ok_bind, held]
    rfl

theorem outcome_release (id : InstrId) (successor : Option InstrId) :
    (release id successor).outcome b =
      settle ((b.release id successor).map fun r => ((), r)) b := by
  unfold release Body.release
  rw [outcome_bind, show (get : InPlace Body).outcome b = (.ok b, b) from rfl]
  dsimp only
  cases b.isReferenced id with
  | false => rfl
  | true => cases successor <;> rfl

theorem outcome_remove (id : InstrId) :
    (remove id).outcome b = settle ((b.remove id).map fun r => ((), r.2)) b := by
  unfold remove Body.remove
  rw [outcome_bind, outcome_place]
  cases found : b.place id with
  | error e => rfl
  | ok place =>
    obtain ⟨⟨old, held⟩, _⟩ := get?_of_place found
    simp only [Success.ok_bind]
    rw [outcome_bind, show (get : InPlace Body).outcome b = (.ok b, b) from rfl]
    dsimp only
    rw [outcome_bind, outcome_release]
    cases released : b.release id b.order[place + 1]? with
    | error e => rfl
    | ok r =>
      -- The arena still holds the instruction, so nothing can be refused from here on.
      have still : ∃ i, r.get? id = some i := by
        rcases get?_of_release released id with same | ⟨heir, _, moved⟩
        · exact ⟨old, same.trans held⟩
        · exact ⟨_, moved.trans (congrArg _ held)⟩
      obtain ⟨i, kept⟩ := still
      simp only [Success.ok_bind, kept]
      rfl

end InPlace

/-- Made in place, a change does what the edits of bodies say, and nothing if they refuse it. -/
theorem Change.outcome_perform (b : Body) (c : Change) :
    c.perform.outcome b = InPlace.settle (c.apply b) b := by
  cases c with
  | push i => rfl
  | insertBefore anchor i =>
    rw [perform, InPlace.outcome_bind, InPlace.outcome_insertBefore, apply]
    cases b.insertBefore anchor i <;> rfl
  | insertAfter anchor i =>
    rw [perform, InPlace.outcome_bind, InPlace.outcome_insertAfter, apply]
    cases b.insertAfter anchor i <;> rfl
  | replace id i =>
    rw [perform, InPlace.outcome_bind, InPlace.outcome_replace, apply]
    cases b.replace id i <;> rfl
  | remove id =>
    rw [perform, InPlace.outcome_bind, InPlace.outcome_remove, apply]
    cases b.remove id <;> rfl
  | addLocal l => rfl
  | addHandler h => rfl
  | setReceiver hasReceiver => rfl

/-- A replacement that succeeds overwrites one instruction of the arena. -/
theorem replace_ok {b c : Body} {id : InstrId} {i old : Instruction}
    (replaced : b.replace id i = .ok (old, c)) :
    id ∈ b.order ∧ c = { b with arena := b.arena.set id.index i } := by
  unfold Body.replace at replaced
  obtain ⟨place, found, replaced⟩ := (Success.bind_ok_iff ..).mp replaced
  obtain ⟨⟨held, known⟩, position⟩ := get?_of_place found
  simp only [known, Success.pure_ok_iff, Prod.mk.injEq] at replaced
  exact ⟨(b.position?_isSome_iff id).mp ⟨place, position⟩, replaced.2.symm⟩

/-- A removal that succeeds has released the instruction and taken it out of the order. -/
theorem remove_ok {b c : Body} {id : InstrId} {i : Instruction}
    (removed : b.remove id = .ok (i, c)) :
    id ∈ b.order ∧ ∃ r, b.release id (b.next? id) = .ok r ∧ c.arena = r.arena := by
  unfold Body.remove at removed
  obtain ⟨place, found, removed⟩ := (Success.bind_ok_iff ..).mp removed
  obtain ⟨r, released, removed⟩ := (Success.bind_ok_iff ..).mp removed
  have position := (get?_of_place found).2
  refine ⟨(b.position?_isSome_iff id).mp ⟨place, position⟩, r, ?_, ?_⟩
  · rw [next?, position]
    exact released
  · cases held : r.get? id with
    | none => simp [held] at removed
    | some j =>
      simp only [held, Success.pure_ok_iff, Prod.mk.injEq] at removed
      rw [← removed.2]

/-- Overwriting an identity leaves what all others name. -/
theorem get?_set (b : Body) (id x : InstrId) (i : Instruction) :
    { b with arena := b.arena.set id.index i }.get? x =
      if x = id then (b.get? x).map fun _ => i else b.get? x := by
  unfold get?
  by_cases same : x = id
  · subst same
    rw [if_pos rfl, List.getElem?_set_self']
    rfl
  · have other : id.index ≠ x.index := by
      intro equal
      cases x
      cases id
      exact same (congrArg InstrId.mk equal.symm)
    rw [if_neg same, List.getElem?_set_ne other]

namespace Sound

variable {b c : Body}

/-- An instruction that is added is live, and so is what it names. -/
theorem insert (sound : b.Sound) {i : Instruction} {order : List InstrId}
    (live : ∀ t ∈ i.target?, t ∈ b.order)
    (added : order.Perm (⟨b.arena.length⟩ :: b.order)) :
    { b with arena := b.arena ++ [i], order := order }.Sound := by
  have fresh : (⟨b.arena.length⟩ : InstrId) ∉ b.order := by
    intro member
    have inside := sound.present _ member
    simp at inside
  have listed : ∀ x, x ∈ b.order → x ∈ order := fun x member =>
    added.mem_iff.mpr (List.mem_cons_of_mem _ member)
  refine ⟨⟨?_, ?_⟩, ?_, ?_, ?_⟩
  · exact added.nodup_iff.mpr (List.nodup_cons.mpr ⟨fresh, sound.distinct⟩)
  · intro x member
    rw [List.length_append, List.length_singleton]
    rcases List.mem_cons.mp (added.mem_iff.mp member) with rfl | old
    · exact Nat.lt_succ_self _
    · exact Nat.lt_succ_of_lt (sound.present x old)
  · rintro ⟨x, j⟩ member t named
    obtain ⟨member, held⟩ := (mem_code_iff _ x j).mp member
    rcases List.mem_cons.mp (added.mem_iff.mp member) with rfl | old
    · -- The new instruction: what it names was live before it came.
      simp only [get?, List.getElem?_concat_length, Option.some.injEq] at held
      subst held
      exact listed t (live t named)
    · have inside := sound.present x old
      rw [get?, List.getElem?_append_left inside] at held
      exact listed t (sound.branch (x, j) ((b.mem_code_iff x j).mpr ⟨old, held⟩) t named)
  · exact fun h member t named => listed t (sound.start h member t named)
  · exact fun h member t named => listed t (sound.finish h member t named)

theorem replace (sound : b.Sound) {id : InstrId} {i old : Instruction}
    (live : ∀ t ∈ i.target?, t ∈ b.order) (replaced : b.replace id i = .ok (old, c)) :
    c.Sound := by
  obtain ⟨_, rfl⟩ := replace_ok replaced
  refine ⟨⟨sound.distinct, ?_⟩, ?_, sound.start, sound.finish⟩
  · intro x member
    rw [List.length_set]
    exact sound.present x member
  · rintro ⟨x, j⟩ member t named
    obtain ⟨member, held⟩ := (mem_code_iff _ x j).mp member
    rw [get?_set] at held
    split at held
    · obtain ⟨_, _, rfl⟩ := Option.map_eq_some_iff.mp held
      exact live t named
    · exact sound.branch (x, j) ((b.mem_code_iff x j).mpr ⟨member, held⟩) t named

theorem remove (sound : b.Sound) {id : InstrId} {i : Instruction}
    (removed : b.remove id = .ok (i, c)) : c.Sound := by
  have live := (remove_ok removed).1
  obtain ⟨j, held⟩ := get?_isSome_of_live sound.toWellFormed live
  obtain ⟨before, after, split⟩ := List.append_of_mem ((b.mem_code_iff id j).mpr ⟨live, held⟩)
  have retained := sound.retains_code
  rw [split] at retained
  exact (retained.remove sound.distinct removed).sound sound.distinct

theorem addHandler (sound : b.Sound) {h : Handler} (live : ∀ t ∈ h.starts ++ h.ends, t ∈ b.order) :
    (b.addHandler h).Sound := by
  have known : ∀ g ∈ (b.addHandler h).handlers, g ∈ b.handlers ∨ g = h := by
    simp [Body.addHandler]
  refine ⟨⟨sound.distinct, sound.present⟩, sound.branch, fun g member t named => ?_,
    fun g member t named => ?_⟩
  · rcases known g member with old | rfl
    · exact sound.start g old t named
    · exact live t (List.mem_append_left _ named)
  · rcases known g member with old | rfl
    · exact sound.finish g old t named
    · exact live t (List.mem_append_right _ named)

end Sound

namespace Change

/-- The instruction that a change adds. -/
def added? : Change → Option Instruction
  | .push i | .insertBefore _ i | .insertAfter _ i => some i
  | _ => none

/-- The identities that a change supplies as branch targets or as boundaries of handlers. -/
def references : Change → List InstrId
  | .push i | .insertBefore _ i | .insertAfter _ i | .replace _ i => i.target?.toList
  | .addHandler h => h.starts ++ h.ends
  | .remove _ | .addLocal _ | .setReceiver _ => []

/-- How a change may alter what an identity names: it is replaced itself, or its branch is led from
an instruction that goes to the next one. -/
inductive Alters (b : Body) (id : InstrId) (i : Instruction) : Change → Instruction → Prop
  | kept (c : Change) : Alters b id i c i
  | replaced (j : Instruction) : Alters b id i (.replace id j) j
  | repointed {gone heir : InstrId} (named : i.target? = some gone)
      (next : b.next? gone = some heir) :
      Alters b id i (.remove gone) (i.mapTarget fun _ => heir)

variable {b d : Body} {c : Change} {id : InstrId}

theorem insertIdx_perm {place : Nat} {anchor : InstrId} (found : b.place anchor = .ok place)
    (id : InstrId) :
    (b.order.insertIdx place id).Perm (id :: b.order) ∧
      (b.order.insertIdx (place + 1) id).Perm (id :: b.order) := by
  have inside := position?_lt (get?_of_place found).2
  exact ⟨List.perm_insertIdx _ _ (Nat.le_of_lt inside), List.perm_insertIdx _ _ inside⟩

/-- A change that adds an instruction gives it the next place of the arena. -/
theorem apply_adds {i : Instruction} {reply : Option InstrId} (adds : c.added? = some i)
    (applied : c.apply b = .ok (reply, d)) :
    reply = some ⟨b.arena.length⟩ ∧ ∃ order : List InstrId,
      order.Perm (⟨b.arena.length⟩ :: b.order) ∧
        d = { b with arena := b.arena ++ [i], order := order } := by
  cases c with
  | push j =>
    cases adds
    cases applied
    exact ⟨rfl, _, List.perm_append_singleton _ _, rfl⟩
  | insertBefore anchor j =>
    cases adds
    obtain ⟨⟨new, after⟩, inserted, equal⟩ := (Success.map_ok_iff ..).mp applied
    obtain ⟨place, found, inserted⟩ := (Success.bind_ok_iff ..).mp inserted
    cases inserted
    cases equal
    exact ⟨rfl, _, (insertIdx_perm found _).1, rfl⟩
  | insertAfter anchor j =>
    cases adds
    obtain ⟨⟨new, after⟩, inserted, equal⟩ := (Success.map_ok_iff ..).mp applied
    obtain ⟨place, found, inserted⟩ := (Success.bind_ok_iff ..).mp inserted
    cases inserted
    cases equal
    exact ⟨rfl, _, (insertIdx_perm found _).2, rfl⟩
  | replace _ _ | remove _ | addLocal _ | addHandler _ | setReceiver _ => cases adds

/-- An identity that is returned was not in use; it is live and names what was added. -/
theorem apply_returns (applied : c.apply b = .ok (some id, d)) :
    b.get? id = none ∧ id ∈ d.order ∧ d.get? id = c.added? := by
  have adds : ∃ i, c.added? = some i := by
    cases c with
    | push i | insertBefore _ i | insertAfter _ i => exact ⟨i, rfl⟩
    | replace _ _ | remove _ =>
      obtain ⟨_, _, equal⟩ := (Success.map_ok_iff ..).mp applied
      cases equal
    | addLocal _ | addHandler _ | setReceiver _ => cases applied
  obtain ⟨i, adds⟩ := adds
  obtain ⟨new, order, added, rfl⟩ := apply_adds adds applied
  obtain rfl := Option.some.inj new
  refine ⟨List.getElem?_eq_none (Nat.le_refl _), added.mem_iff.mpr List.mem_cons_self, ?_⟩
  rw [adds]
  exact List.getElem?_concat_length ..

/-- One change keeps every reference live. -/
theorem sound_apply (sound : b.Sound) (live : ∀ t ∈ c.references, t ∈ b.order)
    {reply : Option InstrId} (applied : c.apply b = .ok (reply, d)) : d.Sound := by
  cases c with
  | push i | insertBefore _ i | insertAfter _ i =>
    obtain ⟨_, order, added, rfl⟩ := apply_adds rfl applied
    exact sound.insert (fun t named => live t (Option.mem_toList.mpr named)) added
  | replace id i =>
    obtain ⟨⟨old, after⟩, replaced, equal⟩ := (Success.map_ok_iff ..).mp applied
    cases equal
    exact sound.replace (fun t named => live t (Option.mem_toList.mpr named)) replaced
  | remove id =>
    obtain ⟨⟨old, after⟩, removed, equal⟩ := (Success.map_ok_iff ..).mp applied
    cases equal
    exact sound.remove removed
  | addLocal l =>
    cases applied
    exact ⟨⟨sound.distinct, sound.present⟩, sound.branch, sound.start, sound.finish⟩
  | addHandler h =>
    cases applied
    exact sound.addHandler live
  | setReceiver hasReceiver =>
    cases applied
    exact sound.withReceiver hasReceiver

/-- One change leaves what an identity names, but for its own replacement and its branch. -/
theorem apply_alters {i : Instruction} {reply : Option InstrId} (held : b.get? id = some i)
    (applied : c.apply b = .ok (reply, d)) : ∃ j, d.get? id = some j ∧ c.Alters b id i j := by
  cases c with
  | push _ | insertBefore _ _ | insertAfter _ _ =>
    obtain ⟨_, _, _, rfl⟩ := apply_adds rfl applied
    obtain ⟨inside, _⟩ := List.getElem?_eq_some_iff.mp held
    exact ⟨i, (List.getElem?_append_left inside).trans held, .kept _⟩
  | replace x j =>
    obtain ⟨⟨old, after⟩, replaced, equal⟩ := (Success.map_ok_iff ..).mp applied
    cases equal
    obtain ⟨_, rfl⟩ := replace_ok replaced
    rw [get?_set, held]
    split
    next same =>
      subst same
      exact ⟨j, rfl, .replaced j⟩
    next => exact ⟨i, rfl, .kept _⟩
  | remove gone =>
    obtain ⟨⟨old, after⟩, removed, equal⟩ := (Success.map_ok_iff ..).mp applied
    cases equal
    obtain ⟨_, r, released, arena⟩ := remove_ok removed
    have same : after.get? id = r.get? id := by rw [get?, get?, arena]
    rw [same]
    rcases get?_of_release released id with unmoved | ⟨heir, next, moved⟩
    · exact ⟨i, unmoved.trans held, .kept _⟩
    · rw [moved, held, Option.map_some]
      refine ⟨_, rfl, ?_⟩
      by_cases named : i.target? = some gone
      · have led : i.mapTarget (handOver gone (some heir)) = i.mapTarget fun _ => heir := by
          apply Instruction.mapTarget_congr
          intro t aim
          cases named.symm.trans aim
          exact if_pos rfl
        rw [led]
        exact .repointed named next
      · rw [Instruction.mapTarget_eq_self]
        · exact .kept _
        · intro t aim
          refine if_neg ?_
          rintro rfl
          exact named aim
  | addLocal _ | addHandler _ | setReceiver _ =>
    cases applied
    exact ⟨i, held, .kept _⟩

/-- A change that is refused leaves the body as it was. -/
theorem outcome_of_error {e : EditError} (refused : (c.perform.outcome b).1 = .error e) :
    (c.perform.outcome b).2 = b := by
  rw [outcome_perform] at refused ⊢
  cases applied : c.apply b with
  | error cause => rfl
  | ok value =>
    rw [applied] at refused
    cases refused

/-- Whether it is refused or not, a change is made by the edits or makes no difference. -/
theorem outcome_cases (b : Body) (c : Change) :
    (c.perform.outcome b).2 = b ∨
      ∃ reply, c.apply b = .ok (reply, (c.perform.outcome b).2) := by
  rw [outcome_perform]
  cases c.apply b with
  | error e => exact Or.inl rfl
  | ok value => exact Or.inr ⟨value.1, rfl⟩

end Change

/-- The body after a history of changes, made or refused. -/
def after (b : Body) (history : List Change) : Body :=
  history.foldl (fun b c => (c.perform.outcome b).2) b

/-- Whatever the changes of a history supply as a reference is live when they supply it. -/
def Grounded : Body → List Change → Prop
  | _, [] => True
  | b, c :: history =>
    (∀ t ∈ c.references, t ∈ b.order) ∧ Grounded (c.perform.outcome b).2 history

instance decidableGrounded : (b : Body) → (history : List Change) → Decidable (b.Grounded history)
  | _, [] => isTrue trivial
  | b, c :: history =>
    have := decidableGrounded (c.perform.outcome b).2 history
    inferInstanceAs (Decidable ((∀ t ∈ c.references, t ∈ b.order) ∧ _))

section history

variable {b : Body} {history later : List Change} {id : InstrId} {i : Instruction}

theorem after_append (b : Body) (earlier later : List Change) :
    b.after (earlier ++ later) = (b.after earlier).after later := List.foldl_append

/-- A whole history keeps every reference live. -/
theorem Sound.after (sound : b.Sound) (grounded : b.Grounded history) :
    (b.after history).Sound := by
  induction history generalizing b with
  | nil => exact sound
  | cons c history ih =>
    obtain ⟨live, grounded⟩ := grounded
    have next : (c.perform.outcome b).2.Sound := by
      rcases c.outcome_cases b with same | ⟨reply, applied⟩
      · rwa [same]
      · exact Change.sound_apply sound live applied
    exact ih next grounded

/-- A whole history leaves what an identity names, but for its replacements and its branch. -/
theorem get?_after (held : b.get? id = some i) :
    ∃ j, (b.after later).get? id = some j ∧
      ((∀ k, Change.replace id k ∉ later) → ∃ move, j = i.mapTarget move) := by
  induction later generalizing b i with
  | nil => exact ⟨i, held, fun _ => ⟨fun t => t, (Instruction.mapTarget_eq_self (by simp)).symm⟩⟩
  | cons c later ih =>
    -- What the identity names after the first change, and how that differs.
    have first : ∃ j, (c.perform.outcome b).2.get? id = some j ∧ c.Alters b id i j := by
      rcases c.outcome_cases b with same | ⟨reply, applied⟩
      · rw [same]
        exact ⟨i, held, .kept c⟩
      · exact Change.apply_alters held applied
    obtain ⟨j, between, altered⟩ := first
    obtain ⟨k, final, rest⟩ := ih between
    refine ⟨k, final, fun untouched => ?_⟩
    obtain ⟨move, rfl⟩ := rest fun l member => untouched l (List.mem_cons_of_mem c member)
    cases altered with
    | kept => exact ⟨move, rfl⟩
    | replaced => exact absurd List.mem_cons_self (untouched j)
    | repointed => exact ⟨_, Instruction.mapTarget_mapTarget ..⟩

end history

/-- After every history of edits, successful or refused, of a body that was stored or is empty, in
which each reference is live when it is supplied: the live identities are distinct and inside the
arena, and all branches and boundaries of handlers name live instructions. An identity that was
returned is a new place of the arena and keeps naming it; only its replacement or the re-pointing of
its branch alters what is there. Every change that is refused leaves the whole body as it was. -/
theorem references_live_after (origin : Body)
    (fresh : (∃ stored : StoredBody, stored.toBody = .ok origin) ∨
      ∃ hasReceiver, origin = { hasReceiver := hasReceiver })
    (history : List Change) (grounded : origin.Grounded history) :
    (origin.after history).Sound ∧
      (∀ earlier c later, history = earlier ++ c :: later →
        let b := origin.after earlier
        let outcome := c.perform.outcome b
        (∀ e, outcome.1 = .error e → outcome.2 = b) ∧
        (∀ id, outcome.1 = .ok (some id) →
          b.get? id = none ∧ id ∈ outcome.2.order ∧ outcome.2.get? id = c.added?) ∧
        ∀ id i, b.get? id = some i → ∃ j, outcome.2.get? id = some j ∧ c.Alters b id i j) ∧
      ∀ earlier later, history = earlier ++ later →
        ∀ id i, (origin.after earlier).get? id = some i →
          ∃ j, (origin.after history).get? id = some j ∧
            ((∀ k, Change.replace id k ∉ later) → ∃ move, j = i.mapTarget move) := by
  have sound : origin.Sound := by
    rcases fresh with ⟨stored, described⟩ | ⟨hasReceiver, rfl⟩
    · exact StoredBody.sound_of_toBody described
    · exact ⟨⟨List.nodup_nil, by simp⟩, by simp [code], by simp, by simp⟩
  refine ⟨sound.after grounded, fun earlier c later _ => ⟨?_, ?_, ?_⟩, ?_⟩
  · exact fun e refused => Change.outcome_of_error refused
  · intro id returned
    rw [Change.outcome_perform] at returned ⊢
    cases applied : c.apply (origin.after earlier) with
    | error e =>
      rw [applied] at returned
      cases returned
    | ok value =>
      rw [applied] at returned
      obtain ⟨reply, d⟩ := value
      cases returned
      exact Change.apply_returns applied
  · intro id i held
    rcases c.outcome_cases (origin.after earlier) with same | ⟨reply, applied⟩
    · rw [same]
      exact ⟨i, held, .kept c⟩
    · exact Change.apply_alters held applied
  · rintro earlier later rfl id i held
    rw [after_append]
    exact get?_after held

/-- A branch over an instruction that also ends one region of a handler and starts the other. -/
def sampleStored : StoredBody where
  instructions := [⟨.br, .target ⟨1⟩⟩, ⟨.nop, .none⟩, ⟨.ret, .none⟩]
  handlers := [{ kind := .finalizing, tryStart := ⟨0⟩, tryEnd := some ⟨1⟩, handlerStart := ⟨1⟩ }]

/-- Takes that instruction out and puts others around the rest. The second and the fourth change are
refused: one instruction is gone already, the other is named and has nothing behind it. -/
def sampleHistory : List Change :=
  [.remove ⟨1⟩, .remove ⟨1⟩, .insertBefore ⟨2⟩ ⟨.brtrue, .target ⟨0⟩⟩, .remove ⟨2⟩,
    .insertAfter ⟨2⟩ ⟨.nop, .none⟩, .replace ⟨3⟩ ⟨.br, .target ⟨4⟩⟩, .setReceiver true]

/-- The references of the sample end up at what was added. -/
theorem references_live_after_sample :
    ∃ origin, sampleStored.toBody = .ok origin ∧ origin.Grounded sampleHistory ∧
      (origin.after sampleHistory).Sound ∧
      (origin.after sampleHistory).order.map (·.index) = [0, 3, 2, 4] ∧
      (origin.after sampleHistory).get? ⟨0⟩ = some ⟨.br, .target ⟨2⟩⟩ := by
  let origin := sampleStored.toBody.toOption.getD default
  have described : sampleStored.toBody = .ok origin := by decide +kernel
  have grounded : origin.Grounded sampleHistory := by decide +kernel
  have kept := references_live_after origin (Or.inl ⟨_, described⟩) sampleHistory grounded
  exact ⟨origin, described, grounded, kept.1, by decide +kernel, by decide +kernel⟩

end NativeBridge.Body
