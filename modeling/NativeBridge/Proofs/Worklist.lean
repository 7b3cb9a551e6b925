import NativeBridge.Proofs.DepthTyping
import Mathlib.Logic.Relation

/-! The search behind the stack check. Arrivals are pending until they are taken, one after another;
the check takes the latest first. In whatever order they are taken the search ends, and it fails
exactly if there are no depths that fit together for the places that control can reach. -/

namespace NativeBridge.Body

/-- A search under way: the arrivals that are pending and the depths recorded so far. -/
structure Search where
  pending : List Arrival
  depths : List (Option Nat)

namespace Search

/-- A search that has not begun. -/
def initial (b : Body) : Search := ⟨b.entries, List.replicate b.size none⟩

/-- Takes an arrival; returns those that it causes, and the depths with its own among them. -/
def settle (b : Body) (returnsValue : Bool) (depths : List (Option Nat)) (a : Arrival) :
    Except StackFault (List Arrival × List (Option Nat)) :=
  match b.code[a.1]? with
  | none => .ok ([], depths)
  | some (site, i) =>
    match recorded depths a.1 with
    | some seen =>
      if seen = a.2 then .ok ([], depths) else .error (.depthMismatch site seen a.2)
    | none =>
      (b.checkInstruction returnsValue a.1 a.2 site i).map (·, depths.set a.1 (some a.2))

/-- One of the pending arrivals, whichever, is taken. -/
def Step (b : Body) (returnsValue : Bool) (s t : Search) : Prop :=
  ∃ a ∈ s.pending, ∃ arrivals, settle b returnsValue s.depths a = .ok (arrivals, t.depths) ∧
    t.pending.Perm (arrivals ++ s.pending.erase a)

/-- A search has come to a verdict: nothing is pending, or a pending arrival cannot be taken. -/
def Gives (b : Body) (returnsValue : Bool) (s : Search) : Except StackFault Unit → Prop
  | .ok () => s.pending = []
  | .error fault => ∃ a ∈ s.pending, settle b returnsValue s.depths a = .error fault

/-- An arrival is pending or was taken. -/
def Knows (s : Search) (a : Arrival) : Prop := a ∈ s.pending ∨ recorded s.depths a.1 = some a.2

/-- How much is left to do at most: each place without a depth may cause two arrivals. -/
def weight (s : Search) : Nat := s.pending.length + 2 * s.depths.count none

/-- What a search has found out, in whatever order. -/
structure Consistent (b : Body) (returnsValue : Bool) (s : Search) : Prop where
  sized : s.depths.length = b.size
  inside : ∀ a ∈ s.pending, a.1 < b.size
  entered : ∀ a ∈ b.entries, s.Knows a
  passed : ∀ place n, recorded s.depths place = some n →
    ∃ id i effect, b.code[place]? = some (id, i) ∧ b.Admits returnsValue place n i effect ∧
      ∀ next, b.Follows place i next → s.Knows (next, n - effect.pops + effect.pushes)

variable {b : Body} {returnsValue : Bool} {s t : Search} {a : Arrival}

/-- An arrival is taken where its depth is recorded already, or where its instruction passes the
check and no depth is recorded yet. -/
theorem settle_ok (formed : b.WellFormed) (inside : a.1 < b.size) {depths after : List (Option Nat)}
    {arrivals : List Arrival} (settled : settle b returnsValue depths a = .ok (arrivals, after)) :
    (recorded depths a.1 = some a.2 ∧ arrivals = [] ∧ after = depths) ∨
      (recorded depths a.1 = none ∧ ∃ id i effect, b.code[a.1]? = some (id, i) ∧
        b.Admits returnsValue a.1 a.2 i effect ∧
        arrivals = (b.successors a.1 i).map (·, a.2 - effect.pops + effect.pushes) ∧
        after = depths.set a.1 (some a.2)) := by
  obtain ⟨⟨site, i⟩, there⟩ : ∃ entry, b.code[a.1]? = some entry :=
    ⟨_, List.getElem?_eq_getElem ((length_code formed).symm ▸ inside)⟩
  simp only [settle, there] at settled
  cases known : recorded depths a.1 with
  | some seen =>
    simp only [known] at settled
    by_cases same : seen = a.2
    · rw [if_pos same] at settled
      cases settled
      exact Or.inl ⟨congrArg some same, rfl, rfl⟩
    · rw [if_neg same] at settled
      cases settled
  | none =>
    simp only [known, Success.map_ok_iff, Prod.mk.injEq] at settled
    obtain ⟨_, checked, rfl, rfl⟩ := settled
    obtain ⟨effect, admitted, equal⟩ := (checkInstruction_ok_iff ..).mp checked
    exact Or.inr ⟨rfl, site, i, effect, there, admitted, equal, rfl⟩

/-- What one step does. -/
theorem Step.cases (step : Step b returnsValue s t) (formed : b.WellFormed)
    (consistent : Consistent b returnsValue s) :
    ∃ a ∈ s.pending,
      (recorded s.depths a.1 = some a.2 ∧ t.depths = s.depths ∧
        t.pending.Perm (s.pending.erase a)) ∨
      (recorded s.depths a.1 = none ∧ ∃ id i effect, b.code[a.1]? = some (id, i) ∧
        b.Admits returnsValue a.1 a.2 i effect ∧ t.depths = s.depths.set a.1 (some a.2) ∧
        t.pending.Perm ((b.successors a.1 i).map (·, a.2 - effect.pops + effect.pushes) ++
          s.pending.erase a)) := by
  obtain ⟨a, member, arrivals, settled, order⟩ := step
  refine ⟨a, member, ?_⟩
  rcases settle_ok formed (consistent.inside a member) settled with
    ⟨known, rfl, same⟩ | ⟨unseen, id, i, effect, there, admitted, rfl, set⟩
  · exact Or.inl ⟨known, same, order⟩
  · exact Or.inr ⟨unseen, id, i, effect, there, admitted, set, order⟩

/-- What a search knows it does not forget. -/
theorem Knows.step {x : Arrival} (known : s.Knows x) (step : Step b returnsValue s t)
    (formed : b.WellFormed) (consistent : Consistent b returnsValue s) : t.Knows x := by
  obtain ⟨a, member, ⟨seen, same, order⟩ | ⟨unseen, _, i, effect, _, _, set, order⟩⟩ :=
    step.cases formed consistent
  · rcases known with waiting | recorded
    · by_cases taken : x = a
      · exact Or.inr (by rw [same, taken]; exact seen)
      · exact Or.inl (order.mem_iff.mpr ((List.mem_erase_of_ne taken).mpr waiting))
    · exact Or.inr (same ▸ recorded)
  · have inside : a.1 < s.depths.length := consistent.sized ▸ consistent.inside a member
    unfold Knows
    rw [set, recorded_set _ _ _ _ inside, order.mem_iff]
    rcases known with waiting | recorded
    · by_cases taken : x = a
      · exact Or.inr (by rw [taken, if_pos rfl])
      · exact Or.inl (List.mem_append_right _ ((List.mem_erase_of_ne taken).mpr waiting))
    · -- A place with a depth is not the one that gets one now.
      have other : x.1 ≠ a.1 := fun same => by simp [← same, recorded] at unseen
      exact Or.inr (by rw [if_neg other, recorded])

theorem consistent_initial (nonempty : b.size ≠ 0) :
    Consistent b returnsValue (initial b) where
  sized := List.length_replicate
  inside a member := by
    rcases (mem_entries_iff b a).mp member with rfl | ⟨h, _, place, found, rfl⟩
    · exact Nat.pos_of_ne_zero nonempty
    · exact position?_lt found
  entered _ member := Or.inl member
  passed place n known := by simp [initial, recorded_replicate] at known

theorem Consistent.step (consistent : Consistent b returnsValue s) (formed : b.WellFormed)
    (step : Step b returnsValue s t) : Consistent b returnsValue t := by
  have keeps : ∀ x, s.Knows x → t.Knows x := fun x known => known.step step formed consistent
  obtain ⟨a, member, ⟨seen, same, order⟩ | ⟨unseen, id, i, effect, there, admitted, set, order⟩⟩ :=
    step.cases formed consistent
  · refine ⟨same ▸ consistent.sized, ?_, fun x entry => keeps x (consistent.entered x entry), ?_⟩
    · exact fun x waiting => consistent.inside x (List.mem_of_mem_erase (order.mem_iff.mp waiting))
    · intro place n known
      obtain ⟨id, i, effect, there, admitted, passed⟩ := consistent.passed place n (same ▸ known)
      exact ⟨id, i, effect, there, admitted, fun next follows => keeps _ (passed next follows)⟩
  · have inside : a.1 < s.depths.length := consistent.sized ▸ consistent.inside a member
    refine ⟨by rw [set, List.length_set]; exact consistent.sized, ?_,
      fun x entry => keeps x (consistent.entered x entry), ?_⟩
    · intro x waiting
      rcases List.mem_append.mp (order.mem_iff.mp waiting) with new | old
      · obtain ⟨next, listed, rfl⟩ := List.mem_map.mp new
        exact follows_lt ((mem_successors_iff admitted next).mp listed)
      · exact consistent.inside x (List.mem_of_mem_erase old)
    · intro place n known
      rw [set, recorded_set _ _ _ _ inside] at known
      by_cases here : place = a.1
      · -- The arrivals that the place causes are pending now.
        rw [if_pos here] at known
        obtain rfl := Option.some.inj known
        refine ⟨id, i, effect, here ▸ there, here ▸ admitted, fun next follows => Or.inl ?_⟩
        have listed := (mem_successors_iff admitted next).mpr (here ▸ follows)
        exact order.mem_iff.mpr (List.mem_append_left _ (List.mem_map.mpr ⟨next, listed, rfl⟩))
      · rw [if_neg here] at known
        obtain ⟨id, i, effect, there, admitted, passed⟩ := consistent.passed place n known
        exact ⟨id, i, effect, there, admitted, fun next follows => keeps _ (passed next follows)⟩

/-- Each step leaves less to do. -/
theorem Step.weight_lt (step : Step b returnsValue s t) (formed : b.WellFormed)
    (consistent : Consistent b returnsValue s) : t.weight < s.weight := by
  obtain ⟨a, member, ⟨seen, same, order⟩ | ⟨unseen, id, i, effect, there, admitted, set, order⟩⟩ :=
    step.cases formed consistent
  · have fewer := List.length_erase_of_mem member
    have some := List.length_pos_of_mem member
    rw [weight, weight, same, order.length_eq]
    omega
  · have inside : a.1 < s.depths.length := consistent.sized ▸ consistent.inside a member
    have room := count_none_set s.depths a.1 a.2 inside unseen
    have few := b.length_successors_le a.1 i
    have fewer := List.length_erase_of_mem member
    have some := List.length_pos_of_mem member
    rw [weight, weight, set, order.length_eq, List.length_append, List.length_map]
    omega

/-- Depths agree with a search that has found nothing else. -/
structure Agrees (depth : Nat → Option Nat) (s : Search) : Prop where
  pending : ∀ a ∈ s.pending, depth a.1 = some a.2
  recorded : ∀ place n, recorded s.depths place = some n → depth place = some n

theorem agrees_initial {depth : Nat → Option Nat} (typing : b.DepthTyping returnsValue depth) :
    Agrees depth (initial b) where
  pending a member := by
    rcases (mem_entries_iff b a).mp member with rfl | ⟨h, handles, place, found, rfl⟩
    · exact typing.start
    · exact typing.handler h handles place found
  recorded place n known := by simp [initial, recorded_replicate] at known

/-- Where a typing agrees with a search, every pending arrival can be taken. -/
theorem Agrees.settle {depth : Nat → Option Nat} (agrees : Agrees depth s)
    (typing : b.DepthTyping returnsValue depth) (member : a ∈ s.pending) :
    ∃ arrivals after, settle b returnsValue s.depths a = .ok (arrivals, after) := by
  obtain ⟨site, i, effect, there, admitted, _⟩ := typing.flow a.1 a.2 (agrees.pending a member)
  simp only [Search.settle, there]
  cases known : Body.recorded s.depths a.1 with
  | some seen =>
    have same : seen = a.2 := Option.some.inj
      ((agrees.recorded a.1 seen known).symm.trans (agrees.pending a member))
    exact ⟨[], s.depths, by simp only [if_pos same]⟩
  | none =>
    have checked := (checkInstruction_ok_iff b returnsValue a.1 a.2 site i _).mpr
      ⟨effect, admitted, rfl⟩
    exact ⟨_, _, (Success.map_ok_iff ..).mpr ⟨_, checked, rfl⟩⟩

theorem Agrees.step {depth : Nat → Option Nat} (agrees : Agrees depth s)
    (typing : b.DepthTyping returnsValue depth) (formed : b.WellFormed)
    (consistent : Consistent b returnsValue s) (step : Step b returnsValue s t) :
    Agrees depth t := by
  obtain ⟨a, member, ⟨seen, same, order⟩ | ⟨unseen, id, i, effect, there, admitted, set, order⟩⟩ :=
    step.cases formed consistent
  · refine ⟨fun x waiting => ?_, same ▸ agrees.recorded⟩
    exact agrees.pending x (List.mem_of_mem_erase (order.mem_iff.mp waiting))
  · have inside : a.1 < s.depths.length := consistent.sized ▸ consistent.inside a member
    have here := agrees.pending a member
    constructor
    · intro x waiting
      rcases List.mem_append.mp (order.mem_iff.mp waiting) with new | old
      · obtain ⟨next, listed, rfl⟩ := List.mem_map.mp new
        -- The typing has looked at the same instruction and passes on the same depth.
        obtain ⟨_, j, other, same, admitted', passes⟩ := typing.flow a.1 a.2 here
        obtain ⟨rfl, rfl⟩ := Prod.mk.inj (Option.some.inj (same.symm.trans there))
        obtain rfl := Option.some.inj (admitted.known.symm.trans admitted'.known)
        exact passes next ((mem_successors_iff admitted next).mp listed)
      · exact agrees.pending x (List.mem_of_mem_erase old)
    · intro place n known
      rw [set, recorded_set _ _ _ _ inside] at known
      by_cases same : place = a.1
      · rw [if_pos same] at known
        rw [same, here, known]
      · rw [if_neg same] at known
        exact agrees.recorded place n known

/-- When nothing is pending, the recorded depths are a typing. -/
theorem Consistent.depthTyping (consistent : Consistent b returnsValue s)
    (done : s.pending = []) : b.DepthTyping returnsValue (recorded s.depths) := by
  have taken : ∀ x, s.Knows x → recorded s.depths x.1 = some x.2 := by
    rintro x (waiting | known)
    · simp [done] at waiting
    · exact known
  refine ⟨?_, ?_, ?_⟩
  · exact taken (0, 0) (consistent.entered _ ((mem_entries_iff b _).mpr (Or.inl rfl)))
  · intro h member place found
    exact taken (place, _) (consistent.entered _
      ((mem_entries_iff b _).mpr (Or.inr ⟨h, member, place, found, rfl⟩)))
  · intro place n known
    obtain ⟨id, i, effect, there, admitted, passed⟩ := consistent.passed place n known
    exact ⟨id, i, effect, there, admitted, fun next follows => taken _ (passed next follows)⟩

/-- What a search that was begun keeps up in every order. -/
theorem consistent_of_steps (formed : b.WellFormed) (nonempty : b.size ≠ 0)
    (steps : Relation.ReflTransGen (Step b returnsValue) (initial b) s) :
    Consistent b returnsValue s := by
  induction steps with
  | refl => exact consistent_initial nonempty
  | tail _ step ih => exact ih.step formed step

theorem agrees_of_steps {depth : Nat → Option Nat} (typing : b.DepthTyping returnsValue depth)
    (formed : b.WellFormed) (nonempty : b.size ≠ 0)
    (steps : Relation.ReflTransGen (Step b returnsValue) (initial b) s) : Agrees depth s := by
  induction steps with
  | refl => exact agrees_initial typing
  | tail steps step ih =>
    have consistent := consistent_of_steps formed nonempty steps
    exact ih.step typing formed consistent step

/-- Whatever is pending can be taken or gives the verdict. -/
theorem step_or_gives (b : Body) (returnsValue : Bool) (s : Search) :
    (∃ t, Step b returnsValue s t) ∨ ∃ verdict, s.Gives b returnsValue verdict := by
  cases waiting : s.pending with
  | nil => exact Or.inr ⟨.ok (), waiting⟩
  | cons a rest =>
    have member : a ∈ s.pending := waiting ▸ List.mem_cons_self
    cases settled : settle b returnsValue s.depths a with
    | error fault => exact Or.inr ⟨.error fault, a, member, settled⟩
    | ok result =>
      obtain ⟨arrivals, after⟩ := result
      exact Or.inl ⟨⟨arrivals ++ s.pending.erase a, after⟩, a, member, arrivals, settled, .refl _⟩

/-- A search that has come to a verdict accepts exactly if the body has a typing, in whatever order
it has gone on. -/
theorem gives_ok_iff (formed : b.WellFormed) (nonempty : b.size ≠ 0)
    (steps : Relation.ReflTransGen (Step b returnsValue) (initial b) s)
    {verdict : Except StackFault Unit} (ended : s.Gives b returnsValue verdict) :
    verdict = .ok () ↔ ∃ depth, b.DepthTyping returnsValue depth := by
  cases verdict with
  | ok value =>
    exact iff_of_true rfl ⟨_, (consistent_of_steps formed nonempty steps).depthTyping ended⟩
  | error fault =>
    refine iff_of_false (by simp) ?_
    rintro ⟨depth, typing⟩
    obtain ⟨a, member, failed⟩ := ended
    obtain ⟨_, _, settled⟩ :=
      (agrees_of_steps typing formed nonempty steps).settle typing member
    rw [failed] at settled
    cases settled

/-- No order takes more steps than there are entries and twice as many as there are places. -/
theorem steps_le (formed : b.WellFormed) (nonempty : b.size ≠ 0) {run : Nat → Search} {n : Nat}
    (begun : run 0 = initial b) (steps : ∀ k < n, Step b returnsValue (run k) (run (k + 1))) :
    n ≤ b.entries.length + 2 * b.size := by
  -- What is left to do and the steps taken so far never exceed what there was to do at first.
  have progress : ∀ k ≤ n, Consistent b returnsValue (run k) ∧
      (run k).weight + k ≤ (initial b).weight := by
    intro k
    induction k with
    | zero =>
      intro _
      rw [begun]
      exact ⟨consistent_initial nonempty, Nat.le_refl _⟩
    | succ k ih =>
      intro bound
      obtain ⟨consistent, spent⟩ := ih (by omega)
      have step := steps k (by omega)
      have less := step.weight_lt formed consistent
      exact ⟨consistent.step formed step, by omega⟩
  have spent := (progress n (Nat.le_refl n)).2
  simp only [weight, initial, List.count_replicate_self] at spent
  omega

/-- Exploring takes the first of the pending arrivals. -/
theorem explore_cons (b : Body) (returnsValue : Bool) (fuel : Nat) (a : Arrival)
    (pending : List Arrival) (depths : List (Option Nat)) :
    explore b returnsValue b.code (fuel + 1) (a :: pending) depths =
      settle b returnsValue depths a >>= fun settled =>
        explore b returnsValue b.code fuel (settled.1 ++ pending) settled.2 := by
  obtain ⟨place, n⟩ := a
  simp only [explore, settle, recorded]
  cases b.code[place]? with
  | none => rfl
  | some entry =>
    obtain ⟨site, i⟩ := entry
    dsimp only
    cases depths[place]?.join with
    | some seen =>
      dsimp only
      split <;> rfl
    | none => cases b.checkInstruction returnsValue place n site i <;> rfl

/-- With enough fuel, exploring is a search that comes to its verdict. -/
theorem gives_explore (formed : b.WellFormed) {fuel : Nat}
    (consistent : Consistent b returnsValue s) (enough : s.weight < fuel) :
    ∃ t, Relation.ReflTransGen (Step b returnsValue) s t ∧
      t.Gives b returnsValue (explore b returnsValue b.code fuel s.pending s.depths) := by
  induction fuel generalizing s with
  | zero => omega
  | succ fuel ih =>
    obtain ⟨pending, depths⟩ := s
    cases pending with
    | nil => exact ⟨_, .refl, rfl⟩
    | cons a pending =>
      dsimp only
      rw [explore_cons]
      cases settled : settle b returnsValue depths a with
      | error fault => exact ⟨_, .refl, a, List.mem_cons_self, settled⟩
      | ok result =>
        obtain ⟨arrivals, after⟩ := result
        have step : Step b returnsValue ⟨a :: pending, depths⟩ ⟨arrivals ++ pending, after⟩ :=
          ⟨a, List.mem_cons_self, arrivals, settled, by rw [List.erase_cons_head]⟩
        have less := step.weight_lt formed consistent
        obtain ⟨t, steps, ended⟩ := ih (consistent.step formed step) (by omega)
        exact ⟨t, .head step steps, ended⟩

end Search

/-- The check of a body with live instructions is one of the orders of the search. -/
theorem gives_checkStack {b : Body} (formed : b.WellFormed) (nonempty : b.size ≠ 0)
    (returnsValue : Bool) :
    ∃ s, Relation.ReflTransGen (Search.Step b returnsValue) (Search.initial b) s ∧
      s.Gives b returnsValue (b.checkStack returnsValue) := by
  rw [checkStack, if_neg nonempty]
  refine Search.gives_explore formed (Search.consistent_initial nonempty) ?_
  simp [Search.weight, Search.initial]

/-- The stack check accepts a body exactly if it has no live instruction or a depth typing. -/
theorem checkStack_ok_iff {b : Body} (formed : b.WellFormed) (returnsValue : Bool) :
    b.checkStack returnsValue = .ok () ↔
      b.size = 0 ∨ ∃ depth, b.DepthTyping returnsValue depth := by
  by_cases empty : b.size = 0
  · simp [checkStack, empty]
  · obtain ⟨s, steps, ended⟩ := gives_checkStack formed empty returnsValue
    rw [or_iff_right empty]
    exact Search.gives_ok_iff formed empty steps ended

/-- Control can reach a place: it is the start or the start of a live handler, or it follows a place
that control can reach. -/
inductive Reachable (b : Body) : Nat → Prop
  | start (nonempty : b.size ≠ 0) : Reachable b 0
  | handler {h : Handler} {place : Nat} (member : h ∈ b.handlers)
      (found : b.position? h.handlerStart = some place) : Reachable b place
  | next {place next : Nat} {id : InstrId} {i : Instruction} (reached : Reachable b place)
      (there : b.code[place]? = some (id, i)) (follows : b.Follows place i next) :
      Reachable b next

/-- Depths that fit together at the places that control can reach; elsewhere they do not matter. -/
structure DepthAssignment (b : Body) (returnsValue : Bool) (depth : Nat → Nat) : Prop where
  start : depth 0 = 0
  handler : ∀ h ∈ b.handlers, ∀ place, b.position? h.handlerStart = some place →
    depth place = entryDepth h.kind
  flow : ∀ place, b.Reachable place → ∃ id i effect, b.code[place]? = some (id, i) ∧
    b.Admits returnsValue place (depth place) i effect ∧
    ∀ next, b.Follows place i next → depth next = depth place - effect.pops + effect.pushes

/-- Bodies with the same live identities and handlers agree wherever control can reach. -/
structure AgreeReachable (b c : Body) : Prop where
  order : c.order = b.order
  handlers : c.handlers = b.handlers
  code : ∀ place, b.Reachable place → c.code[place]? = b.code[place]?

section reachable

variable {b c : Body} {returnsValue : Bool} {place : Nat}

theorem DepthTyping.isSome_of_reachable {depth : Nat → Option Nat}
    (typing : b.DepthTyping returnsValue depth) (reached : b.Reachable place) :
    ∃ n, depth place = some n := by
  induction reached with
  | start => exact ⟨0, typing.start⟩
  | handler member found => exact ⟨_, typing.handler _ member _ found⟩
  | next _ there follows ih =>
    obtain ⟨n, here⟩ := ih
    obtain ⟨_, _, _, same, _, passes⟩ := typing.flow _ n here
    obtain ⟨rfl, rfl⟩ := Prod.mk.inj (Option.some.inj (there.symm.trans same))
    exact ⟨_, passes _ follows⟩

open Classical in
/-- A typing says the same as depths that fit together where control can reach. -/
theorem exists_depthTyping_iff (nonempty : b.size ≠ 0) :
    (∃ depth, b.DepthTyping returnsValue depth) ↔
      ∃ depth, b.DepthAssignment returnsValue depth := by
  constructor
  · rintro ⟨depth, typing⟩
    refine ⟨fun place => (depth place).getD 0, by simp [typing.start], ?_, ?_⟩
    · intro h member place found
      simp [typing.handler h member place found]
    · intro place reached
      obtain ⟨n, here⟩ := typing.isSome_of_reachable reached
      obtain ⟨id, i, effect, there, admitted, passes⟩ := typing.flow place n here
      refine ⟨id, i, effect, there, by simpa [here] using admitted, fun next follows => ?_⟩
      simp [passes next follows, here]
  · rintro ⟨depth, assigns⟩
    -- Places that control cannot reach get no depth.
    refine ⟨fun place => if b.Reachable place then some (depth place) else none, ?_, ?_, ?_⟩
    · rw [if_pos (.start nonempty), assigns.start]
    · intro h member place found
      rw [if_pos (.handler member found), assigns.handler h member place found]
    · intro place n here
      by_cases reached : b.Reachable place
      · rw [if_pos reached] at here
        obtain rfl := Option.some.inj here
        obtain ⟨id, i, effect, there, admitted, passes⟩ := assigns.flow place reached
        refine ⟨id, i, effect, there, admitted, fun next follows => ?_⟩
        dsimp only
        rw [if_pos (reached.next there follows), passes next follows]
      · rw [if_neg reached] at here
        cases here

theorem AgreeReachable.position?_eq (agree : b.AgreeReachable c) (id : InstrId) :
    c.position? id = b.position? id := by
  rw [position?, position?, agree.order]

theorem AgreeReachable.size_eq (agree : b.AgreeReachable c) : c.size = b.size := by
  rw [size, size, agree.order]

theorem AgreeReachable.follows_iff (agree : b.AgreeReachable c) {i : Instruction} {next : Nat} :
    c.Follows place i next ↔ b.Follows place i next := by
  simp only [Follows, agree.size_eq, agree.position?_eq]

theorem AgreeReachable.reachable_iff (agree : b.AgreeReachable c) :
    c.Reachable place ↔ b.Reachable place := by
  constructor
  · intro reached
    induction reached with
    | start nonempty => exact .start (agree.size_eq ▸ nonempty)
    | handler member found =>
      exact .handler (agree.handlers ▸ member) (agree.position?_eq _ ▸ found)
    | next _ there follows ih =>
      exact .next ih (agree.code _ ih ▸ there) (agree.follows_iff.mp follows)
  · intro reached
    induction reached with
    | start nonempty => exact .start (agree.size_eq.symm ▸ nonempty)
    | handler member found =>
      exact .handler (agree.handlers.symm ▸ member) ((agree.position?_eq _).trans found)
    | next reached there follows ih =>
      exact .next ih ((agree.code _ reached).trans there) (agree.follows_iff.mpr follows)

theorem AgreeReachable.symm (agree : b.AgreeReachable c) : c.AgreeReachable b where
  order := agree.order.symm
  handlers := agree.handlers.symm
  code place reached := (agree.code place (agree.reachable_iff.mp reached)).symm

theorem AgreeReachable.depthAssignment {depth : Nat → Nat} (agree : b.AgreeReachable c)
    (assigns : b.DepthAssignment returnsValue depth) : c.DepthAssignment returnsValue depth := by
  refine ⟨assigns.start, ?_, ?_⟩
  · intro h member place found
    exact assigns.handler h (agree.handlers ▸ member) place (agree.position?_eq _ ▸ found)
  · intro place reached
    have original := agree.reachable_iff.mp reached
    obtain ⟨id, i, effect, there, admitted, passes⟩ := assigns.flow place original
    refine ⟨id, i, effect, (agree.code place original).trans there, ?_, ?_⟩
    · exact
        { admitted with
          target := fun id aim => agree.order ▸ admitted.target id aim
          inside := fun runs => agree.size_eq ▸ admitted.inside runs }
    · exact fun next follows => passes next (agree.follows_iff.mp follows)

/-- The stack check accepts a body exactly if it has no live instruction or there are depths that
fit together. -/
theorem checkStack_ok_iff_assigned (formed : b.WellFormed) (returnsValue : Bool) :
    b.checkStack returnsValue = .ok () ↔
      b.size = 0 ∨ ∃ depth, b.DepthAssignment returnsValue depth := by
  rw [checkStack_ok_iff formed]
  by_cases empty : b.size = 0
  · simp [empty]
  · rw [exists_depthTyping_iff empty]

end reachable

/-- The stack check decides whether the places that control can reach have depths that fit together.
The search behind it ends in whatever order it takes what is pending, always with the verdict of the
check, whose own order is one of them; and code that control cannot reach has no part in it. -/
theorem checkStack_decides {b : Body} (formed : b.WellFormed) (returnsValue : Bool) :
    (b.checkStack returnsValue = .ok () ↔
      b.size = 0 ∨ ∃ depth, b.DepthAssignment returnsValue depth) ∧
    (b.size ≠ 0 →
      (∀ (run : Nat → Search) (n : Nat), run 0 = Search.initial b →
        (∀ k < n, Search.Step b returnsValue (run k) (run (k + 1))) →
          n ≤ b.entries.length + 2 * b.size) ∧
      (∀ s, Relation.ReflTransGen (Search.Step b returnsValue) (Search.initial b) s →
        ((∃ t, Search.Step b returnsValue s t) ∨ ∃ verdict, s.Gives b returnsValue verdict) ∧
        ∀ verdict, s.Gives b returnsValue verdict →
          (verdict = .ok () ↔ b.checkStack returnsValue = .ok ())) ∧
      ∃ s, Relation.ReflTransGen (Search.Step b returnsValue) (Search.initial b) s ∧
        s.Gives b returnsValue (b.checkStack returnsValue)) ∧
    ∀ c : Body, c.WellFormed → b.AgreeReachable c →
      (c.checkStack returnsValue = .ok () ↔ b.checkStack returnsValue = .ok ()) := by
  refine ⟨checkStack_ok_iff_assigned formed returnsValue, fun nonempty => ⟨?_, ?_, ?_⟩, ?_⟩
  · exact fun run n => Search.steps_le formed nonempty
  · refine fun s steps => ⟨Search.step_or_gives b returnsValue s, fun verdict ended => ?_⟩
    rw [Search.gives_ok_iff formed nonempty steps ended, checkStack_ok_iff formed,
      or_iff_right nonempty]
  · exact gives_checkStack formed nonempty returnsValue
  · intro c formed' agree
    rw [checkStack_ok_iff_assigned formed', checkStack_ok_iff_assigned formed, agree.size_eq]
    refine or_congr_right ⟨?_, ?_⟩
    · exact fun ⟨depth, assigns⟩ => ⟨depth, agree.symm.depthAssignment assigns⟩
    · exact fun ⟨depth, assigns⟩ => ⟨depth, agree.depthAssignment assigns⟩

/-- A loop, a handler, and behind the jump over it an instruction that control cannot reach. -/
def guardedLoop : Body :=
  { Body.ofInstructions false
      [⟨.ldcI4, .int32 1⟩, ⟨.brtrue, .target ⟨0⟩⟩, ⟨.br, .target ⟨4⟩⟩, ⟨.add, .none⟩, ⟨.ret, .none⟩,
        ⟨.pop, .none⟩, ⟨.ret, .none⟩] with
    handlers := [{ kind := .catching, tryStart := ⟨0⟩, tryEnd := some ⟨4⟩, handlerStart := ⟨5⟩ }] }

theorem checkStack_decides_guardedLoop :
    guardedLoop.WellFormed ∧ guardedLoop.checkStack false = .ok () ∧
      (∃ depth, guardedLoop.DepthAssignment false depth) ∧
      ∀ s, Relation.ReflTransGen (Search.Step guardedLoop false) (Search.initial guardedLoop) s →
        ∀ fault, ¬ s.Gives guardedLoop false (.error fault) := by
  have formed : guardedLoop.WellFormed := by decide
  have accepted : guardedLoop.checkStack false = .ok () := by decide
  have nonempty : guardedLoop.size ≠ 0 := by decide
  obtain ⟨assigned, searches, _⟩ := checkStack_decides formed false
  refine ⟨formed, accepted, (assigned.mp accepted).resolve_left nonempty, ?_⟩
  intro s steps fault failed
  have same := ((searches nonempty).2.1 s steps).2 _ failed
  exact absurd (same.mpr accepted) (by simp)

end NativeBridge.Body
