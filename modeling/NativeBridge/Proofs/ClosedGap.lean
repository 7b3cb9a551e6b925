import NativeBridge.Proofs.HandleDepths

/-! Bodies from which an instruction has been taken out. The gap closes, so everything behind it
moves up by one place, and references to the gap go to what has moved there. If the instruction did
nothing, control reaches what is left as before and with the same depths. -/

namespace NativeBridge

namespace Body

/-- Where a place goes when the gap closes. The gap itself goes to what follows it. -/
def closeGap (gap place : Nat) : Nat := if gap < place then place - 1 else place

/-- Where a place was before the gap closed. -/
def openGap (gap place : Nat) : Nat := if place < gap then place else place + 1

section gap

variable {gap place : Nat}

@[simp] theorem closeGap_self : closeGap gap gap = gap := if_neg (Nat.lt_irrefl gap)

@[simp] theorem closeGap_succ_self : closeGap gap (gap + 1) = gap := if_pos (Nat.lt_succ_self gap)

theorem closeGap_succ (other : place ≠ gap) :
    closeGap gap (place + 1) = closeGap gap place + 1 := by
  unfold closeGap
  split_ifs <;> omega

@[simp] theorem closeGap_openGap : closeGap gap (openGap gap place) = place := by
  unfold closeGap openGap
  split_ifs <;> omega

theorem openGap_closeGap (other : place ≠ gap) : openGap gap (closeGap gap place) = place := by
  unfold closeGap openGap
  split_ifs <;> omega

@[simp] theorem openGap_self : openGap gap gap = gap + 1 := if_neg (Nat.lt_irrefl gap)

theorem openGap_ne : openGap gap place ≠ gap := by
  unfold openGap
  split_ifs <;> omega

end gap

namespace Removed

variable {b c : Body} {id : InstrId} {before after : List InstrId} {place : Nat}

theorem size_eq (spec : b.Removed id before after c) : b.size = c.size + 1 := by
  rw [size, size, spec.split, spec.order, List.length_append, List.length_append, List.length_cons]
  omega

theorem gap_lt (spec : b.Removed id before after c) : before.length < b.size := by
  rw [size, spec.split, List.length_append, List.length_cons]
  omega

theorem order_gap (spec : b.Removed id before after c) : b.order[before.length]? = some id := by
  rw [spec.split]
  simp

theorem order_closed (spec : b.Removed id before after c) (other : place ≠ before.length) :
    c.order[closeGap before.length place]? = b.order[place]? := by
  rw [spec.order, spec.split, closeGap]
  split_ifs with behind
  · rw [List.getElem?_append_right (by omega), List.getElem?_append_right (by omega),
      show place - before.length = place - 1 - before.length + 1 by omega, List.getElem?_cons_succ]
  · rw [List.getElem?_append_left (by omega), List.getElem?_append_left (by omega)]

theorem wellFormed (spec : b.Removed id before after c) (formed : b.WellFormed) :
    c.WellFormed where
  distinct := formed.distinct.sublist spec.sublist
  present x live := by
    have member := spec.sublist.subset live
    obtain ⟨i, held⟩ := get?_isSome_of_live formed member
    have here := spec.held x member
    rw [held, Option.map_some, get?] at here
    exact (List.getElem?_eq_some_iff.mp here).1

/-- Whatever was not taken out stands where its place has gone. -/
theorem code_closed (spec : b.Removed id before after c) (formed : b.WellFormed) {x : InstrId}
    {i : Instruction} (other : place ≠ before.length) (there : b.code[place]? = some (x, i)) :
    c.code[closeGap before.length place]? = some (x, i.mapTarget (handOver id after.head?)) := by
  obtain ⟨here, held⟩ := (code_getElem?_iff formed ..).mp there
  rw [code_getElem?_iff (spec.wellFormed formed), spec.order_closed other,
    spec.held x (List.mem_of_getElem? here), held]
  exact ⟨here, rfl⟩

theorem gone (spec : b.Removed id before after c) (formed : b.WellFormed) : id ∉ c.order := by
  have distinct := formed.distinct
  rw [spec.split] at distinct
  rw [spec.order]
  exact (List.nodup_middle.mp distinct).notMem

theorem position?_gap (spec : b.Removed id before after c) (formed : b.WellFormed) :
    b.position? id = some before.length :=
  (position?_eq_some_iff formed ..).mpr spec.order_gap

/-- A reference leads to where its place has gone. One to the gap needs something behind it. -/
theorem position?_handOver (spec : b.Removed id before after c) (formed : b.WellFormed)
    {t : InstrId} (named : t = id → b.isReferenced id = true) :
    c.position? (handOver id after.head? t) = (b.position? t).map (closeGap before.length) := by
  have formed' := spec.wellFormed formed
  by_cases same : t = id
  · -- The next instruction has taken the place of the gap.
    subst same
    obtain ⟨heir, next⟩ := Option.isSome_iff_exists.mp (spec.needed (named rfl))
    rw [spec.position?_gap formed, Option.map_some, closeGap_self, handOver, if_pos rfl, next,
      Option.getD_some, position?_eq_some_iff formed', spec.order,
      List.getElem?_append_right (Nat.le_refl _), Nat.sub_self, ← List.head?_eq_getElem?, next]
  · rw [handOver, if_neg same]
    cases found : b.position? t with
    | some place =>
      have there := (position?_eq_some_iff formed ..).mp found
      have other : place ≠ before.length := by
        rintro rfl
        exact same (Option.some.inj (there.symm.trans spec.order_gap))
      rw [Option.map_some, position?_eq_some_iff formed', spec.order_closed other, there]
    | none =>
      -- A reference that was dead stays so: a removal makes nothing live.
      rw [Option.map_none, ← Option.not_isSome_iff_eq_none, Option.isSome_iff_exists,
        position?_isSome_iff]
      intro live
      obtain ⟨place, there⟩ := (b.position?_isSome_iff t).mpr (spec.sublist.subset live)
      rw [found] at there
      cases there

theorem isReferenced_of_target {x : InstrId} {i : Instruction} {t : InstrId}
    (there : b.code[place]? = some (x, i)) (named : i.target? = some t) (same : t = id) :
    b.isReferenced id = true :=
  (b.isReferenced_iff id).mpr (Or.inl ⟨x, i, List.mem_of_getElem? there, same ▸ named⟩)

theorem isReferenced_of_handler {h : Handler} (member : h ∈ b.handlers)
    (same : h.handlerStart = id) : b.isReferenced id = true :=
  (b.isReferenced_iff id).mpr (Or.inr ⟨h, member, by simp [Handler.starts, same]⟩)

/-- The handlers that are left start where the places of their starts have gone. -/
theorem handler_iff (spec : b.Removed id before after c) (formed : b.WellFormed)
    (kind : HandlerKind) :
    (∃ g ∈ c.handlers, g.kind = kind ∧ c.position? g.handlerStart = some place) ↔
      ∃ h ∈ b.handlers, h.kind = kind ∧ ∃ original, b.position? h.handlerStart = some original ∧
        closeGap before.length original = place := by
  have starts : ∀ h ∈ b.handlers, c.position? (handOver id after.head? h.handlerStart) =
      (b.position? h.handlerStart).map (closeGap before.length) := fun h member =>
    spec.position?_handOver formed (isReferenced_of_handler member)
  simp only [spec.handlers, List.mem_map, exists_exists_and_eq_and]
  refine exists_congr fun h => and_congr_right fun member => and_congr_right fun _ => ?_
  change c.position? (handOver id after.head? h.handlerStart) = _ ↔ _
  rw [starts h member, Option.map_eq_some_iff]

end Removed

/-- An instruction that does nothing has been taken out of a body that has a typing. -/
structure IdleRemoved (b : Body) (id : InstrId) (before after : List InstrId) (c : Body)
    (returnsValue : Bool) (depth : Nat → Option Nat) : Prop
    extends b.Removed id before after c where
  formed : b.WellFormed
  idle : ∃ i, b.get? id = some i ∧ i.opcode = .nop
  typing : b.DepthTyping returnsValue depth

namespace IdleRemoved

variable {b c : Body} {id : InstrId} {before after : List InstrId} {returnsValue : Bool}
  {depth : Nat → Option Nat} {place n next : Nat} {x : InstrId} {i : Instruction}

/-- What stood in the gap has no effect and is no branch. -/
theorem at_gap (spec : b.IdleRemoved id before after c returnsValue depth)
    (reached : b.Reached returnsValue before.length n) :
    ∃ nop, b.code[before.length]? = some (id, nop) ∧ nop.opcode = .nop ∧
      nop.stackEffect? returnsValue = some ⟨0, 0⟩ := by
  obtain ⟨nop, held, idle⟩ := spec.idle
  have there := (code_getElem?_iff spec.formed ..).mpr ⟨spec.order_gap, held⟩
  refine ⟨nop, there, idle, ?_⟩
  obtain ⟨effect, admitted, _⟩ :=
    spec.typing.admitted (spec.typing.depth_of_reached reached) there
  have known := admitted.known
  rw [Instruction.stackEffect?, if_pos (Instruction.isMatched_of_effect known), idle]

/-- Control that reached the gap ran on behind it, and with the same depth. -/
theorem reached_behind_gap (spec : b.IdleRemoved id before after c returnsValue depth)
    (reached : b.Reached returnsValue before.length n) :
    before.length + 1 < b.size ∧ b.Reached returnsValue (before.length + 1) n := by
  obtain ⟨nop, there, idle, known⟩ := spec.at_gap reached
  have onward : nop.opcode.isTerminator = false := by rw [idle]; rfl
  obtain ⟨effect, same, inside, behind⟩ := spec.typing.reached_behind reached there onward
  obtain rfl := Option.some.inj (known.symm.trans same)
  exact ⟨inside, behind⟩

/-- Control that reached a place reached what stands there now, and with the same depth. -/
theorem reached_opened_closed (spec : b.IdleRemoved id before after c returnsValue depth)
    (reached : b.Reached returnsValue place n) :
    b.Reached returnsValue (openGap before.length (closeGap before.length place)) n := by
  by_cases other : place = before.length
  · subst other
    rw [closeGap_self, openGap_self]
    exact (spec.reached_behind_gap reached).2
  · rwa [openGap_closeGap other]

/-- Something is left behind the gap if control reached it. -/
theorem closeGap_lt (spec : b.IdleRemoved id before after c returnsValue depth)
    (reached : b.Reached returnsValue place n) : closeGap before.length place < c.size := by
  have sizes := spec.size_eq
  by_cases other : place = before.length
  · -- The only place that could be lost is a gap at the end, which the typing rules out.
    subst other
    have behind := (spec.reached_behind_gap reached).1
    rw [closeGap_self]
    omega
  · have inside : place < b.size := by
      obtain ⟨_, _, _, there, _⟩ := spec.typing.flow place n (spec.typing.depth_of_reached reached)
      rw [← length_code spec.formed]
      exact (List.getElem?_eq_some_iff.mp there).1
    have gap := spec.gap_lt
    unfold closeGap
    split_ifs <;> omega

theorem nonempty (spec : b.IdleRemoved id before after c returnsValue depth) : b.size ≠ 0 :=
  Nat.ne_zero_of_lt spec.gap_lt

/-- Control runs on from what is left to where the places that followed have gone. -/
theorem follows_closed (spec : b.IdleRemoved id before after c returnsValue depth)
    (other : place ≠ before.length) (there : b.code[place]? = some (x, i))
    (left : closeGap before.length next < c.size) (follows : b.Follows place i next) :
    c.Follows (closeGap before.length place) (i.mapTarget (handOver id after.head?))
      (closeGap before.length next) := by
  rcases follows with ⟨onward, rfl, _⟩ | ⟨t, named, found⟩
  · exact Or.inl ⟨onward, closeGap_succ other, left⟩
  · refine Or.inr ⟨handOver id after.head? t, ?_, ?_⟩
    · rw [Instruction.target?_mapTarget, named, Option.map_some]
    · rw [spec.position?_handOver spec.formed (Removed.isReferenced_of_target there named), found,
        Option.map_some]

/-- Nor does it run on to anything else. -/
theorem follows_opened (spec : b.IdleRemoved id before after c returnsValue depth)
    (there : b.code[openGap before.length place]? = some (x, i))
    (follows : c.Follows place (i.mapTarget (handOver id after.head?)) next) :
    ∃ original, b.Follows (openGap before.length place) i original ∧
      closeGap before.length original = next := by
  rcases follows with ⟨onward, rfl, inside⟩ | ⟨t, named, found⟩
  · refine ⟨_, Or.inl ⟨onward, rfl, ?_⟩, ?_⟩
    · -- The place behind is inside the longer body as well.
      have sizes := spec.size_eq
      have gap := spec.gap_lt
      unfold openGap
      split_ifs <;> omega
    · rw [closeGap_succ openGap_ne, closeGap_openGap]
  · rw [Instruction.target?_mapTarget, Option.map_eq_some_iff] at named
    obtain ⟨t, named, rfl⟩ := named
    rw [spec.position?_handOver spec.formed (Removed.isReferenced_of_target there named),
      Option.map_eq_some_iff] at found
    obtain ⟨original, found, rfl⟩ := found
    exact ⟨original, Or.inr ⟨t, named, found⟩, rfl⟩

/-- What is left has a typing: the depths with which it was reached before. -/
theorem depthTyping_closed (spec : b.IdleRemoved id before after c returnsValue depth) :
    c.DepthTyping returnsValue fun place =>
      b.reachedDepth returnsValue (openGap before.length place) := by
  have typed : ∀ place n, b.Reached returnsValue place n →
      b.reachedDepth returnsValue (openGap before.length (closeGap before.length place)) =
        some n := fun place n reached =>
    spec.typing.reachedDepth_iff.mpr (spec.reached_opened_closed reached)
  refine ⟨typed 0 0 (.start spec.nonempty), fun g member place found => ?_,
    fun place n here => ?_⟩
  · obtain ⟨h, original, same, place, there, rfl⟩ :=
      (spec.handler_iff spec.formed _).mp ⟨g, member, rfl, found⟩
    rw [← same]
    exact typed place _ (.handler original there)
  · have reached := spec.typing.reachedDepth_iff.mp here
    obtain ⟨x, i, effect, origin, admitted, _⟩ :=
      spec.typing.flow _ n (spec.typing.depth_of_reached reached)
    have there := spec.code_closed spec.formed openGap_ne origin
    rw [closeGap_openGap] at there
    refine ⟨x, _, effect, there, ?_, fun next follows => ?_⟩
    · refine ⟨?_, admitted.enough, admitted.bounded, admitted.balanced, fun t named => ?_,
        fun onward => ?_⟩
      · rw [Instruction.stackEffect?_mapTarget]
        exact admitted.known
      · rw [Instruction.target?_mapTarget, Option.map_eq_some_iff] at named
        obtain ⟨t, named, rfl⟩ := named
        obtain ⟨original, found⟩ := (b.position?_isSome_iff t).mpr (admitted.target t named)
        rw [← position?_isSome_iff,
          spec.position?_handOver spec.formed (Removed.isReferenced_of_target origin named), found]
        exact ⟨_, rfl⟩
      · have follows : b.Follows _ i _ := Or.inl ⟨onward, rfl, admitted.inside onward⟩
        have left := spec.closeGap_lt (.step reached origin admitted follows)
        rwa [closeGap_succ openGap_ne, closeGap_openGap] at left
    · obtain ⟨original, runs, rfl⟩ := spec.follows_opened origin follows
      exact typed original _ (.step reached origin admitted runs)

theorem reached_closed (spec : b.IdleRemoved id before after c returnsValue depth)
    (reached : b.Reached returnsValue place n) :
    c.Reached returnsValue (closeGap before.length place) n := by
  induction reached with
  | start nonempty =>
    have left := spec.closeGap_lt (.start nonempty)
    exact .start (Nat.ne_zero_of_lt left)
  | @handler h place member found =>
    obtain ⟨g, left, same, there⟩ :=
      (spec.handler_iff spec.formed h.kind).mpr ⟨h, member, rfl, place, found, rfl⟩
    rw [← same]
    exact .handler left there
  | @step place n next x i effect reached there admitted follows ih =>
    by_cases other : place = before.length
    · -- Control ran on from the gap to what stands there now.
      subst other
      obtain ⟨nop, same, idle, known⟩ := spec.at_gap reached
      obtain ⟨-, rfl⟩ := Prod.mk.inj (Option.some.inj (there.symm.trans same))
      obtain rfl := Option.some.inj (known.symm.trans admitted.known)
      rw [follows_straight known (by rw [idle]; rintro ⟨⟩) follows, closeGap_succ_self]
      rwa [closeGap_self] at ih
    · have left := spec.closeGap_lt (.step reached there admitted follows)
      refine spec.depthTyping_closed.reached_next ih (spec.code_closed spec.formed other there) ?_
        (spec.follows_closed other there left follows)
      rw [Instruction.stackEffect?_mapTarget]
      exact admitted.known

theorem reached_opened (spec : b.IdleRemoved id before after c returnsValue depth)
    (reached : c.Reached returnsValue place n) :
    b.Reached returnsValue (openGap before.length place) n :=
  -- What is reached has the depth that its typing says, which is the one it was reached with.
  spec.typing.reachedDepth_iff.mp (spec.depthTyping_closed.depth_of_reached reached)

/-- Whatever is left is reached as it was before. -/
theorem reachedAt_iff (spec : b.IdleRemoved id before after c returnsValue depth)
    (left : x ∈ c.order) : c.ReachedAt returnsValue x n ↔ b.ReachedAt returnsValue x n := by
  constructor
  · rintro ⟨place, there, reached⟩
    refine ⟨_, ?_, spec.reached_opened reached⟩
    rw [← spec.order_closed openGap_ne, closeGap_openGap, there]
  · rintro ⟨place, there, reached⟩
    have other : place ≠ before.length := by
      rintro rfl
      obtain rfl := Option.some.inj (spec.order_gap.symm.trans there)
      exact spec.gone spec.formed left
    exact ⟨_, (spec.order_closed other).trans there, spec.reached_closed reached⟩

end IdleRemoved

end Body

end NativeBridge
