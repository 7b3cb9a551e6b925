import NativeBridge.Proofs.EditHistory
import Mathlib.Data.List.TakeWhile

/-! Sequences of removals. Each one leads references to the instruction that is next at that moment,
which may go later. In the end every reference names the first instruction left at or behind the one
it named at first, so that the order of the removals does not matter. -/

namespace NativeBridge

/-- What stands in an order at an identity and behind it. -/
def onward (order : List InstrId) (id : InstrId) : List InstrId := order.dropWhile (· != id)

/-- The first identity at or behind a given one that is not among those gone. -/
def firstLeft? (order gone : List InstrId) (id : InstrId) : Option InstrId :=
  (onward order id).find? (· ∉ gone)

/-- The identities of a region: at or behind its start and not at or behind its end. -/
def region (order : List InstrId) (start : InstrId) (finish : Option InstrId) : List InstrId :=
  (onward order start).filter fun id => ∀ stop ∈ finish, id ∉ onward order stop

/-- An instruction with its branch, if it is one, led elsewhere. -/
def Instruction.LedTo (lead : InstrId → Option InstrId) (i j : Instruction) : Prop :=
  match i.target? with
  | none => j = i
  | some t => ∃ s, lead t = some s ∧ j = ⟨i.opcode, .target s⟩

theorem Instruction.ledTo_mapTarget {lead : InstrId → Option InstrId} {move : InstrId → InstrId}
    {i : Instruction} (led : ∀ t, i.target? = some t → lead t = some (move t)) :
    i.LedTo lead (i.mapTarget move) := by
  unfold LedTo
  cases named : i.target? with
  | none => exact mapTarget_eq_self (by simp [named])
  | some t =>
    refine ⟨move t, led t named, ?_⟩
    rcases i with ⟨op, operand⟩
    cases operand <;> cases named
    rfl

/-- A handler with its boundaries led elsewhere. A region that has lost its end runs to the end of
the body; its start cannot be lost. -/
structure Handler.LedTo (lead : InstrId → Option InstrId) (h g : Handler) : Prop where
  kind : g.kind = h.kind
  catchType : g.catchType = h.catchType
  tryStart : lead h.tryStart = some g.tryStart
  tryEnd : g.tryEnd = h.tryEnd.bind lead
  handlerStart : lead h.handlerStart = some g.handlerStart
  handlerEnd : g.handlerEnd = h.handlerEnd.bind lead

section order

variable {order gone : List InstrId} {id s t : InstrId}

theorem onward_of_split {front rear : List InstrId} (first : id ∉ front) :
    onward (front ++ id :: rear) id = id :: rear := by
  rw [onward, List.dropWhile_append_of_pos, List.dropWhile_cons_of_neg (by simp)]
  intro x member
  have other : x ≠ id := fun same => first (same ▸ member)
  simpa using other

theorem onward_of_not_mem (absent : id ∉ order) : onward order id = [] := by
  rw [onward, List.dropWhile_eq_nil_iff]
  intro x member
  have other : x ≠ id := fun same => absent (same ▸ member)
  simpa using other

/-- The survivor among what is left is the first one left. -/
theorem survivor?_filter (distinct : order.Nodup) (t : InstrId) :
    survivor? order (order.filter (· ∉ gone)) t = firstLeft? order gone t := by
  by_cases member : t ∈ order
  · obtain ⟨front, rear, rfl⟩ := List.append_of_mem member
    have fresh : t ∉ front := by
      intro early
      exact (List.nodup_append.mp distinct).2.2 t early t List.mem_cons_self rfl
    rw [List.filter_append, survivor?_of_split distinct (List.filter_subset_self _)
      (List.filter_subset_self _),
      List.head?_filter, firstLeft?, onward_of_split fresh]
  · have missing := onward_of_not_mem member
    rw [firstLeft?, missing, survivor?]
    change List.find? (onward order t).contains _ = _
    rw [missing]
    simp

/-- What is left from the first one left on is what is left of what stood there. -/
theorem onward_filter (distinct : order.Nodup) (found : firstLeft? order gone t = some s) :
    onward (order.filter (· ∉ gone)) s = (onward order t).filter (· ∉ gone) := by
  have member : t ∈ order := by
    by_contra absent
    simp [firstLeft?, onward_of_not_mem absent] at found
  obtain ⟨front, rear, rfl⟩ := List.append_of_mem member
  obtain ⟨_, _, apart⟩ := List.nodup_append.mp distinct
  have fresh : t ∉ front := fun early => apart t early t List.mem_cons_self rfl
  rw [firstLeft?, onward_of_split fresh, ← List.head?_filter] at found
  obtain ⟨rest, left⟩ := List.head?_eq_some_iff.mp found
  have behind : s ∈ t :: rear := by
    have kept : s ∈ (t :: rear).filter (· ∉ gone) := left ▸ List.mem_cons_self
    exact (List.mem_filter.mp kept).1
  rw [List.filter_append, left, onward_of_split fresh, left]
  apply onward_of_split
  intro early
  exact apart s (List.mem_filter.mp early).1 s behind rfl

/-- What is left of a region is a region of what is left. -/
theorem region_filter (distinct : order.Nodup) (found : firstLeft? order gone t = some s)
    (finish : Option InstrId) :
    region (order.filter (· ∉ gone)) s (finish.bind (firstLeft? order gone)) =
      (region order t finish).filter (· ∉ gone) := by
  unfold region
  rw [onward_filter distinct found, List.filter_filter, List.filter_filter]
  apply List.filter_congr
  intro x _
  by_cases lost : x ∈ gone
  · simp [lost]
  -- An identity that is left is behind the new end exactly if it was behind the old one.
  have same : (∀ stop ∈ finish.bind (firstLeft? order gone),
      x ∉ onward (order.filter (· ∉ gone)) stop) ↔ ∀ stop ∈ finish, x ∉ onward order stop := by
    cases finish with
    | none => simp
    | some stop =>
      cases next : firstLeft? order gone stop with
      | none =>
        have past : x ∉ onward order stop := by
          intro behind
          exact List.find?_eq_none.mp next x behind (by simpa using lost)
        simp [next, past]
      | some heir =>
        simp only [Option.bind_some, next, Option.mem_def, Option.some.injEq, forall_eq',
          onward_filter distinct next, List.mem_filter, decide_eq_true_eq, not_and, not_not]
        constructor
        · exact fun before behind => lost (before behind)
        · exact fun before behind => absurd behind before
  simp only [same, Bool.and_comm]

end order

namespace Body

/-- Removes instructions one after the other. -/
def removeAll (b : Body) (ids : List InstrId) : Except EditError Body :=
  ids.foldlM (fun b id => (b.remove id).map (·.2)) b

/-- What a body holds of another one after removals is what is left of it. -/
theorem Retains.removeAll {origin b c : Body} {kept : List (InstrId × Instruction)}
    (retained : b.Retains origin kept) (distinct : origin.order.Nodup) {ids : List InstrId}
    (removed : b.removeAll ids = .ok c) :
    c.Retains origin (kept.filter fun entry => entry.1 ∉ ids) := by
  induction ids generalizing b kept with
  | nil =>
    cases removed
    simpa using retained
  | cons id ids ih =>
    obtain ⟨_, stepped, rest⟩ := (Success.bind_ok_iff ..).mp removed
    obtain ⟨⟨i, between⟩, first, rfl⟩ := (Success.map_ok_iff ..).mp stepped
    -- Exactly one entry of what is kept has the identity that goes.
    have live := (remove_ok first).1
    rw [retained.order, List.mem_map] at live
    obtain ⟨⟨id, j⟩, member, rfl⟩ := live
    obtain ⟨before, after, rfl⟩ := List.append_of_mem member
    obtain ⟨early, late⟩ := retained.fresh distinct
    have others : (before ++ (id, j) :: after).filter (fun entry => entry.1 ∉ id :: ids) =
        (before ++ after).filter fun entry => entry.1 ∉ ids := by
      have apart : ∀ entries : List (InstrId × Instruction), id ∉ entries.map (·.1) →
          entries.filter (fun entry => entry.1 ∉ id :: ids) =
            entries.filter fun entry => entry.1 ∉ ids := by
        intro entries absent
        apply List.filter_congr
        intro entry member
        have other : entry.1 ≠ id := fun same => absent (same ▸ List.mem_map_of_mem member)
        simp [other]
      rw [List.filter_append, List.filter_append, List.filter_cons_of_neg (by simp), apart _ early,
        apart _ late]
    rw [others]
    exact ih (retained.remove distinct first) rest

section removals

variable {b c : Body} {ids : List InstrId}

theorem order_removeAll (sound : b.Sound) (removed : b.removeAll ids = .ok c) :
    c.order = b.order.filter (· ∉ ids) := by
  have retained := sound.retains_code.removeAll sound.distinct removed
  rw [retained.order, ← map_fst_code sound.toWellFormed, List.filter_map]
  rfl

/-- Where a reference leads after removals. -/
theorem survivor?_removeAll (sound : b.Sound) (removed : b.removeAll ids = .ok c) :
    survivor? b.order c.order = firstLeft? b.order ids := by
  funext t
  rw [order_removeAll sound removed, survivor?_filter sound.distinct]

theorem code_removeAll (sound : b.Sound) (removed : b.removeAll ids = .ok c) :
    List.Forall₂ (fun e f => f.1 = e.1 ∧ e.2.LedTo (firstLeft? b.order ids) f.2)
      (b.code.filter fun e => e.1 ∉ ids) c.code := by
  have retained := sound.retains_code.removeAll sound.distinct removed
  have lands := retained.branch
  rw [retained.code_eq sound.distinct, ← retained.order, List.forall₂_map_right_iff,
    List.forall₂_same]
  rintro ⟨id, i⟩ member
  refine ⟨rfl, Instruction.ledTo_mapTarget fun t named => ?_⟩
  obtain ⟨s, found⟩ := Option.isSome_iff_exists.mp (lands id i member t named)
  rw [← survivor?_removeAll sound removed, landing, found, Option.getD_some]

theorem handlers_removeAll (sound : b.Sound) (removed : b.removeAll ids = .ok c) :
    List.Forall₂ (fun h g => h.LedTo (firstLeft? b.order ids) g) b.handlers c.handlers := by
  have retained := sound.retains_code.removeAll sound.distinct removed
  rw [retained.handlers, List.forall₂_map_right_iff, List.forall₂_same]
  intro h member
  have lands := fun t named => retained.start h member t named
  have led := survivor?_removeAll sound removed
  obtain ⟨s, first⟩ := Option.isSome_iff_exists.mp (lands h.tryStart (by simp [Handler.starts]))
  obtain ⟨u, second⟩ :=
    Option.isSome_iff_exists.mp (lands h.handlerStart (by simp [Handler.starts]))
  rw [led] at first second
  exact ⟨rfl, rfl, by simp [Handler.relocate, landing, led, first],
    by simp [Handler.relocate, led], by simp [Handler.relocate, landing, led, second],
    by simp [Handler.relocate, led]⟩

/-- Removals of the same instructions that succeed leave the same code and the same handlers. -/
theorem removeAll_congr (sound : b.Sound) {others : List InstrId} {d : Body}
    (same : ∀ id, id ∈ others ↔ id ∈ ids) (removed : b.removeAll ids = .ok c)
    (again : b.removeAll others = .ok d) : d.code = c.code ∧ d.handlers = c.handlers := by
  have first := sound.retains_code.removeAll sound.distinct removed
  have second := sound.retains_code.removeAll sound.distinct again
  simp only [same] at second
  rw [first.code_eq sound.distinct, second.code_eq sound.distinct, first.handlers, second.handlers,
    first.order, second.order]
  exact ⟨rfl, rfl⟩

end removals

/-- Removals that succeed, in whatever order. What is left stands in its old order; every branch and
every start of a region names the first instruction left at or behind the one it named, and every
end does, or is gone if there is none. So the two regions of each handler hold what is left of them,
and another order of removing the same instructions leaves the same code and handlers. -/
theorem removals_compose (b : Body) (sound : b.Sound) (ids : List InstrId) (c : Body)
    (removed : b.removeAll ids = .ok c) :
    c.order = b.order.filter (· ∉ ids) ∧
      List.Forall₂ (fun e f => f.1 = e.1 ∧ e.2.LedTo (firstLeft? b.order ids) f.2)
        (b.code.filter fun e => e.1 ∉ ids) c.code ∧
      List.Forall₂ (fun h g => h.LedTo (firstLeft? b.order ids) g ∧
          region c.order g.tryStart g.tryEnd =
            (region b.order h.tryStart h.tryEnd).filter (· ∉ ids) ∧
          region c.order g.handlerStart g.handlerEnd =
            (region b.order h.handlerStart h.handlerEnd).filter (· ∉ ids))
        b.handlers c.handlers ∧
      ∀ others d, (∀ id, id ∈ others ↔ id ∈ ids) → b.removeAll others = .ok d →
        d.code = c.code ∧ d.listing = c.listing ∧ d.handlers = c.handlers := by
  have order := order_removeAll sound removed
  refine ⟨order, code_removeAll sound removed, ?_, ?_⟩
  · refine (handlers_removeAll sound removed).imp fun h g led => ⟨led, ?_, ?_⟩
    · rw [order, led.tryEnd]
      exact region_filter sound.distinct led.tryStart _
    · rw [order, led.handlerEnd]
      exact region_filter sound.distinct led.handlerStart _
  · intro others d same again
    obtain ⟨code, handlers⟩ := removeAll_congr sound same removed again
    exact ⟨code, by rw [listing, listing, code], handlers⟩

/-- A branch into the first of two adjacent regions of a handler. -/
def sampleRegions : StoredBody where
  instructions := [⟨.br, .target ⟨1⟩⟩, ⟨.nop, .none⟩, ⟨.nop, .none⟩, ⟨.nop, .none⟩, ⟨.ret, .none⟩]
  handlers :=
    [{ kind := .finalizing, tryStart := ⟨1⟩, tryEnd := some ⟨2⟩, handlerStart := ⟨2⟩,
       handlerEnd := some ⟨4⟩ }]

/-- Taking out the first region and a part of the second, in two orders. -/
theorem removals_compose_sample :
    ∃ b c d, sampleRegions.toBody = .ok b ∧ b.removeAll [⟨1⟩, ⟨2⟩] = .ok c ∧
      b.removeAll [⟨2⟩, ⟨1⟩] = .ok d ∧ c.order = [⟨0⟩, ⟨3⟩, ⟨4⟩] ∧
      c.order = b.order.filter (· ∉ [⟨1⟩, ⟨2⟩]) ∧ d.code = c.code ∧ d.handlers = c.handlers := by
  let b := sampleRegions.toBody.toOption.getD default
  let c := (b.removeAll [⟨1⟩, ⟨2⟩]).toOption.getD default
  let d := (b.removeAll [⟨2⟩, ⟨1⟩]).toOption.getD default
  have described : sampleRegions.toBody = .ok b := by decide +kernel
  have removed : b.removeAll [⟨1⟩, ⟨2⟩] = .ok c := by decide +kernel
  have again : b.removeAll [⟨2⟩, ⟨1⟩] = .ok d := by decide +kernel
  obtain ⟨order, _, _, same⟩ :=
    removals_compose b (StoredBody.sound_of_toBody described) _ c removed
  have equal := same [⟨2⟩, ⟨1⟩] d (fun id => by simp [or_comm]) again
  exact ⟨b, c, d, described, removed, again, by decide +kernel, order, equal.1, equal.2.2⟩

end Body

end NativeBridge
