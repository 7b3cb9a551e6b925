import NativeBridge.Body.Edit
import NativeBridge.Body.Stored
import NativeBridge.Proofs.LiveCode
import NativeBridge.Proofs.Success

/-! Removing instructions one after another. What is left is a part of the original order, and a
reference to an instruction that is gone names the first one left at or behind it. -/

namespace NativeBridge

namespace Instruction

variable (i : Instruction) (f g : InstrId → InstrId)

@[simp] theorem opcode_mapTarget : (i.mapTarget f).opcode = i.opcode := rfl

@[simp] theorem target?_mapTarget : (i.mapTarget f).target? = i.target?.map f := by
  rcases i with ⟨op, operand⟩
  cases operand <;> rfl

@[simp] theorem isMatched_mapTarget : (i.mapTarget f).isMatched = i.isMatched := by
  rcases i with ⟨op, operand⟩
  cases operand <;> rfl

@[simp] theorem slot?_mapTarget : (i.mapTarget f).slot? = i.slot? := by
  rcases i with ⟨op, operand⟩
  cases operand <;> rfl

@[simp] theorem field?_mapTarget : (i.mapTarget f).field? = i.field? := by
  rcases i with ⟨op, operand⟩
  cases operand <;> rfl

@[simp] theorem method?_mapTarget : (i.mapTarget f).method? = i.method? := by
  rcases i with ⟨op, operand⟩
  cases operand <;> rfl

@[simp] theorem mapTarget_mapTarget : (i.mapTarget f).mapTarget g = i.mapTarget (g ∘ f) := by
  rcases i with ⟨op, operand⟩
  cases operand <;> rfl

variable {i f g}

theorem target?_of_isMatched (matched : i.isMatched = true)
    (straight : i.opcode.operandKind ≠ .target) : i.target? = none := by
  obtain ⟨op, operand⟩ := i
  have kind : op.operandKind = operand.kind := by simpa [isMatched] using matched
  cases operand with
  | target t => exact absurd kind straight
  | _ => rfl

theorem mapTarget_congr (same : ∀ t, i.target? = some t → f t = g t) :
    i.mapTarget f = i.mapTarget g := by
  rcases i with ⟨op, operand⟩
  cases operand with
  | target t => simp [mapTarget, Operand.mapTarget, same t rfl]
  | _ => rfl

/-- An instruction whose target stays is not changed. -/
theorem mapTarget_eq_self (fixed : ∀ t, i.target? = some t → f t = t) : i.mapTarget f = i := by
  rcases i with ⟨op, operand⟩
  cases operand with
  | target t => simp [mapTarget, Operand.mapTarget, fixed t rfl]
  | _ => rfl

end Instruction

/-- The first of the identities still live that stands in an order at or behind a given one. -/
def survivor? (order live : List InstrId) (id : InstrId) : Option InstrId :=
  live.find? (order.dropWhile (· != id)).contains

section survivor

variable {order before after : List InstrId} {id : InstrId}

/-- What stands behind a member of a tail is in the tail, in the order and in each part of it. -/
private theorem pairwise_mem_dropWhile (distinct : order.Nodup) (p : InstrId → Bool) :
    order.Pairwise fun x y => x ∈ order.dropWhile p → y ∈ order.dropWhile p := by
  induction order with
  | nil => exact .nil
  | cons x rest ih =>
    obtain ⟨fresh, distinct⟩ := List.nodup_cons.mp distinct
    cases dropped : p x with
    | true =>
      -- The tail begins behind `x`, so nothing is claimed of `x` itself.
      rw [List.dropWhile_cons_of_pos dropped]
      refine .cons (fun y _ member => ?_) (ih distinct)
      exact absurd ((List.dropWhile_sublist p).subset member) fresh
    | false =>
      rw [List.dropWhile_cons_of_neg (by simp [dropped])]
      refine .cons (fun y member _ => List.mem_cons_of_mem x member) ?_
      exact List.pairwise_of_forall_mem_list fun _ _ y member _ => List.mem_cons_of_mem x member

/-- When identities are split at a place of the order, the second part begins with the survivor. -/
theorem survivor?_of_split {front rear live₁ live₂ : List InstrId}
    (distinct : (front ++ id :: rear).Nodup) (first : live₁ ⊆ front)
    (second : live₂ ⊆ id :: rear) :
    survivor? (front ++ id :: rear) (live₁ ++ live₂) id = live₂.head? := by
  obtain ⟨_, _, apart⟩ := List.nodup_append.mp distinct
  have tail : (front ++ id :: rear).dropWhile (· != id) = id :: rear := by
    rw [List.dropWhile_append_of_pos, List.dropWhile_cons_of_neg (by simp)]
    intro x member
    simpa using apart x member id List.mem_cons_self
  have skipped : live₁.find? (id :: rear).contains = none := by
    rw [List.find?_eq_none]
    intro x member inRear
    exact apart x (first member) x (by simpa using inRear) rfl
  rw [survivor?, tail, List.find?_append, skipped, Option.none_or]
  cases live₂ with
  | nil => rfl
  | cons x rest =>
    exact List.find?_cons_of_pos (by simpa using second List.mem_cons_self)

/-- While nothing has been removed, every identity survives. -/
theorem survivor?_self (distinct : order.Nodup) (member : id ∈ order) :
    survivor? order order id = some id := by
  obtain ⟨front, rear, rfl⟩ := List.append_of_mem member
  rw [survivor?_of_split distinct (List.Subset.refl front) (List.Subset.refl _)]
  rfl

/-- Removing an identity passes what it stood for on to the one behind it. -/
theorem survivor?_remove (distinct : order.Nodup)
    (part : (before ++ id :: after).Sublist order) (t : InstrId) :
    survivor? order (before ++ after) t =
      if survivor? order (before ++ id :: after) t = some id then after.head?
      else survivor? order (before ++ id :: after) t := by
  unfold survivor?
  -- Both sides look for the first live identity in the part of the order that begins at `t`.
  generalize tail : (order.dropWhile (· != t)) = suffix
  have fresh : id ∉ before := by
    have parts := (distinct.sublist part)
    rw [List.nodup_append] at parts
    exact fun member => parts.2.2 id member id List.mem_cons_self rfl
  have closed : ∀ x ∈ after, id ∈ suffix → x ∈ suffix := by
    have ordered := (pairwise_mem_dropWhile distinct (· != t)).sublist part
    rw [tail, List.pairwise_append, List.pairwise_cons] at ordered
    exact ordered.2.1.1
  rw [List.find?_append, List.find?_append]
  cases found : before.find? suffix.contains with
  | some x =>
    -- It stands before `id`, so the removal does not matter.
    have other : x ≠ id := by
      rintro rfl
      exact fresh (List.mem_of_find?_eq_some found)
    simp [other]
  | none =>
    by_cases inside : id ∈ suffix
    · -- It was `id`. What stands behind `id` is in that part too, so the next one takes its place.
      rw [List.find?_cons_of_pos (by simpa using inside)]
      cases after with
      | nil => simp
      | cons x rest =>
        rw [List.find?_cons_of_pos (by simpa using closed x List.mem_cons_self inside)]
        simp
    · -- The search passes over `id`.
      rw [List.find?_cons_of_neg (by simpa using inside)]
      have other : after.find? suffix.contains ≠ some id := by
        intro same
        exact inside (by simpa using List.find?_some same)
      rw [Option.none_or, if_neg other]

end survivor

namespace Body

/-- How the references to an instruction that goes are moved. -/
def handOver (id : InstrId) (next : Option InstrId) (t : InstrId) : InstrId :=
  if t = id then next.getD id else t

/-- What a removal leaves of a body: the live instructions and the handlers with the references to
the instruction that went handed over to the next one, which must be there if there are any. -/
structure Removed (b : Body) (id : InstrId) (before after : List InstrId) (c : Body) : Prop where
  split : b.order = before ++ id :: after
  order : c.order = before ++ after
  held : ∀ x ∈ b.order, c.get? x = (b.get? x).map (·.mapTarget (handOver id after.head?))
  handlers : c.handlers = b.handlers.map fun h =>
    (h.mapStarts (handOver id after.head?)).moveEnds id after.head?
  needed : b.isReferenced id → after.head?.isSome
  locals : c.locals = b.locals
  receiver : c.hasReceiver = b.hasReceiver

theorem isReferenced_iff (b : Body) (id : InstrId) :
    b.isReferenced id = true ↔
      (∃ x i, (x, i) ∈ b.code ∧ i.target? = some id) ∨ ∃ h ∈ b.handlers, id ∈ h.starts := by
  simp only [isReferenced, Bool.or_eq_true, List.any_eq_true, beq_iff_eq, Prod.exists,
    Handler.starts, List.mem_cons, List.not_mem_nil, or_false, eq_comm (a := id)]

/-- Where nothing refers to an instruction, handing over its references changes nothing. -/
private theorem handOver_of_unreferenced {b : Body} {id : InstrId}
    (free : b.isReferenced id = false) (next : Option InstrId) :
    (∀ x ∈ b.order, b.get? x = (b.get? x).map (·.mapTarget (handOver id next))) ∧
      ∀ h ∈ b.handlers, h.mapStarts (handOver id next) = h := by
  have unnamed := mt (b.isReferenced_iff id).mpr (by simp [free])
  rw [not_or] at unnamed
  constructor
  · intro x live
    cases held : b.get? x with
    | none => rfl
    | some i =>
      refine congrArg some (Eq.symm (Instruction.mapTarget_eq_self fun t named => if_neg ?_))
      rintro rfl
      exact unnamed.1 ⟨x, i, (b.mem_code_iff x i).mpr ⟨live, held⟩, named⟩
  · intro h member
    have other : ∀ t ∈ h.starts, handOver id next t = t := by
      intro t start
      refine if_neg ?_
      rintro rfl
      exact unnamed.2 ⟨h, member, start⟩
    simp [Handler.mapStarts, other h.tryStart (by simp [Handler.starts]),
      other h.handlerStart (by simp [Handler.starts])]

theorem get?_retarget (b : Body) (source dest x : InstrId) :
    (b.retarget source dest).get? x =
      (b.get? x).map (·.mapTarget (handOver source (some dest))) := by
  simp only [retarget, get?, List.getElem?_map]
  rfl

/-- Releasing an instruction hands its references over and keeps the order. -/
private theorem release_spec {b r : Body} {id : InstrId} {next : Option InstrId}
    (released : b.release id next = .ok r) :
    (∀ x ∈ b.order, r.get? x = (b.get? x).map (·.mapTarget (handOver id next))) ∧
      r.handlers = b.handlers.map (·.mapStarts (handOver id next)) ∧
      (b.isReferenced id → next.isSome) ∧
      r.order = b.order ∧ r.locals = b.locals ∧ r.hasReceiver = b.hasReceiver := by
  unfold release at released
  cases named : b.isReferenced id with
  | true =>
    cases next with
    | none => simp [named] at released
    | some next =>
      simp only [named, if_true, Except.ok.injEq] at released
      subst released
      exact ⟨fun x _ => b.get?_retarget id next x, rfl, fun _ => rfl, rfl, rfl, rfl⟩
  | false =>
    -- Nothing is written, but there is nothing to hand over either.
    simp only [named, Bool.false_eq_true, if_false, Except.ok.injEq] at released
    subst released
    obtain ⟨held, starts⟩ := handOver_of_unreferenced named next
    refine ⟨held, ?_, by simp, rfl, rfl, rfl⟩
    exact ((List.map_congr_left starts).trans (List.map_id' b.handlers)).symm

/-- A removal that succeeds. -/
theorem removed_of_remove {b c : Body} {id : InstrId} {i : Instruction} {before : List InstrId}
    {after : List InstrId} (split : b.order = before ++ id :: after) (first : id ∉ before)
    (removed : b.remove id = .ok (i, c)) : b.Removed id before after c := by
  have there : b.position? id = some before.length := by
    have absent : before.findIdx? (· == id) = none := by
      rw [List.findIdx?_eq_none_iff]
      intro x member
      exact beq_false_of_ne fun same => first (same ▸ member)
    rw [position?, split, List.findIdx?_append, absent]
    simp [List.findIdx?_cons]
  have next : b.order[before.length + 1]? = after.head? := by
    rw [split, List.getElem?_append_right (by omega)]
    cases after <;> simp
  have rest : b.order.eraseIdx before.length = before ++ after := by
    rw [split, List.eraseIdx_append_of_length_le (by omega)]
    simp
  unfold remove Body.place at removed
  cases known : b.get? id with
  | none => simp [known] at removed
  | some old =>
    simp only [known, there, next, Success.ok_bind, Success.bind_ok_iff] at removed
    obtain ⟨r, released, removed⟩ := removed
    obtain ⟨held, handlers, needed, order, locals, receiver⟩ := release_spec released
    cases found : r.get? id with
    | none => simp [found] at removed
    | some j =>
      simp only [found, Success.pure_ok_iff, Prod.mk.injEq] at removed
      obtain ⟨rfl, rfl⟩ := removed
      refine ⟨split, by simp only [order, rest], held, ?_, needed, locals, receiver⟩
      simp only [handlers, List.map_map]
      rfl

end Body

/-- Where a reference into an order leads when only some identities are live. -/
def landing (order live : List InstrId) (t : InstrId) : InstrId := (survivor? order live t).getD t

namespace Body.Removed

variable {b c : Body} {id : InstrId} {order before after : List InstrId}

theorem sublist (spec : b.Removed id before after c) : c.order.Sublist b.order := by
  rw [spec.order, spec.split]
  exact (List.sublist_cons_self id after).append_left before

theorem survivor?_eq (spec : b.Removed id before after c) (distinct : order.Nodup)
    (part : b.order.Sublist order) (t : InstrId) :
    survivor? order c.order t =
      if survivor? order b.order t = some id then after.head? else survivor? order b.order t := by
  rw [spec.order, spec.split]
  exact survivor?_remove distinct (spec.split ▸ part) t

theorem bind_survivor? (spec : b.Removed id before after c) (distinct : order.Nodup)
    (part : b.order.Sublist order) (t : Option InstrId) :
    t.bind (survivor? order c.order) =
      if t.bind (survivor? order b.order) = some id then after.head?
      else t.bind (survivor? order b.order) := by
  cases t with
  | none => rfl
  | some t => exact spec.survivor?_eq distinct part t

/-- A reference that led somewhere still does: one to the removed instruction made it a referenced
one, which has a next. -/
theorem lands (spec : b.Removed id before after c) (distinct : order.Nodup)
    (part : b.order.Sublist order) {t : InstrId} (lands : (survivor? order b.order t).isSome)
    (named : ∀ {s}, survivor? order b.order t = some s → b.isReferenced s = true) :
    (survivor? order c.order t).isSome ∧
      landing order c.order t = handOver id after.head? (landing order b.order t) := by
  obtain ⟨s, lands⟩ := Option.isSome_iff_exists.mp lands
  simp only [spec.survivor?_eq distinct part, landing, lands, Option.some.injEq, handOver,
    Option.getD_some]
  split
  next same =>
    obtain ⟨heir, next⟩ := Option.isSome_iff_exists.mp (spec.needed (same ▸ named lands))
    simp [next]
  next => exact ⟨rfl, rfl⟩

end Body.Removed

/-- A handler whose regions start and end where what is left of them does. -/
def Handler.relocate (order live : List InstrId) (h : Handler) : Handler :=
  { h with
    tryStart := landing order live h.tryStart
    tryEnd := h.tryEnd.bind (survivor? order live)
    handlerStart := landing order live h.handlerStart
    handlerEnd := h.handlerEnd.bind (survivor? order live) }

namespace Body

/-- Every reference of a body names a live instruction. -/
structure Sound (b : Body) : Prop extends b.WellFormed where
  branch : ∀ entry ∈ b.code, ∀ t, entry.2.target? = some t → t ∈ b.order
  start : ∀ h ∈ b.handlers, ∀ t ∈ h.starts, t ∈ b.order
  finish : ∀ h ∈ b.handlers, ∀ t ∈ h.ends, t ∈ b.order

/-- A body holds what was kept of another one: some of its instructions, in their order and perhaps
replaced, with all references led to what is left. Branches are listed with the targets they had. -/
structure Retains (b origin : Body) (kept : List (InstrId × Instruction)) : Prop where
  order : b.order = kept.map (·.1)
  part : b.order.Sublist origin.order
  held : ∀ id i, (id, i) ∈ kept → b.get? id = some (i.mapTarget (landing origin.order b.order))
  branch : ∀ id i, (id, i) ∈ kept → ∀ t, i.target? = some t →
    (survivor? origin.order b.order t).isSome
  start : ∀ h ∈ origin.handlers, ∀ t ∈ h.starts, (survivor? origin.order b.order t).isSome
  handlers : b.handlers = origin.handlers.map (·.relocate origin.order b.order)
  locals : b.locals = origin.locals
  receiver : b.hasReceiver = origin.hasReceiver

/-- A body retains its own code. -/
theorem Sound.retains_code {b : Body} (sound : b.Sound) : b.Retains b b.code := by
  have stays : ∀ t ∈ b.order, survivor? b.order b.order t = some t :=
    fun t live => survivor?_self sound.distinct live
  refine ⟨(map_fst_code sound.toWellFormed).symm, List.Sublist.refl _, ?_, ?_, ?_, ?_, rfl, rfl⟩
  · intro id i member
    rw [((b.mem_code_iff id i).mp member).2, Instruction.mapTarget_eq_self]
    intro t named
    simp [landing, stays t (sound.branch (id, i) member t named)]
  · intro id i member t named
    simp [stays t (sound.branch (id, i) member t named)]
  · intro h member t named
    simp [stays t (sound.start h member t named)]
  · have same : ∀ h ∈ b.handlers, h.relocate b.order b.order = h := by
      intro h member
      have tryEnd : h.tryEnd.bind (survivor? b.order b.order) = h.tryEnd := by
        cases ended : h.tryEnd with
        | none => rfl
        | some t => exact stays t (sound.finish h member t (by simp [Handler.ends, ended]))
      have handlerEnd : h.handlerEnd.bind (survivor? b.order b.order) = h.handlerEnd := by
        cases ended : h.handlerEnd with
        | none => rfl
        | some t => exact stays t (sound.finish h member t (by simp [Handler.ends, ended]))
      simp [Handler.relocate, landing, tryEnd, handlerEnd,
        stays h.tryStart (sound.start h member _ (by simp [Handler.starts])),
        stays h.handlerStart (sound.start h member _ (by simp [Handler.starts]))]
    exact ((List.map_congr_left same).trans (List.map_id' b.handlers)).symm

namespace Retains

variable {b origin c : Body} {kept before after : List (InstrId × Instruction)} {id : InstrId}
  {i : Instruction}

theorem wellFormed (retained : b.Retains origin kept) (distinct : origin.order.Nodup) :
    b.WellFormed where
  distinct := distinct.sublist retained.part
  present := by
    intro id live
    rw [retained.order, List.mem_map] at live
    obtain ⟨⟨id, i⟩, member, rfl⟩ := live
    have found := retained.held id i member
    exact (List.getElem?_eq_some_iff.mp found).1

/-- The live code is what was kept, with the branches led to what is left. -/
theorem code_eq (retained : b.Retains origin kept) (distinct : origin.order.Nodup) :
    b.code = kept.map fun entry =>
      (entry.1, entry.2.mapTarget (landing origin.order (kept.map (·.1)))) := by
  rw [code_eq_map (retained.wellFormed distinct), retained.order, List.map_map]
  apply List.map_congr_left
  intro entry member
  simp [retained.held entry.1 entry.2 member, ← retained.order]

/-- References that were led to what is left name live instructions. -/
theorem sound (retained : b.Retains origin kept) (distinct : origin.order.Nodup) : b.Sound := by
  have live : ∀ {t s}, survivor? origin.order b.order t = some s → s ∈ b.order :=
    fun lands => List.mem_of_find?_eq_some lands
  have lands : ∀ {t}, (survivor? origin.order b.order t).isSome →
      landing origin.order b.order t ∈ b.order := by
    intro t found
    obtain ⟨s, found⟩ := Option.isSome_iff_exists.mp found
    rw [landing, found]
    exact live found
  refine ⟨retained.wellFormed distinct, ?_, ?_, ?_⟩
  · intro entry member t named
    rw [retained.code_eq distinct, List.mem_map] at member
    obtain ⟨⟨id, i⟩, member, rfl⟩ := member
    simp only [Instruction.target?_mapTarget, Option.map_eq_some_iff, ← retained.order] at named
    obtain ⟨t, named, rfl⟩ := named
    exact lands (retained.branch id i member t named)
  · intro h member t named
    rw [retained.handlers, List.mem_map] at member
    obtain ⟨h, member, rfl⟩ := member
    have starts := retained.start h member
    simp only [Handler.starts, Handler.relocate, List.mem_cons, List.not_mem_nil,
      or_false] at named starts
    rcases named with rfl | rfl
    · exact lands (starts _ (Or.inl rfl))
    · exact lands (starts _ (Or.inr rfl))
  · intro h member t named
    rw [retained.handlers, List.mem_map] at member
    obtain ⟨h, member, rfl⟩ := member
    simp only [Handler.ends, Handler.relocate, List.mem_append, Option.mem_toList,
      Option.bind_eq_some_iff] at named
    rcases named with ⟨_, _, found⟩ | ⟨_, _, found⟩
    · exact live found
    · exact live found

/-- An identity is kept once. -/
theorem fresh (retained : b.Retains origin (before ++ (id, i) :: after))
    (distinct : origin.order.Nodup) : id ∉ before.map (·.1) ∧ id ∉ after.map (·.1) := by
  have parts := distinct.sublist retained.part
  rw [retained.order, List.map_append, List.map_cons, List.nodup_append, List.nodup_cons] at parts
  exact ⟨fun member => parts.2.2 id member id List.mem_cons_self rfl, parts.2.1.1⟩

theorem isReferenced_of_branch (retained : b.Retains origin kept) (member : (id, i) ∈ kept)
    {t s : InstrId} (named : i.target? = some t)
    (lands : survivor? origin.order b.order t = some s) : b.isReferenced s = true := by
  have live : id ∈ b.order := by
    rw [retained.order]
    exact List.mem_map_of_mem member
  refine (b.isReferenced_iff s).mpr
    (Or.inl ⟨id, i.mapTarget (landing origin.order b.order), ?_, ?_⟩)
  · exact (b.mem_code_iff id _).mpr ⟨live, retained.held id i member⟩
  · simp [named, landing, lands]

theorem isReferenced_of_start (retained : b.Retains origin kept) {h : Handler}
    (member : h ∈ origin.handlers) {t s : InstrId} (named : t ∈ h.starts)
    (lands : survivor? origin.order b.order t = some s) : b.isReferenced s = true := by
  refine (b.isReferenced_iff s).mpr (Or.inr ⟨h.relocate origin.order b.order, ?_, ?_⟩)
  · rw [retained.handlers]
    exact List.mem_map_of_mem member
  · simp only [Handler.starts, List.mem_cons, List.not_mem_nil, or_false] at named ⊢
    rcases named with rfl | rfl <;> simp [Handler.relocate, landing, lands]

/-- Removing an instruction that was kept. -/
theorem remove (retained : b.Retains origin (before ++ (id, i) :: after))
    (distinct : origin.order.Nodup) {j : Instruction} (removed : b.remove id = .ok (j, c)) :
    c.Retains origin (before ++ after) := by
  have spec : b.Removed id (before.map (·.1)) (after.map (·.1)) c :=
    removed_of_remove (by simpa using retained.order) (retained.fresh distinct).1 removed
  have stays : ∀ x j, (x, j) ∈ before ++ after → (x, j) ∈ before ++ (id, i) :: after := by
    intro x j member
    simp only [List.mem_append, List.mem_cons] at member ⊢
    tauto
  -- A reference that leads to `id` makes it a referenced one, so that the removal has found a next
  -- instruction for it; every other reference leads where it did.
  have branches := fun x j (member : (x, j) ∈ before ++ after) t (named : j.target? = some t) =>
    spec.lands distinct retained.part (retained.branch x j (stays x j member) t named)
      (retained.isReferenced_of_branch (stays x j member) named)
  have starts := fun h (member : h ∈ origin.handlers) t (named : t ∈ h.starts) =>
    spec.lands distinct retained.part (retained.start h member t named)
      (retained.isReferenced_of_start member named)
  have part : c.order.Sublist origin.order := spec.sublist.trans retained.part
  refine ⟨by rw [spec.order, List.map_append], part, ?_, fun x j member t named =>
    (branches x j member t named).1, fun h member t named => (starts h member t named).1, ?_,
    spec.locals.trans retained.locals, spec.receiver.trans retained.receiver⟩
  · intro x j member
    have live : x ∈ b.order := by
      rw [retained.order]
      exact List.mem_map_of_mem (stays x j member)
    rw [spec.held x live, retained.held x j (stays x j member), Option.map_some,
      Instruction.mapTarget_mapTarget]
    exact congrArg some (Instruction.mapTarget_congr fun t named =>
      (branches x j member t named).2.symm)
  · rw [spec.handlers, retained.handlers, List.map_map]
    apply List.map_congr_left
    intro h member
    simp only [Function.comp_apply, Handler.relocate, Handler.mapStarts, Handler.moveEnds,
      spec.bind_survivor? distinct retained.part,
      (starts h member h.tryStart (by simp [Handler.starts])).2,
      (starts h member h.handlerStart (by simp [Handler.starts])).2]
    congr

/-- Replacing an instruction that was kept by one that does not branch. -/
theorem replace (retained : b.Retains origin (before ++ (id, i) :: after))
    (distinct : origin.order.Nodup) {j old : Instruction} (straight : j.target? = none)
    (replaced : b.replace id j = .ok (old, c)) :
    c.Retains origin (before ++ (id, j) :: after) := by
  unfold Body.replace at replaced
  simp only [Success.bind_ok_iff] at replaced
  obtain ⟨place, _, replaced⟩ := replaced
  cases known : b.get? id with
  | none => simp [known] at replaced
  | some k =>
    simp only [known, Success.pure_ok_iff, Prod.mk.injEq] at replaced
    obtain ⟨rfl, rfl⟩ := replaced
    have fresh := retained.fresh distinct
    have order := retained.order
    refine ⟨by simpa using order, retained.part, ?_, ?_, retained.start, retained.handlers,
      retained.locals, retained.receiver⟩
    · intro x l member
      simp only [List.mem_append, List.mem_cons, Prod.mk.injEq] at member
      by_cases same : x = id
      · -- An identity is kept once, so this entry is the one replaced.
        subst same
        obtain rfl : l = j := by
          rcases member with early | ⟨-, rfl⟩ | late
          · exact absurd (List.mem_map_of_mem (f := (·.1)) early) fresh.1
          · rfl
          · exact absurd (List.mem_map_of_mem (f := (·.1)) late) fresh.2
        have inside := (List.getElem?_eq_some_iff.mp known).1
        rw [Instruction.mapTarget_eq_self (by simp [straight])]
        simp [get?, inside]
      · have other : id.index ≠ x.index := fun equal => same (by cases x; cases id; simp_all)
        have kept : (x, l) ∈ before ++ (id, i) :: after := by
          simp only [List.mem_append, List.mem_cons, Prod.mk.injEq]
          tauto
        have held := retained.held x l kept
        rw [get?] at held ⊢
        rw [List.getElem?_set_ne other, held]
    · intro x l member t named
      simp only [List.mem_append, List.mem_cons, Prod.mk.injEq] at member
      rcases member with early | ⟨rfl, rfl⟩ | late
      · exact retained.branch x l (by simp [early]) t named
      · simp [straight] at named
      · exact retained.branch x l (by simp [late]) t named

end Retains

/-- A body holds the instructions of a list, in its order, wherever their branches lead. It has the
declarations of another body. -/
structure Lists (b origin : Body) (kept : List (InstrId × Instruction)) : Prop where
  order : b.order = kept.map (·.1)
  distinct : b.order.Nodup
  held : ∀ id i, (id, i) ∈ kept → ∃ move, b.get? id = some (i.mapTarget move)
  locals : b.locals = origin.locals
  receiver : b.hasReceiver = origin.hasReceiver

/-- A relation between bodies and lists of their instructions that edits carry along. -/
structure Tracks (origin : Body) (R : Body → List (InstrId × Instruction) → Prop) : Prop where
  lists : ∀ {b kept}, R b kept → b.Lists origin kept
  remove : ∀ {b c before after id i j}, R b (before ++ (id, i) :: after) →
    b.remove id = .ok (j, c) → R c (before ++ after)
  replace : ∀ {b c before after id i j old}, R b (before ++ (id, i) :: after) →
    j.target? = none → b.replace id j = .ok (old, c) → R c (before ++ (id, j) :: after)

namespace Lists

variable {b origin c : Body} {kept before after : List (InstrId × Instruction)} {id : InstrId}
  {i : Instruction}

theorem wellFormed (listed : b.Lists origin kept) : b.WellFormed where
  distinct := listed.distinct
  present := by
    intro id live
    rw [listed.order, List.mem_map] at live
    obtain ⟨⟨id, i⟩, member, rfl⟩ := live
    obtain ⟨_, found⟩ := listed.held id i member
    exact (List.getElem?_eq_some_iff.mp found).1

theorem fresh (listed : b.Lists origin (before ++ (id, i) :: after)) :
    id ∉ before.map (·.1) ∧ id ∉ after.map (·.1) := by
  have parts := listed.distinct
  rw [listed.order, List.map_append, List.map_cons, List.nodup_append, List.nodup_cons] at parts
  exact ⟨fun member => parts.2.2 id member id List.mem_cons_self rfl, parts.2.1.1⟩

theorem remove (listed : b.Lists origin (before ++ (id, i) :: after)) {j : Instruction}
    (removed : b.remove id = .ok (j, c)) : c.Lists origin (before ++ after) := by
  have spec : b.Removed id (before.map (·.1)) (after.map (·.1)) c :=
    removed_of_remove (by simpa using listed.order) listed.fresh.1 removed
  refine ⟨by rw [spec.order, List.map_append], listed.distinct.sublist spec.sublist, ?_,
    spec.locals.trans listed.locals, spec.receiver.trans listed.receiver⟩
  intro x l member
  have inside : (x, l) ∈ before ++ (id, i) :: after := by
    simp only [List.mem_append, List.mem_cons] at member ⊢
    tauto
  -- Whatever was done to the target before, the removal hands it over once more.
  obtain ⟨move, held⟩ := listed.held x l inside
  have live : x ∈ b.order := listed.order ▸ List.mem_map_of_mem inside
  exact ⟨_, by rw [spec.held x live, held, Option.map_some, Instruction.mapTarget_mapTarget]⟩

theorem replace (listed : b.Lists origin (before ++ (id, i) :: after)) {j old : Instruction}
    (straight : j.target? = none) (replaced : b.replace id j = .ok (old, c)) :
    c.Lists origin (before ++ (id, j) :: after) := by
  unfold Body.replace at replaced
  obtain ⟨place, _, replaced⟩ := (Success.bind_ok_iff ..).mp replaced
  cases known : b.get? id with
  | none => simp [known] at replaced
  | some k =>
    simp only [known, Success.pure_ok_iff, Prod.mk.injEq] at replaced
    obtain ⟨rfl, rfl⟩ := replaced
    have order := listed.order
    refine ⟨by simpa using order, listed.distinct, ?_, listed.locals, listed.receiver⟩
    intro x l member
    simp only [List.mem_append, List.mem_cons, Prod.mk.injEq] at member
    by_cases same : x = id
    · -- An identity is listed once, so this is the entry that was replaced.
      subst same
      obtain rfl : l = j := by
        rcases member with early | ⟨-, rfl⟩ | late
        · exact absurd (List.mem_map_of_mem (f := (·.1)) early) listed.fresh.1
        · rfl
        · exact absurd (List.mem_map_of_mem (f := (·.1)) late) listed.fresh.2
      have inside := (List.getElem?_eq_some_iff.mp known).1
      exact ⟨fun t => t, by
        rw [Instruction.mapTarget_eq_self (by simp [straight])]; simp [get?, inside]⟩
    · have other : id.index ≠ x.index := fun equal => same (by cases x; cases id; simp_all)
      obtain ⟨move, held⟩ := listed.held x l (by
        simp only [List.mem_append, List.mem_cons, Prod.mk.injEq]; tauto)
      refine ⟨move, ?_⟩
      rw [get?] at held ⊢
      rw [List.getElem?_set_ne other, held]

end Lists

theorem lists_tracks (origin : Body) : Tracks origin fun b kept => b.Lists origin kept where
  lists listed := listed
  remove listed := listed.remove
  replace listed := listed.replace

theorem WellFormed.lists_code {b : Body} (formed : b.WellFormed) : b.Lists b b.code := by
  refine ⟨(map_fst_code formed).symm, formed.distinct, fun id i member => ?_, rfl, rfl⟩
  refine ⟨fun t => t, ?_⟩
  rw [((b.mem_code_iff id i).mp member).2, Instruction.mapTarget_eq_self fun _ _ => rfl]

theorem retains_tracks {origin : Body} (distinct : origin.order.Nodup) :
    Tracks origin fun b kept => b.Retains origin kept where
  lists retained := ⟨retained.order, distinct.sublist retained.part,
    fun id i member => ⟨_, retained.held id i member⟩, retained.locals, retained.receiver⟩
  remove retained := retained.remove distinct
  replace retained := retained.replace distinct

end Body

end NativeBridge
