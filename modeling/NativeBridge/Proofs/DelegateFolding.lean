import NativeBridge.Proofs.EditHistory
import NativeBridge.Proofs.Interruption
import NativeBridge.Proofs.ReferenceScan

/-! Delegates that become handles, one after another. Each fold takes three instructions that stood
next to each other from the start: the load of a handle is no plain load, so no fold prepares
another one. Where nothing leads to the instructions that go, every edit of a fold succeeds. -/

namespace NativeBridge

/-- What is still live survives as itself. -/
theorem survivor?_of_mem {order live : List InstrId} (distinct : order.Nodup)
    (part : live.Sublist order) {id : InstrId} (member : id ∈ live) :
    survivor? order live id = some id := by
  obtain ⟨front, rear, rfl⟩ := List.append_of_mem (part.subset member)
  obtain ⟨early, late, rfl, first, second⟩ := List.sublist_append_iff.mp part
  obtain ⟨_, tail, apart⟩ := List.nodup_append.mp distinct
  have inLate : id ∈ late :=
    (List.mem_append.mp member).resolve_left fun inEarly =>
      apart id (first.subset inEarly) id List.mem_cons_self rfl
  rw [survivor?_of_split distinct first.subset second.subset]
  rcases List.sublist_cons_iff.mp second with behind | ⟨rest, rfl, _⟩
  · exact absurd (behind.subset inLate) (List.nodup_cons.mp tail).1
  · rfl

namespace Body

variable {b origin : Body} {kept : List (InstrId × Instruction)} {id : InstrId}

/-- A live instruction can always be replaced. -/
theorem replace_ne_error (formed : b.WellFormed) (live : id ∈ b.order) (i : Instruction)
    (cause : EditError) : b.replace id i ≠ .error cause := by
  obtain ⟨place, position⟩ := (b.position?_isSome_iff id).mpr live
  obtain ⟨old, held⟩ := get?_isSome_of_live formed live
  simp [replace, Body.place, position, held]

/-- The removal of a live instruction is refused only if something names the last one. -/
theorem remove_error (formed : b.WellFormed) (live : id ∈ b.order) {cause : EditError}
    (refused : b.remove id = .error cause) : b.isReferenced id = true ∧ b.next? id = none := by
  obtain ⟨place, position⟩ := (b.position?_isSome_iff id).mpr live
  obtain ⟨old, held⟩ := get?_isSome_of_live formed live
  have placed : b.place id = .ok place := by simp [Body.place, position, held]
  rw [remove, placed, Success.ok_bind, Success.bind_error_iff] at refused
  rcases refused with refused | ⟨r, released, refused⟩
  · unfold release at refused
    split at refused
    next named =>
      split at refused
      next last => exact ⟨named, by rw [next?, position]; exact last⟩
      next => cases refused
    next => cases refused
  · -- Once it is released, nothing can go wrong.
    rcases get?_of_release released id with same | ⟨heir, _, same⟩
    · rw [same, held] at refused
      cases refused
    · rw [same, held] at refused
      cases refused

/-- Where everything named is kept, what is left names no more than the original body did. -/
theorem Retains.isReferenced_origin (retained : b.Retains origin kept)
    (distinct : origin.order.Nodup)
    (branches : ∀ entry ∈ kept, ∀ t, entry.2.target? = some t → entry ∈ origin.code)
    (stays : ∀ t, origin.isReferenced t = true → t ∈ b.order) {s : InstrId}
    (named : b.isReferenced s = true) : origin.isReferenced s = true := by
  -- A reference that is kept leads to what it named at first.
  have leads : ∀ {t}, origin.isReferenced t = true → landing origin.order b.order t = t := by
    intro t named
    rw [landing, survivor?_of_mem distinct retained.part (stays t named)]
    rfl
  rcases (b.isReferenced_iff s).mp named with ⟨x, i, member, target⟩ | ⟨h, member, start⟩
  · rw [retained.code_eq distinct, List.mem_map] at member
    obtain ⟨⟨x, i⟩, member, ⟨⟩⟩ := member
    simp only [Instruction.target?_mapTarget, Option.map_eq_some_iff, ← retained.order] at target
    obtain ⟨t, target, rfl⟩ := target
    have origin_named : origin.isReferenced t = true :=
      (origin.isReferenced_iff t).mpr (Or.inl ⟨x, i, branches _ member t target, target⟩)
    rwa [leads origin_named]
  · rw [retained.handlers, List.mem_map] at member
    obtain ⟨h, member, rfl⟩ := member
    have starts : ∀ t ∈ h.starts, origin.isReferenced t = true := fun t named =>
      (origin.isReferenced_iff t).mpr (Or.inr ⟨h, member, named⟩)
    simp only [Handler.starts, Handler.relocate, List.mem_cons, List.not_mem_nil, or_false]
      at start starts
    rcases start with rfl | rfl
    · rw [leads (starts _ (Or.inl rfl))]
      exact starts _ (Or.inl rfl)
    · rw [leads (starts _ (Or.inr rfl))]
      exact starts _ (Or.inr rfl)

end Body

namespace Pass

/-- Three instructions make a delegate of a type with a native signature. -/
structure MakesDelegate (m : Module) (plain address construct : Instruction) (ctor : MethodRef) :
    Prop where
  simple : plain.opcode.isPlainLoad = true
  loads : address.opcode = .ldftn
  target : address.method?.isSome = true
  constructs : construct.opcode = .newobj
  named : construct.method? = some ctor
  signed : ((m.findType? ctor.declaringType).bind (·.nativeSignature)).isSome = true

/-- Three instructions make a delegate from two values, and control enters only at the first. -/
structure Foldable (m : Module) (b : Body) (plain address construct : InstrId × Instruction)
    (ctor : MethodRef) : Prop extends MakesDelegate m plain.2 address.2 construct.2 ctor where
  binary : ctor.params.length = 2
  unnamedAddress : b.isReferenced address.1 = false
  unnamedConstruct : b.isReferenced construct.1 = false

/-- Wherever a body makes a delegate, it does so from two values, and control enters only at the
first instruction. The rule does not see to this. -/
def DelegatesFit (m : Module) (b : Body) : Prop :=
  ∀ place plain address construct ctor, b.code[place]? = some plain →
    b.code[place + 1]? = some address → b.code[place + 2]? = some construct →
    MakesDelegate m plain.2 address.2 construct.2 ctor →
    Foldable m b plain address construct ctor

instance (m : Module) (plain address construct : Instruction) (ctor : MethodRef) :
    Decidable (MakesDelegate m plain address construct ctor) :=
  decidable_of_iff (plain.opcode.isPlainLoad = true ∧ address.opcode = .ldftn ∧
      address.method?.isSome = true ∧ construct.opcode = .newobj ∧
      construct.method? = some ctor ∧
      ((m.findType? ctor.declaringType).bind (·.nativeSignature)).isSome = true)
    ⟨fun ⟨simple, loads, target, constructs, named, signed⟩ =>
        ⟨simple, loads, target, constructs, named, signed⟩,
      fun made => ⟨made.simple, made.loads, made.target, made.constructs, made.named, made.signed⟩⟩

/-- Only the places of the code have to be looked at. -/
theorem delegatesFit_iff (m : Module) (b : Body) :
    DelegatesFit m b ↔ ∀ place < b.code.length, ∀ plain ∈ b.code[place]?,
      ∀ address ∈ b.code[place + 1]?, ∀ construct ∈ b.code[place + 2]?,
      ∀ ctor ∈ construct.2.method?, MakesDelegate m plain.2 address.2 construct.2 ctor →
        ctor.params.length = 2 ∧ b.isReferenced address.1 = false ∧
          b.isReferenced construct.1 = false := by
  constructor
  · intro fits place _ plain first address second construct third ctor _ made
    have foldable := fits place plain address construct ctor first second third made
    exact ⟨foldable.binary, foldable.unnamedAddress, foldable.unnamedConstruct⟩
  · intro fits place plain address construct ctor first second third made
    obtain ⟨binary, unnamedAddress, unnamedConstruct⟩ :=
      fits place (List.getElem?_eq_some_iff.mp first).1 plain first address second construct third
        ctor made.named made
    exact ⟨made, binary, unnamedAddress, unnamedConstruct⟩

instance (m : Module) (b : Body) : Decidable (DelegatesFit m b) :=
  decidable_of_iff' _ (delegatesFit_iff m b)

/-- The load of a handle. -/
def handleLoad (id : InstrId) (handle : Int32) : InstrId × Instruction :=
  (id, ⟨.ldcI4, .int32 handle⟩)

/-- Some delegates of a stretch of code have become handles. -/
inductive Folds (m : Module) (b : Body) :
    List (InstrId × Instruction) → List (InstrId × Instruction) → Prop
  | nil : Folds m b [] []
  | keep (entry : InstrId × Instruction) {code kept : List (InstrId × Instruction)}
      (rest : Folds m b code kept) : Folds m b (entry :: code) (entry :: kept)
  | fold {plain address construct : InstrId × Instruction} {ctor : MethodRef} (handle : Int32)
      (fits : Foldable m b plain address construct ctor)
      {code kept : List (InstrId × Instruction)} (rest : Folds m b code kept) :
      Folds m b (plain :: address :: construct :: code) (handleLoad plain.1 handle :: kept)

namespace Folds

variable {m : Module} {b : Body} {code kept code' kept' : List (InstrId × Instruction)}
  {entry plain address construct : InstrId × Instruction}

theorem refl : (code : List (InstrId × Instruction)) → Folds m b code code
  | [] => .nil
  | entry :: rest => .keep entry (refl rest)

theorem append (first : Folds m b code kept) (second : Folds m b code' kept') :
    Folds m b (code ++ code') (kept ++ kept') := by
  induction first with
  | nil => exact second
  | keep entry _ ih => exact .keep entry ih
  | fold handle fits _ ih => exact .fold handle fits ih

/-- The last instruction is the last of the original code, unless it loads a handle. -/
theorem of_snoc (folds : Folds m b code (kept ++ [entry])) (other : entry.2.opcode ≠ .ldcI4) :
    ∃ front, code = front ++ [entry] ∧ Folds m b front kept := by
  generalize equal : kept ++ [entry] = output at folds
  induction folds generalizing kept with
  | nil => simp at equal
  | keep first rest ih =>
    cases kept with
    | nil =>
      obtain ⟨rfl, rfl⟩ := List.cons.inj equal
      cases rest
      exact ⟨[], rfl, .nil⟩
    | cons top kept =>
      obtain ⟨rfl, tail⟩ := List.cons.inj equal
      obtain ⟨front, rfl, folds⟩ := ih tail
      exact ⟨top :: front, rfl, .keep top folds⟩
  | fold handle fits rest ih =>
    cases kept with
    | nil =>
      obtain ⟨rfl, _⟩ := List.cons.inj equal
      exact absurd rfl other
    | cons top kept =>
      obtain ⟨rfl, tail⟩ := List.cons.inj equal
      obtain ⟨front, rfl, folds⟩ := ih tail
      exact ⟨_ :: _ :: _ :: front, rfl, .fold handle fits folds⟩

/-- What is kept was there. -/
theorem map_fst_sublist (folds : Folds m b code kept) :
    (kept.map (·.1)).Sublist (code.map (·.1)) := by
  induction folds with
  | nil => exact List.Sublist.refl _
  | keep entry _ ih => exact ih.cons_cons _
  | fold handle fits _ ih => exact ((ih.cons _).cons _).cons_cons _

/-- Whatever is named by a branch or the start of a handler is kept. -/
theorem mem_of_isReferenced (folds : Folds m b code kept) {id : InstrId}
    (there : id ∈ code.map (·.1)) (named : b.isReferenced id = true) : id ∈ kept.map (·.1) := by
  induction folds with
  | nil => exact there
  | keep entry _ ih =>
    rw [List.map_cons, List.mem_cons] at there ⊢
    exact there.imp_right ih
  | fold handle fits _ ih =>
    simp only [List.map_cons, List.mem_cons] at there ⊢
    rcases there with rfl | rfl | rfl | there
    · exact Or.inl rfl
    · exact absurd named (by simp [fits.unnamedAddress])
    · exact absurd named (by simp [fits.unnamedConstruct])
    · exact Or.inr (ih there)

/-- The branches that are kept were there. -/
theorem mem_of_target (folds : Folds m b code kept) (member : entry ∈ kept) {t : InstrId}
    (target : entry.2.target? = some t) : entry ∈ code := by
  induction folds with
  | nil => exact member
  | keep first _ ih =>
    rw [List.mem_cons] at member ⊢
    exact member.imp_right ih
  | fold handle fits _ ih =>
    simp only [List.mem_cons] at member ⊢
    rcases member with rfl | member
    · cases target
    · exact Or.inr (Or.inr (Or.inr (ih member)))

end Folds

section steps

variable {ρ : Type} {add : ρ → String → MethodRef → Nat × ρ} {m : Module} {site : Site}
  {origin : Body} {id : InstrId} {i : Instruction} {ctor : MethodRef}
  {done output rest : List (InstrId × Instruction)} {w after : Workspace ρ} {e : PassError}

/-- When the output ends with what prepares a delegate, so did the code. -/
theorem foldable_of_output (fits : DelegatesFit m origin)
    (split : origin.code = done ++ (id, i) :: rest)
    (folds : Folds m origin done output.reverse) (constructs : i.opcode = .newobj)
    (named : i.method? = some ctor)
    (signed : ((m.findType? ctor.declaringType).bind (·.nativeSignature)).isSome = true)
    {plain address : InstrId × Instruction} {below : List (InstrId × Instruction)}
    (top : output = address :: plain :: below) {target : MethodRef}
    (prepared : delegateTarget? address.2 plain.2 = some target) :
    ∃ front, done = front ++ [plain, address] ∧ Folds m origin front below.reverse ∧
      Foldable m origin plain address (id, i) ctor := by
  subst top
  unfold delegateTarget? at prepared
  split at prepared
  next shaped =>
    -- Neither of the two loads a handle, so both are from the original code.
    have other : plain.2.opcode ≠ .ldcI4 := by
      intro loads
      simp [loads, Opcode.isPlainLoad, Opcode.category] at shaped
    rw [List.reverse_cons] at folds
    obtain ⟨_, rfl, shorter⟩ := folds.of_snoc (by simp [shaped.1])
    rw [List.reverse_cons] at shorter
    obtain ⟨front, rfl, shortest⟩ := shorter.of_snoc other
    refine ⟨front, by simp, shortest, fits front.length plain address (id, i) ctor ?_ ?_ ?_ ?_⟩
    · simp [split]
    · simp [split]
    · simp [split]
    · exact ⟨shaped.2, shaped.1, by simp [prepared], constructs, named, signed⟩
  next => cases prepared

theorem foldDelegate_congr {n : Module} (same : n.bare = m.bare) (registry : ρ)
    (entry : InstrId × Instruction) :
    foldDelegate add n ctor registry output entry =
      foldDelegate add m ctor registry output entry := by
  simp only [foldDelegate, nativeSignature_congr same]

/-- Scanning a construction folds a delegate or keeps the instruction. -/
theorem folds_foldDelegate (fits : DelegatesFit m origin)
    (split : origin.code = done ++ (id, i) :: rest)
    (folds : Folds m origin done output.reverse) (constructs : i.opcode = .newobj)
    (named : i.method? = some ctor) (registry : ρ) :
    Folds m origin (done ++ [(id, i)])
      (foldDelegate add m ctor registry output (id, i)).1.reverse := by
  have kept : Folds m origin (done ++ [(id, i)]) ((id, i) :: output).reverse := by
    rw [List.reverse_cons]
    exact folds.append (.refl _)
  unfold foldDelegate
  split
  next signature address plain below signed =>
    split
    next target prepared =>
      obtain ⟨front, rfl, folds, foldable⟩ := foldable_of_output fits split folds constructs named
        (by simp [signed]) rfl prepared
      rw [List.append_assoc, List.reverse_cons]
      exact folds.append (.fold _ foldable .nil)
    next => exact kept
  next => exact kept

/-- The rule for delegates looks at constructions only. -/
theorem callbackHandles_idle {visit : Visit} (other : ∀ ctor, visit ≠ .newObject ctor) :
    (callbackHandles add).react site id visit = pure () := by
  cases visit with
  | newObject ctor => exact absurd rfl (other ctor)
  | _ => rfl

/-- The edits of a fold are never refused: the load of the address has a next instruction, and
nothing has come to name the construction. -/
theorem foldEdits_succeed (sound : origin.Sound) {plain address : InstrId × Instruction}
    {below : List (InstrId × Instruction)}
    (folds : Folds m origin origin.code (below.reverse ++ plain :: address :: (id, i) :: rest))
    (foldable : Foldable m origin plain address (id, i) ctor)
    (retained : w.body.Retains origin (below.reverse ++ plain :: address :: (id, i) :: rest))
    {load : Instruction} (straight : load.target? = none) :
    ¬ (do
        Edit.replace site plain.1 load
        Edit.remove site address.1
        Edit.remove site id : Edit ρ Unit).Stops w e after := by
  have distinct := sound.distinct
  simp only [Edit.bind_stops_iff, Edit.replace_stops_iff, Edit.replace_yields_iff,
    Edit.remove_stops_iff, Edit.remove_yields_iff]
  rintro (⟨cause, refused, _⟩ | ⟨_, _, ⟨old, handled, replaced, rfl⟩, ⟨cause, refused, _⟩ |
    ⟨_, _, ⟨gone, cut, removed, rfl⟩, cause, refused, _⟩⟩)
  · exact Body.replace_ne_error (retained.wellFormed distinct) (by simp [retained.order]) load
      cause refused
  · have kept := retained.replace distinct straight replaced
    have formed := kept.wellFormed distinct
    have last := (Body.remove_error formed (by simp [kept.order]) refused).2
    have position : handled.position? address.1 = some (below.length + 1) := by
      rw [Body.position?_eq_some_iff formed, kept.order]
      simp
    simp only [Body.next?, position, List.getElem?_eq_none_iff, kept.order, List.length_map,
      List.length_append, List.length_reverse, List.length_cons] at last
    omega
  · have kept := retained.replace distinct straight replaced
    rw [List.append_cons] at kept
    have left := kept.remove distinct removed
    have named := (Body.remove_error (left.wellFormed distinct) (by simp [left.order]) refused).1
    -- Everything that was named is left: the load of the address was not.
    have stays : ∀ t, origin.isReferenced t = true → t ∈ cut.order := by
      intro t named
      have live : t ∈ origin.code.map (·.1) := by
        rw [Body.map_fst_code sound.toWellFormed]
        rcases (origin.isReferenced_iff t).mp named with ⟨x, j, member, target⟩ | ⟨h, member, start⟩
        · exact sound.branch _ member t target
        · exact sound.start h member t start
      have other : t ≠ address.1 := by
        rintro rfl
        simp [foldable.unnamedAddress] at named
      have member := folds.mem_of_isReferenced live named
      simp only [left.order, List.map_append, List.map_cons, List.mem_append, List.mem_cons]
        at member ⊢
      tauto
    have branches : ∀ entry ∈ below.reverse ++ [(plain.1, load)] ++ (id, i) :: rest, ∀ t,
        entry.2.target? = some t → entry ∈ origin.code := by
      intro entry member t target
      have other : entry ≠ (plain.1, load) := by
        rintro rfl
        simp [straight] at target
      refine folds.mem_of_target ?_ target
      simp only [List.mem_append, List.mem_cons, List.not_mem_nil, or_false] at member ⊢
      tauto
    have origin_named := left.isReferenced_origin distinct branches stays named
    simp [foldable.unnamedConstruct] at origin_named

/-- Where delegates fit, the rule fails only for want of handles, and before any edit. -/
theorem callbackHandles_stops (same : site.enclosing.bare = m.bare) (sound : origin.Sound)
    (fits : DelegatesFit m origin) (split : origin.code = done ++ (id, i) :: rest)
    (folds : Folds m origin done output.reverse) (constructs : i.opcode = .newobj)
    (named : i.method? = some ctor)
    (retained : w.body.Retains origin (output.reverse ++ (id, i) :: rest))
    (stopped : ((callbackHandles add).react site id (.newObject ctor)).Stops w e after) :
    after.body = w.body ∧ ∃ target handle, e = .handleOverflow site.label target handle := by
  simp only [callbackHandles, Edit.bind_stops_iff, Edit.body_stops_iff, Edit.body_yields_iff,
    false_or] at stopped
  obtain ⟨_, _, ⟨rfl, rfl⟩, stopped⟩ := stopped
  have listed := (Body.retains_tracks sound.distinct).lists retained
  rw [if_pos (isLive_of_lists listed), delegateIdiom?_of_lists listed,
    nativeSignature_congr same] at stopped
  cases signed : (m.findType? ctor.declaringType).bind (·.nativeSignature) with
  | none => simp [signed] at stopped
  | some signature =>
    rcases output with _ | ⟨address, _ | ⟨plain, below⟩⟩
    · simp [signed] at stopped
    · simp [signed] at stopped
    · cases prepared : delegateTarget? address.2 plain.2 with
      | none => simp [signed, prepared] at stopped
      | some target =>
        obtain ⟨front, _, _, foldable⟩ := foldable_of_output fits split folds constructs named
          (by simp [signed]) rfl prepared
        simp only [signed, prepared, Option.map_some, Edit.bind_stops_iff, Edit.get_stops_iff,
          Edit.get_yields_iff, Edit.modify_stops_iff, Edit.modify_yields_iff, false_or] at stopped
        obtain ⟨_, _, ⟨rfl, rfl⟩, _, _, rfl, stopped⟩ := stopped
        split at stopped
        · simp only [Edit.bind_stops_iff, Edit.throw_stops_iff, Edit.throw_yields_iff, false_and,
            exists_false, or_false] at stopped
          obtain ⟨rfl, rfl⟩ := stopped
          exact ⟨rfl, target, _, rfl⟩
        · rw [Edit.bind_stops_iff] at stopped
          simp only [Edit.record_stops_iff, Edit.record_yields_iff, false_or] at stopped
          obtain ⟨_, _, rfl, stopped⟩ := stopped
          have whole : Folds m origin origin.code
              (below.reverse ++ plain :: address :: (id, i) :: rest) := by
            rw [split]
            simpa using folds.append (.refl ((id, i) :: rest))
          exact absurd stopped (foldEdits_succeed sound whole foldable
            (by simpa using retained) rfl)

variable (m origin) in
/-- A body is what is left of another one after some of its delegates became handles. -/
def LeftFolded (b : Body) : Prop := ∃ kept, b.Retains origin kept ∧ Folds m origin origin.code kept

variable (m origin) in
/-- The same while the rule walks through the body: the instructions with the given identities are
still to come and as they were. -/
def FoldedUpTo (pending : List InstrId) (b : Body) : Prop :=
  ∃ done output rest : List (InstrId × Instruction), origin.code = done ++ rest ∧
    pending = rest.map (·.1) ∧ Folds m origin done output.reverse ∧
    b.Retains origin (output.reverse ++ rest)

/-- The rule fails before it edits, for a missing declaration or for want of handles. -/
def FailsEarly (e : PassError) : Prop :=
  e.isUndeclared = true ∨ ∃ method target handle, e = .handleOverflow method target handle

theorem FoldedUpTo.leftFolded {pending : List InstrId} {b : Body}
    (folded : FoldedUpTo m origin pending b) : LeftFolded m origin b := by
  obtain ⟨done, output, rest, split, _, folds, retained⟩ := folded
  exact ⟨_, retained, split ▸ folds.append (.refl rest)⟩

/-- Showing an instruction to the rule scans it. -/
theorem showTo_foldedUpTo (same : site.enclosing.bare = m.bare) (sound : origin.Sound)
    (fits : DelegatesFit m origin) {pending : List InstrId}
    (folded : FoldedUpTo m origin (id :: pending) w.body)
    (shown : (showTo [callbackHandles add] site id).Yields w () after) :
    FoldedUpTo m origin pending after.body := by
  obtain ⟨done, output, rest, split, equal, folds, retained⟩ := folded
  obtain ⟨⟨id, i⟩, rest, rfl, rfl, rfl⟩ := List.map_eq_cons_iff.mp equal.symm
  have kept : w = after → FoldedUpTo m origin (rest.map (·.1)) after.body := by
    rintro rfl
    exact ⟨done ++ [(id, i)], (id, i) :: output, rest, by simpa using split, rfl,
      by simpa using folds.append (.refl _), by simpa using retained⟩
  have tracks := Body.retains_tracks sound.distinct
  obtain ⟨_, ⟨_, unchanged⟩ | ⟨visit, described, reacted⟩⟩ :=
    showTo_lists (i := i) (tracks.lists retained) (by simp) shown
  · exact kept unchanged
  · simp only [Edit.forM_cons_yields_iff, Edit.forM_nil_yields_iff, exists_eq_right] at reacted
    by_cases constructs : ∃ ctor, visit = .newObject ctor
    · obtain ⟨ctor, rfl⟩ := constructs
      have folded := (callbackHandles_tracks reacted tracks retained).2.1
      rw [foldDelegate_congr same] at folded
      exact ⟨done ++ [(id, i)], _, rest, by simpa using split, rfl,
        folds_foldDelegate fits split folds (opcode_of_newObject described.1) described.2 _, folded⟩
    · rw [callbackHandles_idle (by simpa using constructs), Edit.pure_yields_iff] at reacted
      exact kept reacted.2

/-- Showing an instruction to the rule fails before any edit. -/
theorem showTo_stops (same : site.enclosing.bare = m.bare) (sound : origin.Sound)
    (fits : DelegatesFit m origin) {pending : List InstrId}
    (folded : FoldedUpTo m origin (id :: pending) w.body)
    (stopped : (showTo [callbackHandles add] site id).Stops w e after) :
    after.body = w.body ∧ FailsEarly e := by
  obtain ⟨done, output, rest, split, equal, folds, retained⟩ := folded
  obtain ⟨⟨id, i⟩, rest, rfl, rfl, rfl⟩ := List.map_eq_cons_iff.mp equal.symm
  rw [showTo_stops_iff (retained.held id i (by simp))] at stopped
  rcases stopped with ⟨failed, rfl⟩ | ⟨visit, shown, stopped⟩
  · exact ⟨rfl, Or.inl (lookUp_error failed)⟩
  · have listed := (Body.retains_tracks sound.distinct).lists retained
    have described := (describes_of_lookUp shown).2.of_lists listed
    simp only [Edit.forM_cons_stops_iff, Edit.forM_nil_stops_iff, and_false, exists_false,
      or_false] at stopped
    by_cases constructs : ∃ ctor, visit = .newObject ctor
    · obtain ⟨ctor, rfl⟩ := constructs
      obtain ⟨unchanged, target, handle, rfl⟩ := callbackHandles_stops same sound fits split
        folds (opcode_of_newObject described.1) described.2 retained stopped
      exact ⟨unchanged, Or.inr ⟨_, target, handle, rfl⟩⟩
    · rw [callbackHandles_idle (by simpa using constructs), Edit.pure_stops_iff] at stopped
      exact stopped.elim

/-- However the rule ends with a body, it leaves it folded, and it never fails at an edit. -/
theorem leftFolded_of_left {method : MethodDef} {b c : Body} {result : Except PassError Unit}
    (sound : b.Sound) (fits : DelegatesFit m b)
    (left : BodyLeft [callbackHandles add] m method b result c) :
    LeftFolded m b c ∧ ∀ e, result = .error e → FailsEarly e := by
  obtain ⟨site, state, before, after, same, _, ran, rfl⟩ := left
  have begun : FoldedUpTo m b b.order b :=
    ⟨[], [], b.code, rfl, (Body.map_fst_code sound.toWellFormed).symm, .nil, sound.retains_code⟩
  have walked := Edit.forM_outcome (f := showTo [callbackHandles add] site)
    (w := ⟨b, state, before⟩)
    (fun ids w => FoldedUpTo m b ids w.body) (fun e w => LeftFolded m b w.body ∧ FailsEarly e)
    (fun _ _ _ _ folded shown => showTo_foldedUpTo same sound fits folded shown)
    (fun _ _ _ _ _ folded stopped => by
      obtain ⟨unchanged, early⟩ := showTo_stops same sound fits folded stopped
      exact ⟨unchanged ▸ folded.leftFolded, early⟩) begun
  cases result with
  | ok value => exact ⟨(walked.1 after ran).leftFolded, by simp⟩
  | error e =>
    obtain ⟨kept, early⟩ := walked.2 e after ran
    exact ⟨kept, by rintro _ ⟨⟩; exact early⟩

end steps

end Pass

end NativeBridge
