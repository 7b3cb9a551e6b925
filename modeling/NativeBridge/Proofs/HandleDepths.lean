import NativeBridge.Proofs.Balance
import NativeBridge.Proofs.DelegateFolding
import NativeBridge.Proofs.Operation

/-! Folding delegates into handles keeps code balanced. Each fold replaces three instructions that
together add one value by one that adds it, and control neither enters nor leaves between them. So
whatever is left is reached with the depth that it was reached with before. -/

namespace NativeBridge

theorem Instruction.target?_of_stackEffect? {i : Instruction} {returnsValue : Bool}
    {effect : StackEffect} (known : i.stackEffect? returnsValue = some effect)
    (straight : i.opcode.operandKind ≠ .target) : i.target? = none :=
  target?_of_isMatched (isMatched_of_effect known) straight

/-- Control runs on behind a plain load, and nowhere else. -/
theorem Opcode.straight_of_isPlainLoad {op : Opcode} (simple : op.isPlainLoad = true) :
    op.isTerminator = false ∧ op.operandKind ≠ .target := by
  cases op <;> cases simple <;> exact ⟨rfl, nofun⟩

/-- A plain load adds one value. -/
theorem Instruction.stackEffect?_of_isPlainLoad {i : Instruction} {returnsValue : Bool}
    {effect : StackEffect} (simple : i.opcode.isPlainLoad = true)
    (known : i.stackEffect? returnsValue = some effect) : effect = ⟨0, 1⟩ := by
  obtain ⟨op, operand⟩ := i
  unfold stackEffect? at known
  split at known
  next => cases op <;> cases simple <;> exact (Option.some.inj known).symm
  next => cases known

namespace Body

/-- Control reaches a place of a body with a depth: from the start, where a handler is entered, or
from an instruction that passes the check. -/
inductive Reached (b : Body) (returnsValue : Bool) : Nat → Nat → Prop
  | start (nonempty : b.size ≠ 0) : Reached b returnsValue 0 0
  | handler {h : Handler} {place : Nat} (member : h ∈ b.handlers)
      (found : b.position? h.handlerStart = some place) :
      Reached b returnsValue place (entryDepth h.kind)
  | step {place n next : Nat} {id : InstrId} {i : Instruction} {effect : StackEffect}
      (reached : Reached b returnsValue place n) (there : b.code[place]? = some (id, i))
      (admitted : b.Admits returnsValue place n i effect) (follows : b.Follows place i next) :
      Reached b returnsValue next (n - effect.pops + effect.pushes)

/-- Control reaches a live instruction with a depth. -/
def ReachedAt (b : Body) (returnsValue : Bool) (id : InstrId) (n : Nat) : Prop :=
  ∃ place, b.order[place]? = some id ∧ b.Reached returnsValue place n

open Classical in
/-- The depth with which control reaches a place. -/
noncomputable def reachedDepth (b : Body) (returnsValue : Bool) (place : Nat) : Option Nat :=
  if reached : ∃ n, b.Reached returnsValue place n then some reached.choose else none

section typing

variable {b : Body} {returnsValue : Bool} {depth : Nat → Option Nat} {place n next : Nat}
  {id : InstrId} {i : Instruction} {effect : StackEffect}

theorem DepthTyping.admitted (typing : b.DepthTyping returnsValue depth)
    (here : depth place = some n) (there : b.code[place]? = some (id, i)) :
    ∃ effect, b.Admits returnsValue place n i effect ∧
      ∀ next, b.Follows place i next → depth next = some (n - effect.pops + effect.pushes) := by
  obtain ⟨_, _, effect, same, admitted, flow⟩ := typing.flow place n here
  obtain ⟨rfl, rfl⟩ := Prod.mk.inj (Option.some.inj (there.symm.trans same))
  exact ⟨effect, admitted, flow⟩

/-- A typing gives the depth with which a place is reached. -/
theorem DepthTyping.depth_of_reached (typing : b.DepthTyping returnsValue depth)
    (reached : b.Reached returnsValue place n) : depth place = some n := by
  induction reached with
  | start => exact typing.start
  | handler member found => exact typing.handler _ member _ found
  | step _ there admitted follows ih =>
    obtain ⟨effect, other, flow⟩ := typing.admitted ih there
    obtain rfl := Option.some.inj (admitted.known.symm.trans other.known)
    exact flow _ follows

/-- In a body with a typing, control runs on from whatever is reached. -/
theorem DepthTyping.reached_next (typing : b.DepthTyping returnsValue depth)
    (reached : b.Reached returnsValue place n) (there : b.code[place]? = some (id, i))
    (known : i.stackEffect? returnsValue = some effect) (follows : b.Follows place i next) :
    b.Reached returnsValue next (n - effect.pops + effect.pushes) := by
  obtain ⟨other, admitted, _⟩ := typing.admitted (typing.depth_of_reached reached) there
  obtain rfl := Option.some.inj (admitted.known.symm.trans known)
  exact .step reached there admitted follows

theorem DepthTyping.reached_behind (typing : b.DepthTyping returnsValue depth)
    (reached : b.Reached returnsValue place n) (there : b.code[place]? = some (id, i))
    (onward : i.opcode.isTerminator = false) :
    ∃ effect, i.stackEffect? returnsValue = some effect ∧ place + 1 < b.size ∧
      b.Reached returnsValue (place + 1) (n - effect.pops + effect.pushes) := by
  obtain ⟨effect, admitted, _⟩ := typing.admitted (typing.depth_of_reached reached) there
  have inside := admitted.inside onward
  exact ⟨effect, admitted.known, inside,
    .step reached there admitted (Or.inl ⟨onward, rfl, inside⟩)⟩

theorem DepthTyping.reachedDepth_iff (typing : b.DepthTyping returnsValue depth) :
    b.reachedDepth returnsValue place = some n ↔ b.Reached returnsValue place n := by
  unfold reachedDepth
  constructor
  · intro found
    split at found
    next reached => exact Option.some.inj found ▸ reached.choose_spec
    next => cases found
  · intro reached
    have some : ∃ n, b.Reached returnsValue place n := ⟨n, reached⟩
    have same := (typing.depth_of_reached some.choose_spec).symm.trans
      (typing.depth_of_reached reached)
    rw [dif_pos some, same]

/-- Where there is a typing, the depths with which places are reached are one. -/
theorem DepthTyping.reachedDepth (typing : b.DepthTyping returnsValue depth)
    (nonempty : b.size ≠ 0) : b.DepthTyping returnsValue (b.reachedDepth returnsValue) where
  start := typing.reachedDepth_iff.mpr (.start nonempty)
  handler _ member _ found := typing.reachedDepth_iff.mpr (.handler member found)
  flow place n here := by
    have reached := typing.reachedDepth_iff.mp here
    obtain ⟨id, i, effect, there, admitted, _⟩ :=
      typing.flow place n (typing.depth_of_reached reached)
    exact ⟨id, i, effect, there, admitted, fun next follows =>
      typing.reachedDepth_iff.mpr (.step reached there admitted follows)⟩

/-- From an instruction that does not branch, control runs on to the place behind it. -/
theorem follows_straight (known : i.stackEffect? returnsValue = some effect)
    (straight : i.opcode.operandKind ≠ .target) (follows : b.Follows place i next) :
    next = place + 1 := by
  rcases follows with ⟨_, behind, _⟩ | ⟨t, named, _⟩
  · exact behind
  · simp [Instruction.target?_of_stackEffect? known straight] at named

end typing

end Body

namespace Pass

/-- What is kept for an instruction, if anything is. -/
def keptOf (kept : List (InstrId × Instruction)) (entry : InstrId × Instruction) :
    Option (InstrId × Instruction) :=
  kept.find? (·.1 == entry.1)

/-- At a place of the code begin three instructions of which the load of a handle is kept. -/
def FoldedAt (m : Module) (b : Body) (code : List (InstrId × Instruction))
    (f : InstrId × Instruction → Option (InstrId × Instruction)) (place : Nat) : Prop :=
  ∃ plain address construct ctor handle, code[place]? = some plain ∧
    code[place + 1]? = some address ∧ code[place + 2]? = some construct ∧
    Foldable m b plain address construct ctor ∧
    f plain = some (handleLoad plain.1 handle) ∧ f address = none ∧ f construct = none

/-- Every instruction is kept as it is or belongs to a fold. -/
def Carved (m : Module) (b : Body) (code : List (InstrId × Instruction))
    (f : InstrId × Instruction → Option (InstrId × Instruction)) : Prop :=
  ∀ place entry, code[place]? = some entry → f entry = some entry ∨
    ∃ start, FoldedAt m b code f start ∧
      (place = start ∨ place = start + 1 ∨ place = start + 2)

section carving

variable {m : Module} {b : Body} {code kept : List (InstrId × Instruction)}
  {top entry : InstrId × Instruction}
  {f g : InstrId × Instruction → Option (InstrId × Instruction)} {place : Nat}

theorem keptOf_cons_of_ne (other : top.1 ≠ entry.1) :
    keptOf (top :: kept) entry = keptOf kept entry :=
  List.find?_cons_of_neg (by simpa using other)

theorem keptOf_of_not_mem (absent : entry.1 ∉ kept.map (·.1)) : keptOf kept entry = none := by
  rw [keptOf, List.find?_eq_none]
  intro other member same
  exact absent (List.mem_map.mpr ⟨other, member, by simpa using same⟩)

/-- What comes first does not matter for what comes later. -/
theorem keptOf_cons_of_nodup (fresh : top.1 ∉ code.map (·.1)) :
    ∀ entry ∈ code, keptOf (top :: kept) entry = keptOf kept entry := by
  intro entry member
  refine keptOf_cons_of_ne fun same => fresh ?_
  rw [same]
  exact List.mem_map_of_mem member

theorem FoldedAt.cons (folded : FoldedAt m b code f place)
    (agree : ∀ entry ∈ code, g entry = f entry) : FoldedAt m b (top :: code) g (place + 1) := by
  obtain ⟨plain, address, construct, ctor, handle, first, second, third, foldable, stays, gone,
    last⟩ := folded
  exact ⟨plain, address, construct, ctor, handle, first, second, third, foldable,
    (agree _ (List.mem_of_getElem? first)).trans stays,
    (agree _ (List.mem_of_getElem? second)).trans gone,
    (agree _ (List.mem_of_getElem? third)).trans last⟩

theorem Carved.cons (carved : Carved m b code f) (agree : ∀ entry ∈ code, g entry = f entry)
    (there : code[place]? = some entry) :
    g entry = some entry ∨ ∃ start, FoldedAt m b (top :: code) g start ∧
      (place + 1 = start ∨ place + 1 = start + 1 ∨ place + 1 = start + 2) := by
  rcases carved place entry there with same | ⟨start, folded, within⟩
  · exact Or.inl ((agree entry (List.mem_of_getElem? there)).trans same)
  · exact Or.inr ⟨start + 1, folded.cons agree, by omega⟩

theorem keptOf_cons_self (same : top.1 = entry.1) : keptOf (top :: kept) entry = some top :=
  List.find?_cons_of_pos (by simpa using same)

/-- The map that looks up what is kept keeps that, and carves the code. -/
theorem Folds.carves (folds : Folds m b code kept) (distinct : (code.map (·.1)).Nodup) :
    code.filterMap (keptOf kept) = kept ∧ Carved m b code (keptOf kept) := by
  induction folds with
  | nil => exact ⟨rfl, fun place entry there => by simp at there⟩
  | @keep first code kept _ ih =>
    obtain ⟨fresh, distinct⟩ := List.nodup_cons.mp distinct
    obtain ⟨keeps, carved⟩ := ih distinct
    have agree : ∀ entry ∈ code, keptOf (first :: kept) entry = keptOf kept entry :=
      keptOf_cons_of_nodup fresh
    constructor
    · rw [List.filterMap_cons_some (keptOf_cons_self rfl), List.filterMap_congr agree, keeps]
    · rintro (_ | place) entry there
      · cases there
        exact Or.inl (keptOf_cons_self rfl)
      · exact carved.cons agree there
  | @fold plain address construct ctor handle foldable code kept rest ih =>
    simp only [List.map_cons, List.nodup_cons, List.mem_cons, not_or] at distinct
    obtain ⟨⟨first, second, fresh⟩, ⟨third, newAddress⟩, newConstruct, distinct⟩ := distinct
    obtain ⟨keeps, carved⟩ := ih distinct
    have agree : ∀ entry ∈ code,
        keptOf (handleLoad plain.1 handle :: kept) entry = keptOf kept entry :=
      keptOf_cons_of_nodup fresh
    have stays : keptOf (handleLoad plain.1 handle :: kept) plain =
        some (handleLoad plain.1 handle) := keptOf_cons_self rfl
    -- What goes is not kept further behind, since that is from the rest of the code.
    have lost : ∀ entry : InstrId × Instruction, (handleLoad plain.1 handle).1 ≠ entry.1 →
        entry.1 ∉ code.map (·.1) → keptOf (handleLoad plain.1 handle :: kept) entry = none := by
      intro entry other absent
      rw [keptOf_cons_of_ne other]
      exact keptOf_of_not_mem fun member => absent (rest.map_fst_sublist.subset member)
    have folded : FoldedAt m b (plain :: address :: construct :: code)
        (keptOf (handleLoad plain.1 handle :: kept)) 0 :=
      ⟨plain, address, construct, ctor, handle, rfl, rfl, rfl, foldable, stays,
        lost address first newAddress, lost construct second newConstruct⟩
    constructor
    · rw [List.filterMap_cons_some stays, List.filterMap_cons_none (lost address first newAddress),
        List.filterMap_cons_none (lost construct second newConstruct),
        List.filterMap_congr agree, keeps]
    · rintro (_ | _ | _ | place) entry there
      · exact Or.inr ⟨0, folded, by omega⟩
      · exact Or.inr ⟨0, folded, by omega⟩
      · exact Or.inr ⟨0, folded, by omega⟩
      · rcases carved place entry there with same | ⟨start, inner, within⟩
        · exact Or.inl ((agree entry (List.mem_of_getElem? there)).trans same)
        · have shifted : FoldedAt m b (construct :: code)
              (keptOf (handleLoad plain.1 handle :: kept)) (start + 1) := inner.cons agree
          exact Or.inr ⟨start + 3, (shifted.cons fun _ _ => rfl).cons fun _ _ => rfl, by omega⟩

/-- Something is kept of the instruction at a place. -/
def Stays (f : InstrId × Instruction → Option (InstrId × Instruction)) (b : Body) (place : Nat) :
    Prop :=
  ∃ entry kept, b.code[place]? = some entry ∧ f entry = some kept

/-- What is lost is the second or third instruction of a fold. -/
theorem Carved.of_none (carved : Carved m b b.code f) (there : b.code[place]? = some entry)
    (gone : f entry = none) :
    ∃ start, FoldedAt m b b.code f start ∧ (place = start + 1 ∨ place = start + 2) := by
  rcases carved place entry there with same | ⟨start, folded, rfl | within⟩
  · simp [gone] at same
  · obtain ⟨plain, _, _, _, _, first, _, _, _, stays, _⟩ := folded
    obtain rfl := Option.some.inj (there.symm.trans first)
    simp [gone] at stays
  · exact ⟨start, folded, within⟩

theorem Carved.stays_of_isReferenced (carved : Carved m b b.code f)
    (there : b.code[place]? = some entry) (named : b.isReferenced entry.1 = true) :
    Stays f b place := by
  cases found : f entry with
  | some kept => exact ⟨entry, kept, there, found⟩
  | none =>
    obtain ⟨start, ⟨_, _, _, _, _, _, second, third, foldable, _⟩, rfl | rfl⟩ :=
      carved.of_none there found
    · obtain rfl := Option.some.inj (there.symm.trans second)
      simp [foldable.unnamedAddress] at named
    · obtain rfl := Option.some.inj (there.symm.trans third)
      simp [foldable.unnamedConstruct] at named

theorem Carved.stays_zero (carved : Carved m b b.code f) (there : b.code[0]? = some entry) :
    Stays f b 0 := by
  cases found : f entry with
  | some kept => exact ⟨entry, kept, there, found⟩
  | none =>
    obtain ⟨start, _, within⟩ := carved.of_none there found
    omega

/-- Behind a fold comes something that stays. -/
theorem Carved.stays_behind_fold (carved : Carved m b b.code f)
    (folded : FoldedAt m b b.code f place) (there : b.code[place + 3]? = some entry) :
    Stays f b (place + 3) := by
  cases found : f entry with
  | some kept => exact ⟨entry, kept, there, found⟩
  | none =>
    -- Another fold would have to begin at one of the instructions that this one has lost.
    obtain ⟨_, _, _, _, _, _, second, third, _, _, gone, last⟩ := folded
    obtain ⟨start, ⟨_, _, _, _, _, first, _, _, _, stays, _⟩, within⟩ := carved.of_none there found
    obtain rfl | rfl : start = place + 2 ∨ start = place + 1 := by omega
    · obtain rfl := Option.some.inj (third.symm.trans first)
      simp [last] at stays
    · obtain rfl := Option.some.inj (second.symm.trans first)
      simp [gone] at stays

/-- Away from folds, what stays is as it was, and so does what comes behind it. -/
theorem Carved.of_unfolded (carved : Carved m b b.code f)
    (apart : ¬ FoldedAt m b b.code f place) (there : b.code[place]? = some entry)
    {kept : InstrId × Instruction} (stays : f entry = some kept) :
    kept = entry ∧ ∀ behind, b.code[place + 1]? = some behind → Stays f b (place + 1) := by
  constructor
  · rcases carved place entry there with same | ⟨start, folded, rfl | rfl | rfl⟩
    · exact Option.some.inj (stays.symm.trans same)
    · exact absurd folded apart
    · obtain ⟨_, _, _, _, _, _, second, _, _, _, gone, _⟩ := folded
      obtain rfl := Option.some.inj (there.symm.trans second)
      simp [gone] at stays
    · obtain ⟨_, _, _, _, _, _, _, third, _, _, _, last⟩ := folded
      obtain rfl := Option.some.inj (there.symm.trans third)
      simp [last] at stays
  · intro behind next
    cases found : f behind with
    | some kept => exact ⟨behind, kept, next, found⟩
    | none =>
      obtain ⟨start, folded, within⟩ := carved.of_none next found
      obtain rfl | rfl : start = place ∨ place = start + 1 := by omega
      · exact absurd folded apart
      · obtain ⟨_, _, _, _, _, _, second, _, _, _, gone, _⟩ := folded
        obtain rfl := Option.some.inj (there.symm.trans second)
        simp [gone] at stays

end carving

section transport

variable {m : Module} {b c : Body} {returnsValue : Bool} {depth : Nat → Option Nat}
  {f : InstrId × Instruction → Option (InstrId × Instruction)} {place n next : Nat} {id : InstrId}
  {i : Instruction}

/-- The depth with which what is left of a body was reached before. -/
noncomputable def carriedDepth (b c : Body) (returnsValue : Bool) (place : Nat) : Option Nat := do
  let id ← c.order[place]?
  let original ← b.position? id
  b.reachedDepth returnsValue original

/-- What is still live stays. -/
theorem stays_of_live (thinned : Body.Thinned f b c) (live : id ∈ c.order)
    (there : b.order[place]? = some id) : Stays f b place := by
  obtain ⟨rest, left⟩ := List.mem_iff_getElem?.mp live
  obtain ⟨spot, i, kept, origin, stays, _⟩ := thinned.exists_of_order left
  have formed := thinned.sound.toWellFormed
  have same := (Body.code_getElem?_iff formed ..).mp origin
  rw [← Body.position?_eq_some_iff formed] at there same
  obtain rfl := Option.some.inj (there.symm.trans same.1)
  exact ⟨_, kept, origin, stays⟩

/-- What stays of a place stands at its rank. -/
theorem Stays.order_rank (stays : Stays f b place) (thinned : Body.Thinned f b c) :
    ∃ id, b.order[place]? = some id ∧ c.order[Body.rank f b.code place]? = some id := by
  obtain ⟨⟨id, i⟩, kept, there, stays⟩ := stays
  exact ⟨id, ((Body.code_getElem?_iff thinned.sound.toWellFormed ..).mp there).1,
    ((Body.code_getElem?_iff thinned.wellFormed ..).mp (thinned.code_rank there stays)).1⟩

theorem Stays.carriedDepth (stays : Stays f b place) (thinned : Body.Thinned f b c) :
    carriedDepth b c returnsValue (Body.rank f b.code place) =
      b.reachedDepth returnsValue place := by
  obtain ⟨id, original, left⟩ := stays.order_rank thinned
  have position := (Body.position?_eq_some_iff thinned.sound.toWellFormed id place).mpr original
  simp [Pass.carriedDepth, left, position]

theorem Stays.rank_lt_size (stays : Stays f b place) (thinned : Body.Thinned f b c) :
    Body.rank f b.code place < c.size := by
  obtain ⟨id, _, left⟩ := stays.order_rank thinned
  exact (List.getElem?_eq_some_iff.mp left).1

/-- Away from folds, control goes on to what stays. -/
theorem Carved.stays_of_follows (carved : Carved m b b.code f) (sound : b.Sound)
    (apart : ¬ FoldedAt m b b.code f place) (there : b.code[place]? = some (id, i))
    {kept : InstrId × Instruction} (stays : f (id, i) = some kept)
    (follows : b.Follows place i next) : Stays f b next := by
  have inside := Body.follows_lt follows
  rw [← Body.length_code sound.toWellFormed] at inside
  obtain ⟨entry, found⟩ : ∃ entry, b.code[next]? = some entry :=
    ⟨_, List.getElem?_eq_getElem inside⟩
  rcases follows with ⟨_, rfl, _⟩ | ⟨t, named, position⟩
  · exact (carved.of_unfolded apart there stays).2 entry found
  · obtain ⟨x, j⟩ := entry
    have live := ((Body.code_getElem?_iff sound.toWellFormed ..).mp found).1
    rw [Body.position?_eq_some_iff sound.toWellFormed, live] at position
    obtain rfl := Option.some.inj position
    exact carved.stays_of_isReferenced found ((b.isReferenced_iff x).mpr
      (Or.inl ⟨id, i, List.mem_of_getElem? there, named⟩))

theorem Foldable.effect_address {plain address construct : InstrId × Instruction}
    {ctor : MethodRef} (foldable : Foldable m b plain address construct ctor)
    {effect : StackEffect} (known : address.2.stackEffect? returnsValue = some effect) :
    effect = ⟨0, 1⟩ := by
  rw [Instruction.stackEffect?, Instruction.isMatched_of_effect known, if_pos rfl,
    foldable.loads] at known
  exact (Option.some.inj known).symm

theorem Foldable.effect_construct {plain address construct : InstrId × Instruction}
    {ctor : MethodRef} (foldable : Foldable m b plain address construct ctor)
    {effect : StackEffect} (known : construct.2.stackEffect? returnsValue = some effect) :
    effect = ⟨2, 1⟩ := by
  rw [Instruction.stackEffect?, Instruction.isMatched_of_effect known, if_pos rfl,
    foldable.constructs, foldable.named] at known
  rw [← Option.some.inj known]
  exact congrArg (StackEffect.mk · 1) foldable.binary

/-- A fold that is reached runs through and adds one value. -/
theorem FoldedAt.reached_behind (folded : FoldedAt m b b.code f place)
    (typing : b.DepthTyping returnsValue depth) (reached : b.Reached returnsValue place n) :
    place + 3 < b.size ∧ b.Reached returnsValue (place + 3) (n + 1) := by
  obtain ⟨plain, address, construct, ctor, handle, first, second, third, foldable, _⟩ := folded
  obtain ⟨_, known, _, reached⟩ := typing.reached_behind reached first
    (Opcode.straight_of_isPlainLoad foldable.simple).1
  obtain rfl := Instruction.stackEffect?_of_isPlainLoad foldable.simple known
  obtain ⟨_, known, _, reached⟩ := typing.reached_behind reached second
    (by rw [foldable.loads]; rfl)
  obtain rfl := foldable.effect_address known
  obtain ⟨_, known, inside, reached⟩ := typing.reached_behind reached third
    (by rw [foldable.constructs]; rfl)
  obtain rfl := foldable.effect_construct known
  exact ⟨inside, reached⟩

/-- What is left of a fold stands before what comes behind it. -/
theorem FoldedAt.rank_behind (folded : FoldedAt m b b.code f place) :
    Body.rank f b.code (place + 3) = Body.rank f b.code place + 1 := by
  obtain ⟨plain, address, construct, ctor, handle, first, second, third, _, stays, gone, last⟩ :=
    folded
  rw [Body.rank_succ_of_none third last, Body.rank_succ_of_none second gone,
    Body.rank_succ_of_some first stays]

theorem FoldedAt.stays_behind (folded : FoldedAt m b b.code f place)
    (carved : Carved m b b.code f) (sound : b.Sound) (inside : place + 3 < b.size) :
    Stays f b (place + 3) := by
  rw [← Body.length_code sound.toWellFormed] at inside
  exact carved.stays_behind_fold folded (List.getElem?_eq_getElem inside)

/-- The load of a handle stands where the fold began. -/
theorem FoldedAt.code_rank (folded : FoldedAt m b b.code f place) (thinned : Body.Thinned f b c) :
    ∃ id handle, c.code[Body.rank f b.code place]? = some (handleLoad id handle) := by
  obtain ⟨⟨id, i⟩, _, _, _, handle, first, _, _, _, stays, _⟩ := folded
  exact ⟨id, handle, thinned.code_rank first stays⟩

/-- The load of a handle is typed like the fold that it stands for. -/
theorem FoldedAt.typed (folded : FoldedAt m b b.code f place) (thinned : Body.Thinned f b c)
    (carved : Carved m b b.code f) (typing : b.DepthTyping returnsValue depth)
    (reached : b.Reached returnsValue place n) :
    c.Typed returnsValue (carriedDepth b c returnsValue) (Body.rank f b.code place) n := by
  obtain ⟨inside, behind⟩ := folded.reached_behind typing reached
  have stays := folded.stays_behind carved thinned.sound inside
  have carried : carriedDepth b c returnsValue (Body.rank f b.code place + 1) = some (n + 1) := by
    rw [← folded.rank_behind, stays.carriedDepth thinned]
    exact typing.reachedDepth_iff.mpr behind
  have bounded : n + 1 ≤ maxStackDepth := by
    obtain ⟨plain, _, _, _, _, first, _, _, foldable, _⟩ := folded
    obtain ⟨effect, admitted, _⟩ := typing.admitted (typing.depth_of_reached reached) first
    obtain rfl := Instruction.stackEffect?_of_isPlainLoad foldable.simple admitted.known
    exact admitted.bounded
  obtain ⟨id, handle, left⟩ := folded.code_rank thinned
  have known : (handleLoad id handle).2.stackEffect? returnsValue = some ⟨0, 1⟩ := rfl
  refine ⟨id, _, ⟨0, 1⟩, left, ⟨known, Nat.zero_le n, bounded, nofun, nofun, fun _ => ?_⟩,
    fun next follows => ?_⟩
  · rw [← folded.rank_behind]
    exact stays.rank_lt_size thinned
  · rw [Body.follows_straight known nofun follows]
    exact carried

/-- Away from folds, an instruction is typed as it was. -/
theorem typed_of_unfolded (apart : ¬ FoldedAt m b b.code f place) (thinned : Body.Thinned f b c)
    (carved : Carved m b b.code f) (typing : b.DepthTyping returnsValue depth)
    (reached : b.Reached returnsValue place n) (stays : Stays f b place) :
    c.Typed returnsValue (carriedDepth b c returnsValue) (Body.rank f b.code place) n := by
  obtain ⟨⟨id, i⟩, kept, there, stays⟩ := stays
  obtain ⟨rfl, _⟩ := carved.of_unfolded apart there stays
  obtain ⟨effect, admitted, _⟩ := typing.admitted (typing.depth_of_reached reached) there
  have left := thinned.code_rank there stays
  have sound := thinned.retained.sound thinned.sound.distinct
  have onward : ∀ original, b.Follows place i original → Stays f b original := fun _ follows =>
    carved.stays_of_follows thinned.sound apart there stays follows
  refine ⟨id, _, effect, left, ⟨?_, admitted.enough, admitted.bounded, admitted.balanced,
    sound.branch _ (List.mem_of_getElem? left), ?_⟩, ?_⟩
  · rw [Instruction.stackEffect?_mapTarget]
    exact admitted.known
  · intro runs
    rw [← Body.rank_succ_of_some there stays]
    exact (onward _ (Or.inl ⟨runs, rfl, admitted.inside runs⟩)).rank_lt_size thinned
  · intro next follows
    obtain ⟨original, followed, rfl⟩ := thinned.follows_rank there stays admitted.inside rfl rfl
      follows
    rw [(onward original followed).carriedDepth thinned]
    exact typing.reachedDepth_iff.mpr (.step reached there admitted followed)

/-- A handler starts at what stays, and its start is led there. -/
theorem Carved.handler_rank (carved : Carved m b b.code f) (thinned : Body.Thinned f b c)
    {h : Handler} (member : h ∈ b.handlers) :
    ∃ original, b.position? h.handlerStart = some original ∧ Stays f b original ∧
      c.position? (h.relocate b.order c.order).handlerStart =
        some (Body.rank f b.code original) := by
  have named : h.handlerStart ∈ h.starts := by simp [Handler.starts]
  obtain ⟨original, position⟩ :=
    (b.position?_isSome_iff h.handlerStart).mpr (thinned.sound.start h member _ named)
  have formed := thinned.sound.toWellFormed
  have live := (Body.position?_eq_some_iff formed ..).mp position
  obtain ⟨i, held⟩ := Body.get?_isSome_of_live formed (List.mem_of_getElem? live)
  refine ⟨original, position, ?_,
    thinned.position?_landing live (thinned.retained.start h member _ named)⟩
  exact carved.stays_of_isReferenced ((Body.code_getElem?_iff formed ..).mpr ⟨live, held⟩)
    ((b.isReferenced_iff _).mpr (Or.inr ⟨h, member, named⟩))

theorem Carved.stays_start (carved : Carved m b b.code f) (sound : b.Sound)
    (nonempty : b.size ≠ 0) : Stays f b 0 := by
  rw [← Body.length_code sound.toWellFormed] at nonempty
  exact carved.stays_zero (List.getElem?_eq_getElem (Nat.pos_of_ne_zero nonempty))

/-- The depths that were there before type what is left. -/
theorem depthTyping_of_carved (thinned : Body.Thinned f b c) (carved : Carved m b b.code f)
    (typing : b.DepthTyping returnsValue depth) (nonempty : b.size ≠ 0) :
    c.DepthTyping returnsValue (carriedDepth b c returnsValue) where
  start := by
    have stays := carved.stays_start thinned.sound nonempty
    rw [← Body.rank_zero, stays.carriedDepth thinned]
    exact typing.reachedDepth_iff.mpr (.start nonempty)
  handler := by
    intro h member place found
    rw [thinned.retained.handlers, List.mem_map] at member
    obtain ⟨h, member, rfl⟩ := member
    obtain ⟨original, position, stays, led⟩ := carved.handler_rank thinned member
    obtain rfl := Option.some.inj (found.symm.trans led)
    have entered : b.Reached returnsValue original (Body.entryDepth h.kind) :=
      .handler member position
    rw [stays.carriedDepth thinned]
    exact typing.reachedDepth_iff.mpr entered
  flow := by
    intro place n here
    simp only [carriedDepth, Option.bind_eq_bind, Option.bind_eq_some_iff] at here
    obtain ⟨id, live, original, position, depth⟩ := here
    have reached := typing.reachedDepth_iff.mp depth
    -- A place with a depth is the rank of one that stays and was reached.
    obtain ⟨spot, i, kept, there, stays, rfl⟩ := thinned.exists_of_order live
    have formed := thinned.sound.toWellFormed
    have same := (Body.position?_eq_some_iff formed id spot).mpr
      ((Body.code_getElem?_iff formed ..).mp there).1
    obtain rfl := Option.some.inj (position.symm.trans same)
    by_cases folded : FoldedAt m b b.code f original
    · exact folded.typed thinned carved typing reached
    · exact typed_of_unfolded folded thinned carved typing reached ⟨_, kept, there, stays⟩

/-- Whatever is reached in what is left was reached before, with the same depth. -/
theorem reachedAt_of_left (thinned : Body.Thinned f b c) (carved : Carved m b b.code f)
    (typing : b.DepthTyping returnsValue depth) (nonempty : b.size ≠ 0)
    (reached : c.Reached returnsValue place n) :
    ∃ original, Stays f b original ∧ place = Body.rank f b.code original ∧
      b.Reached returnsValue original n := by
  induction reached with
  | start =>
    exact ⟨0, carved.stays_start thinned.sound nonempty, Body.rank_zero.symm, .start nonempty⟩
  | handler member found =>
    rw [thinned.retained.handlers, List.mem_map] at member
    obtain ⟨h, member, rfl⟩ := member
    obtain ⟨original, position, stays, led⟩ := carved.handler_rank thinned member
    have entered : b.Reached returnsValue original (Body.entryDepth h.kind) :=
      .handler member position
    exact ⟨original, stays, Option.some.inj (found.symm.trans led), entered⟩
  | step _ there admitted follows ih =>
    obtain ⟨original, stays, rfl, reached⟩ := ih
    by_cases folded : FoldedAt m b b.code f original
    · obtain ⟨id, handle, left⟩ := folded.code_rank thinned
      obtain ⟨rfl, rfl⟩ := Prod.mk.inj (Option.some.inj (there.symm.trans left))
      obtain ⟨inside, behind⟩ := folded.reached_behind typing reached
      obtain rfl := Option.some.inj (admitted.known.symm.trans (show _ = some ⟨0, 1⟩ from rfl))
      refine ⟨original + 3, folded.stays_behind carved thinned.sound inside, ?_, behind⟩
      rw [folded.rank_behind]
      exact Body.follows_straight admitted.known nofun follows
    · obtain ⟨⟨id, i⟩, kept, origin, stays⟩ := stays
      obtain ⟨rfl, _⟩ := carved.of_unfolded folded origin stays
      obtain ⟨rfl, rfl⟩ :=
        Prod.mk.inj (Option.some.inj (there.symm.trans (thinned.code_rank origin stays)))
      have known := admitted.known
      rw [Instruction.stackEffect?_mapTarget] at known
      obtain ⟨_, first, _⟩ := typing.admitted (typing.depth_of_reached reached) origin
      obtain ⟨next, followed, rfl⟩ := thinned.follows_rank origin stays first.inside rfl rfl follows
      exact ⟨next, carved.stays_of_follows thinned.sound folded origin stays followed, rfl,
        typing.reached_next reached origin known followed⟩

variable (m b c f returnsValue) in
/-- Where control is in what is left while it was at a place of the original body: there too, or
still at the load of a handle while the rest of a fold was under way. -/
inductive Trails : Nat → Nat → Prop
  | level {place n : Nat} (stays : Stays f b place)
      (reached : c.Reached returnsValue (Body.rank f b.code place) n) : Trails place n
  | address {place n : Nat} (folded : FoldedAt m b b.code f place)
      (reached : c.Reached returnsValue (Body.rank f b.code place) n) : Trails (place + 1) (n + 1)
  | construct {place n : Nat} (folded : FoldedAt m b b.code f place)
      (reached : c.Reached returnsValue (Body.rank f b.code place) n) : Trails (place + 2) (n + 2)

/-- One step of control in the original body. -/
theorem Trails.follow (trails : Trails m b c returnsValue f place n) (thinned : Body.Thinned f b c)
    (carved : Carved m b b.code f) {after : Nat → Option Nat}
    (typing : c.DepthTyping returnsValue after) {effect : StackEffect}
    (there : b.code[place]? = some (id, i)) (known : i.stackEffect? returnsValue = some effect)
    (follows : b.Follows place i next) :
    Trails m b c returnsValue f next (n - effect.pops + effect.pushes) := by
  cases trails with
  | level stays reached =>
    by_cases folded : FoldedAt m b b.code f place
    · have ⟨plain, _, _, _, _, first, _, _, foldable, _⟩ := folded
      obtain rfl := Option.some.inj (there.symm.trans first)
      obtain rfl := Instruction.stackEffect?_of_isPlainLoad foldable.simple known
      rw [Body.follows_straight known (Opcode.straight_of_isPlainLoad foldable.simple).2 follows]
      exact .address folded reached
    · obtain ⟨entry, kept, origin, stays⟩ := stays
      obtain rfl := Option.some.inj (there.symm.trans origin)
      obtain ⟨rfl, _⟩ := carved.of_unfolded folded there stays
      have goes := carved.stays_of_follows thinned.sound folded there stays follows
      refine .level goes (typing.reached_next reached (thinned.code_rank there stays)
        (by rw [Instruction.stackEffect?_mapTarget]; exact known) ?_)
      exact thinned.rank_follows there stays rfl rfl (goes.rank_lt_size thinned) follows
  | @address start n folded reached =>
    have ⟨_, _, _, _, _, _, second, _, foldable, _⟩ := folded
    obtain rfl := Option.some.inj (there.symm.trans second)
    obtain rfl := foldable.effect_address known
    rw [Body.follows_straight known (by rw [foldable.loads]; nofun) follows]
    exact .construct folded reached
  | @construct start n folded reached =>
    have ⟨_, _, _, _, _, _, _, third, foldable, _⟩ := folded
    obtain rfl := Option.some.inj (there.symm.trans third)
    obtain rfl := foldable.effect_construct known
    have inside := Body.follows_lt follows
    obtain rfl := Body.follows_straight known (by rw [foldable.constructs]; nofun) follows
    -- The fold is over: control goes on behind the load of the handle as well.
    have stays := folded.stays_behind carved thinned.sound inside
    obtain ⟨id, handle, left⟩ := folded.code_rank thinned
    have onward : c.Follows (Body.rank f b.code start) (handleLoad id handle).2
        (Body.rank f b.code (start + 3)) :=
      Or.inl ⟨rfl, folded.rank_behind, stays.rank_lt_size thinned⟩
    have adds : (handleLoad id handle).2.stackEffect? returnsValue = some ⟨0, 1⟩ := rfl
    have behind := typing.reached_next reached left adds onward
    exact .level stays behind

/-- Whatever was reached is trailed in what is left. -/
theorem trails_of_reached (thinned : Body.Thinned f b c) (carved : Carved m b b.code f)
    {after : Nat → Option Nat} (typing : c.DepthTyping returnsValue after)
    (reached : b.Reached returnsValue place n) : Trails m b c returnsValue f place n := by
  induction reached with
  | start nonempty =>
    have stays := carved.stays_start thinned.sound nonempty
    refine .level stays ?_
    rw [Body.rank_zero]
    exact .start (Nat.ne_of_gt (Nat.lt_of_le_of_lt (Nat.zero_le _) (stays.rank_lt_size thinned)))
  | @handler h place member found =>
    obtain ⟨original, position, stays, led⟩ := carved.handler_rank thinned member
    obtain rfl := Option.some.inj (found.symm.trans position)
    have listed : h.relocate b.order c.order ∈ c.handlers := by
      rw [thinned.retained.handlers]
      exact List.mem_map_of_mem member
    have entered : c.Reached returnsValue (Body.rank f b.code place)
        (Body.entryDepth (h.relocate b.order c.order).kind) := .handler listed led
    exact .level stays entered
  | step _ there admitted follows ih =>
    exact ih.follow thinned carved typing there admitted.known follows

/-- What is left of a body is reached exactly as it was before. -/
theorem reachedAt_iff_of_carved (thinned : Body.Thinned f b c) (carved : Carved m b b.code f)
    (typing : b.DepthTyping returnsValue depth) (nonempty : b.size ≠ 0) (live : id ∈ c.order) :
    c.ReachedAt returnsValue id n ↔ b.ReachedAt returnsValue id n := by
  constructor
  · rintro ⟨place, there, reached⟩
    obtain ⟨original, stays, rfl, before⟩ :=
      reachedAt_of_left thinned carved typing nonempty reached
    obtain ⟨_, origin, left⟩ := stays.order_rank thinned
    obtain rfl := Option.some.inj (there.symm.trans left)
    exact ⟨original, origin, before⟩
  · rintro ⟨place, there, reached⟩
    have stays := stays_of_live thinned live there
    have after := depthTyping_of_carved thinned carved typing nonempty
    cases trails_of_reached thinned carved after reached with
    | level _ left =>
      obtain ⟨_, origin, stands⟩ := stays.order_rank thinned
      obtain rfl := Option.some.inj (there.symm.trans origin)
      exact ⟨_, stands, left⟩
    | address folded _ =>
      -- What a fold has lost is not live.
      obtain ⟨_, _, _, _, _, _, second, _, _, _, gone, _⟩ := folded
      obtain ⟨_, kept, origin, stays⟩ := stays
      obtain rfl := Option.some.inj (second.symm.trans origin)
      simp [gone] at stays
    | construct folded _ =>
      obtain ⟨_, _, _, _, _, _, _, third, _, _, _, last⟩ := folded
      obtain ⟨_, kept, origin, stays⟩ := stays
      obtain rfl := Option.some.inj (third.symm.trans origin)
      simp [last] at stays

end transport

section bodies

variable {m : Module} {b c : Body} {returnsValue : Bool}

theorem exists_carved_of_leftFolded (sound : b.Sound) (left : LeftFolded m b c) :
    ∃ f, Body.Thinned f b c ∧ Carved m b b.code f := by
  obtain ⟨kept, retained, folds⟩ := left
  have distinct : (b.code.map (·.1)).Nodup := by
    rw [Body.map_fst_code sound.toWellFormed]
    exact sound.distinct
  obtain ⟨keeps, carved⟩ := folds.carves distinct
  refine ⟨keptOf kept, ⟨fun entry found same => ?_, sound, keeps.symm ▸ retained⟩, carved⟩
  simpa using List.find?_some same

/-- What is left of a body that passes the check passes it, and is reached as it was. -/
theorem balanced_of_leftFolded (sound : b.Sound) (left : LeftFolded m b c)
    (balanced : b.checkStack returnsValue = .ok ()) :
    c.checkStack returnsValue = .ok () ∧
      ∀ id ∈ c.order, ∀ n, c.ReachedAt returnsValue id n ↔ b.ReachedAt returnsValue id n := by
  obtain ⟨f, thinned, carved⟩ := exists_carved_of_leftFolded sound left
  rw [Body.checkStack_ok_iff thinned.wellFormed]
  rcases (Body.checkStack_ok_iff sound.toWellFormed _).mp balanced with empty | ⟨depth, typing⟩
  · have vanished : c.size = 0 := by rw [thinned.size_eq, empty, Body.rank_zero]
    refine ⟨Or.inl vanished, fun id live => ?_⟩
    rw [List.eq_nil_of_length_eq_zero vanished] at live
    cases live
  · by_cases empty : b.size = 0
    · obtain ⟨_, _, _, there, _⟩ := typing.flow 0 0 typing.start
      have inside := (List.getElem?_eq_some_iff.mp there).1
      rw [Body.length_code sound.toWellFormed, empty] at inside
      cases inside
    · exact ⟨Or.inr ⟨_, depthTyping_of_carved thinned carved typing empty⟩, fun id live n =>
        reachedAt_iff_of_carved thinned carved typing empty live⟩

end bodies

/-- A method has kept its header, and what is left of its code is reached with the depths with which
it was reached before. -/
structure KeepsDepths (method edited : MethodDef) : Prop where
  header : edited.bare = method.bare
  present : edited.body.isSome = method.body.isSome
  depths : ∀ b ∈ method.body, ∀ c ∈ edited.body, c.order.Sublist b.order ∧
    ∀ id ∈ c.order, ∀ n,
      c.ReachedAt method.returnsValue id n ↔ b.ReachedAt method.returnsValue id n

section methods

variable {ρ : Type} {add : ρ → String → MethodRef → Nat × ρ} {m : Module} {type : TypeDef}
  {method edited : MethodDef}

/-- What the rule leaves of a method that passes the check passes it too. -/
theorem keepsDepths_of_left (ready : ∀ b ∈ method.body,
      b.Sound ∧ DelegatesFit m b ∧ b.checkStack method.returnsValue = .ok ())
    (left : MethodLeft [callbackHandles add] m method edited) :
    KeepsDepths method edited ∧
      ∀ c ∈ edited.body, c.checkStack edited.returnsValue = .ok () := by
  rcases left with rfl | ⟨b, c, result, held, rfl, left⟩
  · refine ⟨⟨rfl, rfl, fun b held c same => ?_⟩, fun c held => (ready c held).2.2⟩
    obtain rfl := Option.some.inj (held.symm.trans same)
    exact ⟨List.Sublist.refl _, fun _ _ _ => Iff.rfl⟩
  · obtain ⟨sound, fits, balanced⟩ := ready b held
    obtain ⟨folded, _⟩ := leftFolded_of_left sound fits left
    obtain ⟨passes, depths⟩ := balanced_of_leftFolded sound folded balanced
    constructor
    · refine ⟨rfl, by rw [held]; rfl, fun b' held' c' same => ?_⟩
      obtain rfl := Option.some.inj (held.symm.trans held')
      cases same
      obtain ⟨kept, retained, _⟩ := folded
      exact ⟨retained.part, depths⟩
    · rintro _ ⟨⟩
      exact passes

end methods

theorem checkMethod_ok_iff (type : TypeDef) (method : MethodDef) :
    Module.checkMethod (type, method) = .ok () ↔
      ∀ b ∈ method.body, b.checkStack method.returnsValue = .ok () := by
  unfold Module.checkMethod
  cases method.body with
  | none => simp
  | some b => simp

/-- A pass with the rule for delegates over any registry keeps balanced code balanced. Where every
delegate is made from two values and control enters its making only at the first instruction, no
edit is refused and the check after the pass succeeds; however the pass ends, what is left of a
method is reached with the depths it was reached with before. -/
theorem handles_keep_balance {ρ : Type} (add : ρ → String → MethodRef → Nat × ρ)
    (document : Json.Document) (m : Module) (registry : ρ)
    (loaded : Module.load document = .ok m) (balanced : m.checkStacks = .ok ())
    (fits : ∀ entry ∈ m.methods, ∀ b ∈ entry.2.body, DelegatesFit m b) :
    let outcome := run [callbackHandles add] true m registry
    (∀ method cause, outcome.result ≠ .error (.edit method cause)) ∧
      (∀ cause, outcome.result ≠ .error (.stack cause)) ∧
      outcome.edited.checkStacks = .ok () ∧ outcome.edited.bare = m.bare ∧
      List.Forall₂ KeepsDepths (m.methods.map (·.2)) (outcome.edited.methods.map (·.2)) := by
  have sound := Module.sound_of_load loaded
  obtain ⟨headers, left, failed⟩ := run_left [callbackHandles add] true m registry
  obtain ⟨_, _, result⟩ := run_eq [callbackHandles add] true m registry
  have passed : ∀ entry ∈ m.methods, ∀ b ∈ entry.2.body,
      b.checkStack entry.2.returnsValue = .ok () := fun entry member =>
    (checkMethod_ok_iff entry.1 entry.2).mp ((Success.forM_ok_iff ..).mp balanced entry member)
  have ready : ∀ method ∈ m.methods.map (·.2), ∀ b ∈ method.body,
      b.Sound ∧ DelegatesFit m b ∧ b.checkStack method.returnsValue = .ok () :=
    List.forall_mem_map.mpr fun entry member b held =>
      ⟨(sound entry member b held).1, fits entry member b held, passed entry member b held⟩
  have kept := ((List.forall₂_and_left _ _).mpr ⟨ready, left⟩).imp
    fun _ _ ⟨ready, left⟩ => keepsDepths_of_left ready left
  have checked : (run [callbackHandles add] true m registry).edited.checkStacks = .ok () := by
    rw [Module.checkStacks, Success.forM_ok_iff]
    intro entry member
    obtain ⟨_, _, _, passes⟩ :=
      Success.exists_of_forall₂ kept (List.mem_map_of_mem (f := (·.2)) member)
    exact (checkMethod_ok_iff entry.1 entry.2).mpr passes
  -- The check succeeds, so a failure is one of the visit of some body.
  have early : ∀ e, (run [callbackHandles add] true m registry).result = .error e →
      FailsEarly e := by
    intro e stopped
    rw [result, checked] at stopped
    cases visited : (visitAll [callbackHandles add] m registry).1 with
    | ok value =>
      rw [visited] at stopped
      cases stopped
    | error cause =>
      rw [visited] at stopped
      cases stopped
      obtain ⟨method, member, b, c, held, ended⟩ := failed _ visited
      obtain ⟨formed, fit, _⟩ := ready method member b held
      exact (leftFolded_of_left formed fit ended).2 _ rfl
  refine ⟨fun method cause stopped => ?_, fun cause stopped => ?_, checked, headers,
    kept.imp fun _ _ both => both.1⟩
  · rcases early _ stopped with undeclared | ⟨_, _, _, ⟨⟩⟩
    cases undeclared
  · rcases early _ stopped with undeclared | ⟨_, _, _, ⟨⟩⟩
    cases undeclared

/-- The sample program makes two delegates in a row. They become handles, and the program stays
balanced. -/
theorem handles_keep_balance_sample :
    let outcome := run [callbackHandles CallbackTable.add] true Sample.program {}
    outcome.result = .ok ⟨3, 29, 4⟩ ∧ outcome.edited.checkStacks = .ok () ∧
      List.Forall₂ KeepsDepths (Sample.program.methods.map (·.2))
        (outcome.edited.methods.map (·.2)) := by
  have balanced : Sample.program.checkStacks = .ok () := by decide +kernel
  have fits : ∀ entry ∈ Sample.program.methods, ∀ b ∈ entry.2.body,
      DelegatesFit Sample.program b := by decide +kernel
  obtain ⟨_, _, checked, _, kept⟩ := handles_keep_balance CallbackTable.add _ _ {}
    Sample.load_document balanced fits
  exact ⟨by decide +kernel, checked, kept⟩

end Pass

end NativeBridge
