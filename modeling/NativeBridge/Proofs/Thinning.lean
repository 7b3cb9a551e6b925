import NativeBridge.Proofs.DepthTyping
import NativeBridge.Proofs.Survivors

/-! Thinned bodies: each instruction of a body has been dropped or kept on its own, perhaps changed.
A place of the body has a rank, the number of instructions kept before it; there stands what is kept
of the instruction at that place, or else of the first one behind it. -/

namespace NativeBridge.Body

/-- How many of the instructions before a place are kept. -/
def rank (f : InstrId × Instruction → Option (InstrId × Instruction))
    (code : List (InstrId × Instruction)) (place : Nat) : Nat :=
  ((code.take place).filterMap f).length

/-- A body holds what a map keeps of each instruction of another one. -/
structure Thinned (f : InstrId × Instruction → Option (InstrId × Instruction))
    (b edited : Body) : Prop where
  keeps : ∀ entry kept, f entry = some kept → kept.1 = entry.1
  sound : b.Sound
  retained : edited.Retains b (b.code.filterMap f)

section rank

variable {f : InstrId × Instruction → Option (InstrId × Instruction)}
  {code : List (InstrId × Instruction)} {place : Nat} {entry kept : InstrId × Instruction}

@[simp] theorem rank_zero : rank f code 0 = 0 := by simp [rank]

theorem rank_succ_of_none (there : code[place]? = some entry) (gone : f entry = none) :
    rank f code (place + 1) = rank f code place := by
  simp [rank, List.take_add_one, there, gone]

theorem rank_succ_of_some (there : code[place]? = some entry) (stays : f entry = some kept) :
    rank f code (place + 1) = rank f code place + 1 := by
  simp [rank, List.take_add_one, there, stays]

theorem rank_length : rank f code code.length = (code.filterMap f).length := by simp [rank]

/-- From the rank of a place on stands what is kept of the instructions from that place on. -/
theorem drop_rank :
    (code.filterMap f).drop (rank f code place) = (code.drop place).filterMap f := by
  conv_lhs => rw [← List.take_append_drop place code, List.filterMap_append]
  simp [rank]

theorem filterMap_getElem?_rank (there : code[place]? = some entry) (stays : f entry = some kept) :
    (code.filterMap f)[rank f code place]? = some kept := by
  obtain ⟨inside, rfl⟩ := List.getElem?_eq_some_iff.mp there
  rw [← List.head?_drop, drop_rank, List.drop_eq_getElem_cons inside, List.filterMap_cons, stays]
  rfl

end rank

namespace Thinned

variable {f : InstrId × Instruction → Option (InstrId × Instruction)} {b edited : Body}
  {place : Nat} {id : InstrId} {i : Instruction} {kept : InstrId × Instruction}

theorem wellFormed (thinned : Thinned f b edited) : edited.WellFormed :=
  thinned.retained.wellFormed thinned.sound.distinct

theorem size_eq (thinned : Thinned f b edited) : edited.size = rank f b.code b.size := by
  rw [← length_code thinned.sound.toWellFormed, rank_length, size, thinned.retained.order,
    List.length_map]

/-- What is kept of an instruction stands at the rank of its place. -/
theorem code_rank (thinned : Thinned f b edited) (there : b.code[place]? = some (id, i))
    (stays : f (id, i) = some kept) :
    edited.code[rank f b.code place]? =
      some (id, kept.2.mapTarget (landing b.order edited.order)) := by
  rw [thinned.retained.code_eq thinned.sound.distinct, List.getElem?_map,
    filterMap_getElem?_rank there stays, ← thinned.retained.order, Option.map_some,
    thinned.keeps _ _ stays]

private theorem map_fst_filterMap_subset (thinned : Thinned f b edited)
    (entries : List (InstrId × Instruction)) :
    (entries.filterMap f).map (·.1) ⊆ entries.map (·.1) := by
  intro x member
  simp only [List.mem_map, List.mem_filterMap] at member ⊢
  obtain ⟨kept, ⟨entry, member, stays⟩, rfl⟩ := member
  exact ⟨entry, member, (thinned.keeps entry kept stays).symm⟩

/-- The survivor for the instruction at a place stands at its rank. -/
theorem survivor?_eq (thinned : Thinned f b edited) (there : b.order[place]? = some id) :
    survivor? b.order edited.order id = edited.order[rank f b.code place]? := by
  have formed := thinned.sound.toWellFormed
  obtain ⟨inside, rfl⟩ := List.getElem?_eq_some_iff.mp there
  -- Split the order and what is kept of it at the place.
  have rear : (b.code.drop place).map (·.1) = b.order[place] :: b.order.drop (place + 1) := by
    rw [List.map_drop, map_fst_code formed, List.drop_eq_getElem_cons inside]
  have split : b.order = (b.code.take place).map (·.1) ++
      b.order[place] :: b.order.drop (place + 1) := by
    rw [← rear, ← List.map_append, List.take_append_drop, map_fst_code formed]
  have live : edited.order = ((b.code.take place).filterMap f).map (·.1) ++
      ((b.code.drop place).filterMap f).map (·.1) := by
    rw [thinned.retained.order, ← List.map_append, ← List.filterMap_append,
      List.take_append_drop]
  -- What is kept before the place cannot stand at it or behind it.
  have found := survivor?_of_split (split ▸ thinned.sound.distinct)
    (thinned.map_fst_filterMap_subset (b.code.take place))
    (rear ▸ thinned.map_fst_filterMap_subset (b.code.drop place))
  rw [← split, ← live] at found
  rw [found, ← drop_rank, List.map_drop, List.head?_drop, thinned.retained.order]

/-- A reference to a place leads to its rank. -/
theorem position?_landing (thinned : Thinned f b edited) (there : b.order[place]? = some id)
    (lands : (survivor? b.order edited.order id).isSome) :
    edited.position? (landing b.order edited.order id) = some (rank f b.code place) := by
  obtain ⟨s, found⟩ := Option.isSome_iff_exists.mp lands
  rw [position?_eq_some_iff thinned.wellFormed, landing, found, ← thinned.survivor?_eq there, found]
  rfl

/-- Whatever is live was kept of an instruction of the original body. -/
theorem exists_of_order (thinned : Thinned f b edited) {rest : Nat}
    (there : edited.order[rest]? = some id) :
    ∃ place i kept, b.code[place]? = some (id, i) ∧ f (id, i) = some kept ∧
      rank f b.code place = rest := by
  have live := List.mem_of_getElem? there
  rw [thinned.retained.order] at live
  simp only [List.mem_map, List.mem_filterMap] at live
  obtain ⟨kept, ⟨⟨x, i⟩, member, stays⟩, rfl⟩ := live
  obtain rfl : kept.1 = x := thinned.keeps _ _ stays
  obtain ⟨place, original⟩ := List.mem_iff_getElem?.mp member
  refine ⟨place, i, kept, original, stays, ?_⟩
  have stands := ((code_getElem?_iff thinned.wellFormed ..).mp (thinned.code_rank original stays)).1
  have distinct := thinned.wellFormed.distinct
  obtain ⟨_, here⟩ := List.getElem?_eq_some_iff.mp stands
  obtain ⟨_, same⟩ := List.getElem?_eq_some_iff.mp there
  exact (distinct.getElem_inj_iff).mp (here.trans same.symm)

/-- Control that runs on from what is kept of an instruction goes to the rank of a place that
followed. -/
theorem follows_rank (thinned : Thinned f b edited) {next : Nat}
    (there : b.code[place]? = some (id, i)) (stays : f (id, i) = some kept)
    (inside : i.opcode.isTerminator = false → place + 1 < b.size)
    (ends : kept.2.opcode.isTerminator = i.opcode.isTerminator)
    (target : kept.2.target? = i.target?)
    (follows : edited.Follows (rank f b.code place)
      (kept.2.mapTarget (landing b.order edited.order)) next) :
    ∃ original, b.Follows place i original ∧ next = rank f b.code original := by
  have member := List.mem_of_getElem? there
  rcases follows with ⟨onward, rfl, _⟩ | ⟨t, named, found⟩
  · -- Control runs on: the place behind has the next rank.
    rw [Instruction.opcode_mapTarget, ends] at onward
    exact ⟨place + 1, Or.inl ⟨onward, rfl, inside onward⟩, (rank_succ_of_some there stays).symm⟩
  · -- A branch: its target was live and has become the rank of its place.
    rw [Instruction.target?_mapTarget, target, Option.map_eq_some_iff] at named
    obtain ⟨aim, named, rfl⟩ := named
    have live := thinned.sound.branch (id, i) member aim named
    obtain ⟨original, position⟩ := (b.position?_isSome_iff aim).mpr live
    have lands := thinned.retained.branch kept.1 kept.2
      (List.mem_filterMap.mpr ⟨(id, i), member, stays⟩) aim (target.trans named)
    rw [thinned.position?_landing
      ((position?_eq_some_iff thinned.sound.toWellFormed ..).mp position) lands] at found
    exact ⟨original, Or.inr ⟨aim, named, position⟩, (Option.some.inj found).symm⟩

/-- Control runs on from what is kept of an instruction to what is kept of a place that followed. -/
theorem rank_follows (thinned : Thinned f b edited) {next : Nat}
    (there : b.code[place]? = some (id, i)) (stays : f (id, i) = some kept)
    (ends : kept.2.opcode.isTerminator = i.opcode.isTerminator)
    (target : kept.2.target? = i.target?) (left : rank f b.code next < edited.size)
    (follows : b.Follows place i next) :
    edited.Follows (rank f b.code place) (kept.2.mapTarget (landing b.order edited.order))
      (rank f b.code next) := by
  have member := List.mem_of_getElem? there
  rcases follows with ⟨onward, rfl, _⟩ | ⟨aim, named, found⟩
  · exact Or.inl ⟨by rw [Instruction.opcode_mapTarget, ends, onward],
      rank_succ_of_some there stays, left⟩
  · have lands := thinned.retained.branch kept.1 kept.2
      (List.mem_filterMap.mpr ⟨(id, i), member, stays⟩) aim (target.trans named)
    refine Or.inr ⟨_, by rw [Instruction.target?_mapTarget, target, named, Option.map_some], ?_⟩
    exact thinned.position?_landing
      ((position?_eq_some_iff thinned.sound.toWellFormed ..).mp found) lands

end Thinned

end NativeBridge.Body
