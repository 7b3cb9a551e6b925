import NativeBridge.Body.Edit
import Mathlib.Data.List.Basic
import Mathlib.Data.List.Nodup

/-! Bodies whose live identities are distinct and name instructions. Their code has one entry for
each place of the order, so that a place means the same in both. -/

namespace NativeBridge.Body

/-- The live identities are distinct and each names an instruction of the arena. -/
structure WellFormed (b : Body) : Prop where
  distinct : b.order.Nodup
  present : ∀ id ∈ b.order, id.index < b.arena.length

instance (b : Body) : Decidable b.WellFormed :=
  decidable_of_iff (b.order.Nodup ∧ ∀ id ∈ b.order, id.index < b.arena.length)
    ⟨fun ⟨distinct, present⟩ => ⟨distinct, present⟩,
      fun formed => ⟨formed.distinct, formed.present⟩⟩

theorem mem_code_iff (b : Body) (id : InstrId) (i : Instruction) :
    (id, i) ∈ b.code ↔ id ∈ b.order ∧ b.get? id = some i := by
  simp only [code, List.mem_filterMap, Option.map_eq_some_iff, Prod.mk.injEq]
  constructor
  · rintro ⟨live, member, held, found, rfl, rfl⟩
    exact ⟨member, found⟩
  · rintro ⟨member, found⟩
    exact ⟨id, member, i, found, rfl, rfl⟩

theorem get?_isSome_of_live {b : Body} (formed : b.WellFormed) {id : InstrId}
    (live : id ∈ b.order) : ∃ i, b.get? id = some i :=
  ⟨_, List.getElem?_eq_getElem (formed.present id live)⟩

/-- No live identity is dropped from the code. -/
theorem code_eq_map {b : Body} (formed : b.WellFormed) :
    b.code = b.order.map fun id => (id, (b.get? id).getD default) := by
  unfold code
  rw [← List.filterMap_eq_map]
  apply List.filterMap_congr
  intro id live
  obtain ⟨i, found⟩ := get?_isSome_of_live formed live
  simp [found]

theorem map_fst_code {b : Body} (formed : b.WellFormed) : b.code.map (·.1) = b.order := by
  rw [code_eq_map formed, List.map_map]
  exact List.map_id'' (fun _ => rfl) _

theorem length_code {b : Body} (formed : b.WellFormed) : b.code.length = b.size := by
  rw [code_eq_map formed, List.length_map, size]

/-- The entry at a place of the code is the live identity there with its instruction. -/
theorem code_getElem?_iff {b : Body} (formed : b.WellFormed) (place : Nat) (id : InstrId)
    (i : Instruction) :
    b.code[place]? = some (id, i) ↔ b.order[place]? = some id ∧ b.get? id = some i := by
  rw [code_eq_map formed, List.getElem?_map]
  simp only [Option.map_eq_some_iff, Prod.mk.injEq]
  constructor
  · rintro ⟨live, there, rfl, held⟩
    obtain ⟨j, found⟩ := get?_isSome_of_live formed (List.mem_of_getElem? there)
    exact ⟨there, by simpa [found] using held⟩
  · rintro ⟨there, found⟩
    exact ⟨id, there, rfl, by simp [found]⟩

/-- The place of an identity is where the order holds it. -/
theorem position?_eq_some_iff {b : Body} (formed : b.WellFormed) (id : InstrId) (place : Nat) :
    b.position? id = some place ↔ b.order[place]? = some id := by
  simp only [position?, List.findIdx?_eq_some_iff_getElem, beq_iff_eq,
    List.getElem?_eq_some_iff]
  constructor
  · rintro ⟨inside, there, _⟩
    exact ⟨inside, there⟩
  · rintro ⟨inside, there⟩
    refine ⟨inside, there, fun earlier before same => ?_⟩
    have equal := (formed.distinct.getElem_inj_iff).mp (same.trans there.symm)
    omega

theorem position?_lt {b : Body} {id : InstrId} {place : Nat}
    (found : b.position? id = some place) : place < b.size := by
  simp only [position?, List.findIdx?_eq_some_iff_getElem] at found
  exact found.1

theorem position?_isSome_iff (b : Body) (id : InstrId) :
    (∃ place, b.position? id = some place) ↔ id ∈ b.order := by
  rw [← Option.isSome_iff_exists, position?, List.findIdx?_isSome, List.any_eq_true]
  simp

end NativeBridge.Body
