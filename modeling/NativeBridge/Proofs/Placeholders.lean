import NativeBridge.Glue.Exports
import Mathlib.Data.List.Basic

/-! The place for the symbol in a signature. A text holds it as often as there are ways to divide
the text around it, since no two places overlap. Filling the first place keeps what stands before it
and behind it, whatever the symbol is. -/

namespace NativeBridge.Glue

/-- The mark of the place for a symbol. -/
def mark : List Char := ['\x7b', '0', '\x7d']

/-- A text holds the mark in one place only. -/
def MarkedOnce (text : List Char) : Prop :=
  ∃ front rear, text = front ++ mark ++ rear ∧
    ∀ front' rear', text = front' ++ mark ++ rear' → front' = front ∧ rear' = rear

theorem placeholders_mark (rest : List Char) :
    placeholders (mark ++ rest) = placeholders rest + 1 := rfl

theorem placeholders_other {c : Char} {rest : List Char} (unmarked : ¬ mark <+: c :: rest) :
    placeholders (c :: rest) = placeholders rest := by
  rw [placeholders]
  rintro others rfl rfl
  exact unmarked ⟨others, rfl⟩

theorem fillPlaceholder_mark (symbol rest : List Char) :
    fillPlaceholder symbol (mark ++ rest) = symbol ++ rest := rfl

theorem fillPlaceholder_other (symbol : List Char) {c : Char} {rest : List Char}
    (unmarked : ¬ mark <+: c :: rest) :
    fillPlaceholder symbol (c :: rest) = c :: fillPlaceholder symbol rest := by
  rw [fillPlaceholder]
  rintro others rfl rfl
  exact unmarked ⟨others, rfl⟩

/-- A text is read mark by mark, and one character at a time elsewhere. -/
theorem mark_induction {P : List Char → Prop} (nil : P [])
    (marked : ∀ rest, P rest → P (mark ++ rest))
    (other : ∀ c rest, ¬ mark <+: c :: rest → P rest → P (c :: rest)) (text : List Char) :
    P text := by
  fun_induction placeholders text with
  | case1 rest ih => exact marked rest ih
  | case2 c rest unmarked ih =>
    refine other c rest ?_ ih
    rintro ⟨others, same⟩
    obtain ⟨rfl, rfl⟩ := List.cons.inj same
    exact unmarked others rfl rfl
  | case3 => exact nil

/-- Two marks that are not in the same place do not overlap. -/
theorem shift_of_mark {shift rest rest' : List Char}
    (same : mark ++ rest = shift ++ (mark ++ rest')) : shift = [] ∨ mark <+: shift := by
  rcases shift with _ | ⟨a, _ | ⟨b, _ | ⟨c, shift⟩⟩⟩
  · exact Or.inl rfl
  · simp [mark] at same
  · simp [mark] at same
  · obtain ⟨rfl, rfl, rfl, -⟩ : '\x7b' = a ∧ '0' = b ∧ '\x7d' = c ∧ _ := by
      simpa [mark] using same
    exact Or.inr ⟨shift, rfl⟩

theorem unmarked_append {c : Char} {front rear : List Char} (unmarked : ¬ mark <+: c :: front) :
    ¬ mark <+: c :: (front ++ (mark ++ rear)) := by
  rintro ⟨rest, same⟩
  rw [← List.cons_append] at same
  rcases shift_of_mark same with none | marked
  · cases none
  · exact unmarked marked

theorem placeholders_divided (front rear : List Char) :
    placeholders (front ++ (mark ++ rear)) = placeholders front + placeholders rear + 1 := by
  induction front using mark_induction with
  | nil => rw [List.nil_append, placeholders_mark, placeholders, Nat.zero_add]
  | marked front ih =>
    rw [List.append_assoc, placeholders_mark, placeholders_mark, ih]
    omega
  | other c front unmarked ih =>
    rw [List.cons_append, placeholders_other (unmarked_append unmarked),
      placeholders_other unmarked, ih]

/-- The first place is filled, and a mark in the symbol is left as it is. -/
theorem fillPlaceholder_divided (symbol : List Char) {front : List Char} (rear : List Char)
    (unmarked : placeholders front = 0) :
    fillPlaceholder symbol (front ++ (mark ++ rear)) = front ++ (symbol ++ rear) := by
  induction front using mark_induction with
  | nil => exact fillPlaceholder_mark symbol rear
  | marked front => rw [placeholders_mark] at unmarked; cases unmarked
  | other c front begins ih =>
    rw [placeholders_other begins] at unmarked
    rw [List.cons_append, fillPlaceholder_other symbol (unmarked_append begins), ih unmarked,
      List.cons_append]

theorem mem_fillPlaceholder {symbol text : List Char} {c : Char}
    (member : c ∈ fillPlaceholder symbol text) : c ∈ symbol ∨ c ∈ text := by
  induction text using mark_induction with
  | nil => cases member
  | marked rest =>
    rw [fillPlaceholder_mark, List.mem_append] at member
    exact member.imp_right (List.mem_append_right mark)
  | other d rest unmarked ih =>
    rw [fillPlaceholder_other symbol unmarked] at member
    rcases List.mem_cons.mp member with rfl | later
    · exact Or.inr List.mem_cons_self
    · exact (ih later).imp_right (List.mem_cons_of_mem d)

theorem exists_divided {text : List Char} (held : placeholders text ≠ 0) :
    ∃ front rear, text = front ++ (mark ++ rear) := by
  induction text using mark_induction with
  | nil => exact absurd rfl held
  | marked rest => exact ⟨[], rest, rfl⟩
  | other c rest unmarked ih =>
    rw [placeholders_other unmarked] at held
    obtain ⟨front, rear, rfl⟩ := ih held
    exact ⟨c :: front, rear, rfl⟩

/-- Where a text is divided by marks in two ways and holds one mark only, the ways are the same. -/
theorem divided_unique {front rear front' rear' : List Char} (once : placeholders front' = 0)
    {shift : List Char} (longer : front' = front ++ shift)
    (same : mark ++ rear = shift ++ (mark ++ rear')) : front' = front ∧ rear' = rear := by
  rcases shift_of_mark same with rfl | ⟨rest, rfl⟩
  · exact ⟨by simpa using longer, (List.append_cancel_left same).symm⟩
  · rw [longer, placeholders_divided] at once
    cases once

/-- There is one place exactly if there is one way to divide the text around a place. -/
theorem placeholders_eq_one_iff (text : List Char) : placeholders text = 1 ↔ MarkedOnce text := by
  constructor
  · intro one
    obtain ⟨front, rear, rfl⟩ := exists_divided (show placeholders text ≠ 0 by omega)
    refine ⟨front, rear, (List.append_assoc ..).symm, fun front' rear' same => ?_⟩
    rw [List.append_assoc] at same
    have here := placeholders_divided front rear
    have there := placeholders_divided front' rear'
    rw [← same] at there
    rcases List.append_eq_append_iff.mp same with
      ⟨shift, longer, shifted⟩ | ⟨shift, longer, shifted⟩
    · exact divided_unique (by omega) longer shifted
    · obtain ⟨rfl, rfl⟩ := divided_unique (by omega) longer shifted
      exact ⟨rfl, rfl⟩
  · rintro ⟨front, rear, rfl, unique⟩
    -- A further place would divide the text in another way.
    rw [List.append_assoc, placeholders_divided]
    by_contra more
    by_cases early : placeholders front = 0
    · obtain ⟨between, last, rfl⟩ := exists_divided (show placeholders rear ≠ 0 by omega)
      have moved := unique (front ++ mark ++ between) last (by simp)
      simpa [mark] using congrArg List.length moved.1
    · obtain ⟨first, between, rfl⟩ := exists_divided early
      have moved := unique first (between ++ mark ++ rear) (by simp)
      simpa [mark] using congrArg List.length moved.1

end NativeBridge.Glue
