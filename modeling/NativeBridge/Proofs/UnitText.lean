import NativeBridge.Glue.CUnit
import NativeBridge.Text.Digits
import Mathlib.Data.List.Basic

/-! The text of a C unit taken apart again: its lines and the numbers written into them. -/

namespace NativeBridge

namespace Text

/-- The parts of a text between its line breaks. The last one is what stands behind the last line
break, so it is empty if every line is ended. -/
def linesWithin (text : String) : List String := (text.toList.splitOn '\n').map String.ofList

/-- A text without a character. -/
def Lacks (text : String) (c : Char) : Prop := c ∉ text.toList

/-- A text without a line break. -/
abbrev Unbroken (text : String) : Prop := Lacks text '\n'

instance (text : String) (c : Char) : Decidable (Lacks text c) :=
  inferInstanceAs (Decidable (c ∉ text.toList))

theorem Lacks.append {front rear : String} {c : Char} (first : Lacks front c)
    (last : Lacks rear c) : Lacks (front ++ rear) c := by
  rw [Lacks, String.toList_append, List.mem_append]
  exact not_or.mpr ⟨first, last⟩

theorem Lacks.enclosed {front inner rear : String} {c : Char} (first : Lacks front c)
    (held : Lacks inner c) (last : Lacks rear c) : Lacks (front ++ inner ++ rear) c :=
  (first.append held).append last

theorem linesWithin_of_unbroken {text : String} (unbroken : Unbroken text) :
    linesWithin text = [text] := by
  rw [linesWithin, List.splitOn_eq_singleton unbroken, List.map_singleton, String.ofList_toList]

theorem linesWithin_ended (line rest : String) :
    linesWithin (line ++ "\n" ++ rest) = linesWithin line ++ linesWithin rest := by
  have divided : (line ++ "\n" ++ rest).toList.splitOn '\n' =
      line.toList.splitOn '\n' ++ rest.toList.splitOn '\n' := by
    rw [String.toList_append, String.toList_append, List.append_assoc]
    exact List.splitOnP_append_cons _ _ (beq_self_eq_true '\n')
  rw [linesWithin, divided, List.map_append]
  rfl

theorem toList_toString_nat (n : Nat) : (toString n).toList = Nat.toDigits 10 n := by
  rw [Nat.toString_eq_ofList_toDigits, String.toList_ofList]

theorem unbroken_toString_nat (n : Nat) : Unbroken (toString n) := by
  rw [Unbroken, Lacks, toList_toString_nat]
  intro member
  exact absurd (Nat.isDigit_of_mem_toDigits (by decide) (by decide) member) (by decide)

/-- A number that was written is read as that number. -/
theorem numberIn_toDigits (n : Nat) : numberIn? 10 (Nat.toDigits 10 n) = some n := by
  have digit : ∀ m < 10, digitIn? 10 (Nat.digitChar m) = some m := by decide
  have spelled : (Nat.toDigits 10 n).foldlM
      (fun m c => (digitIn? 10 c).map (m * 10 + ·)) 0 = some n := by
    -- The last digit is read behind those of the number without it.
    induction n using Nat.strongRecOn with
    | ind n ih =>
      by_cases small : n < 10
      · rw [Nat.toDigits_of_lt_base small]
        simp [digit n small]
      · rw [Nat.toDigits_of_base_le (by decide) (by omega), List.foldlM_append,
          ih (n / 10) (by omega)]
        simp only [Option.bind_eq_bind, Option.bind_some, List.foldlM_cons, List.foldlM_nil,
          digit (n % 10) (by omega), Option.map_some, Option.pure_def, Option.some.injEq]
        omega
  rw [numberIn?, spelled]
  simp [Nat.toDigits_ne_nil]

end Text

namespace Glue

open Text (linesWithin Unbroken)

theorem textOf_cons (line : String) (lines : List String) :
    textOf (line :: lines) = line ++ "\n" ++ textOf lines :=
  String.join_cons

theorem textOf_append (front rear : List String) :
    textOf (front ++ rear) = textOf front ++ textOf rear := by
  induction front with
  | nil => simp [textOf]
  | cons line front ih =>
    rw [List.cons_append, textOf_cons, textOf_cons, ih]
    simp only [String.append_assoc]

/-- The lines of a text are those that it was made of, taken apart where these hold line breaks, and
nothing stands behind them. -/
theorem linesWithin_textOf (lines : List String) :
    linesWithin (textOf lines) = lines.flatMap linesWithin ++ [""] := by
  induction lines with
  | nil => rfl
  | cons line lines ih =>
    rw [textOf_cons, Text.linesWithin_ended, ih, List.flatMap_cons, List.append_assoc]

theorem flatMap_linesWithin {lines : List String}
    (unbroken : ∀ line ∈ lines, Unbroken line) : lines.flatMap linesWithin = lines := by
  induction lines with
  | nil => rfl
  | cons line lines ih =>
    rw [List.forall_mem_cons] at unbroken
    rw [List.flatMap_cons, Text.linesWithin_of_unbroken unbroken.1, ih unbroken.2]
    rfl

end Glue

end NativeBridge
