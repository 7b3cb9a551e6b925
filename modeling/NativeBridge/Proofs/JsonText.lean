import NativeBridge.Json.Reader
import NativeBridge.Json.Value
import Mathlib.Data.List.Basic

/-! Reading written values. The pretty text of a value reads back as the same value: every number
ends before the comma or line break behind it, every escape stands for its character, and the blanks
of the layout are skipped. -/

namespace NativeBridge.Json

section numbers

/-- The digits of a natural number. -/
def digitsOf (n : Nat) : List Nat := (Nat.toDigits 10 n).map digitValue

/-- An integer as a number in a text. -/
def numeralOf (n : Int) : Numeral := ⟨n < 0, digitsOf n.natAbs, [], none⟩

/-- A text that ends a number in front of it. -/
def Closed (rest : List Char) : Prop := ∀ c ∈ rest.head?, c = ',' ∨ c = '\n'

theorem closed_cons {c : Char} (ends : c = ',' ∨ c = '\n') (rest : List Char) :
    Closed (c :: rest) := by
  intro d first
  cases first
  exact ends

theorem isDigit_of_mem {n : Nat} {c : Char} (member : c ∈ Nat.toDigits 10 n) : c.isDigit = true :=
  Nat.isDigit_of_mem_toDigits (by decide) (by decide) member

theorem toDigits_eq_cons (n : Nat) :
    ∃ c others, Nat.toDigits 10 n = c :: others ∧ c.isDigit = true := by
  rcases digits : Nat.toDigits 10 n with _ | ⟨c, others⟩
  · exact absurd digits Nat.toDigits_ne_nil
  · have member : c ∈ Nat.toDigits 10 n := by simp [digits]
    exact ⟨c, others, rfl, isDigit_of_mem member⟩

theorem readDigits_toDigits (n : Nat) {rest : List Char} (closed : Closed rest) :
    readDigits (Nat.toDigits 10 n ++ rest) = (digitsOf n, rest) := by
  have all : ∀ c ∈ Nat.toDigits 10 n, c.isDigit = true := fun _ => isDigit_of_mem
  rw [readDigits, List.takeWhile_append_of_pos all, List.dropWhile_append_of_pos all, digitsOf]
  cases rest with
  | nil => simp
  | cons c rest =>
    have other : c.isDigit = false := by rcases closed c rfl with rfl | rfl <;> decide
    simp [other]

theorem head_toDigits {n : Nat} (positive : 0 < n) {c : Char}
    (first : c ∈ (Nat.toDigits 10 n).head?) : digitValue c ≠ 0 := by
  -- The first digit is that of the number without its last one.
  induction n using Nat.strongRecOn with
  | ind n ih =>
    by_cases small : n < 10
    · rw [Nat.toDigits_of_lt_base small] at first
      cases first
      have each : ∀ m < 10, 0 < m → digitValue (Nat.digitChar m) ≠ 0 := by decide
      exact each n small positive
    · rw [Nat.toDigits_of_base_le (by decide) (by omega),
        List.head?_append_of_ne_nil _ Nat.toDigits_ne_nil] at first
      exact ih (n / 10) (by omega) (by omega) first

/-- No number is written with a zero in front. -/
theorem digitsOf_spec (n : Nat) :
    digitsOf n ≠ [] ∧ ∀ digit rest, digitsOf n ≠ 0 :: digit :: rest := by
  refine ⟨by simp [digitsOf, Nat.toDigits_ne_nil], fun digit rest same => ?_⟩
  rcases Nat.eq_zero_or_pos n with rfl | positive
  · rw [digitsOf, Nat.toDigits_zero] at same
    cases same
  · rw [digitsOf, List.map_eq_cons_iff] at same
    obtain ⟨c, others, digits, zero, -⟩ := same
    exact head_toDigits positive (by rw [digits]; rfl) zero

theorem readMagnitude_toDigits (negative : Bool) (n : Nat) {rest : List Char}
    (closed : Closed rest) :
    readMagnitude negative (Nat.toDigits 10 n ++ rest) =
      some (⟨negative, digitsOf n, [], none⟩, rest) := by
  have fraction : readFraction rest = some ([], rest) := by
    cases rest with
    | nil => rfl
    | cons c rest => rcases closed c rfl with rfl | rfl <;> rfl
  have exponent : readExponent rest = some (none, rest) := by
    cases rest with
    | nil => rfl
    | cons c rest => rcases closed c rfl with rfl | rfl <;> rfl
  -- The reader rejects an empty run of digits and a zero with digits behind it.
  obtain ⟨nonempty, leading⟩ := digitsOf_spec n
  rw [readMagnitude, readDigits_toDigits n closed]
  split
  next same => exact absurd (congrArg Prod.fst same) nonempty
  next same => exact absurd (congrArg Prod.fst same) (leading _ _)
  next same =>
    cases same
    simp only [fraction, exponent, Option.bind_eq_bind, Option.bind_some]

theorem foldl_digitsOf (n : Nat) :
    (digitsOf n).foldl (fun value digit => value * 10 + digit) 0 = n := by
  have spelled := Nat.ofDigitChars_ten_toDigits (n := n)
  rw [Nat.ofDigitChars_eq_foldl] at spelled
  rw [digitsOf, List.foldl_map]
  simpa only [digitValue, Nat.mul_comm] using spelled

theorem le_foldl_digits (digits : List Nat) (value : Nat) :
    value ≤ digits.foldl (fun value digit => value * 10 + digit) value := by
  induction digits generalizing value with
  | nil => exact Nat.le_refl _
  | cons digit digits ih =>
    have step := ih (value * 10 + digit)
    rw [List.foldl_cons]
    omega

/-- Digits that spell a number below the limit are all read. -/
theorem gather_of_lt {digits : List Nat} {value : Nat}
    (below : digits.foldl (fun value digit => value * 10 + digit) value <
      Numeral.significandLimit) :
    Numeral.gather value digits =
      (digits.foldl (fun value digit => value * 10 + digit) value, digits.length, true) := by
  induction digits generalizing value with
  | nil => rfl
  | cons digit digits ih =>
    rw [List.foldl_cons] at below ⊢
    have soon := le_foldl_digits digits (value * 10 + digit)
    rw [Numeral.gather, if_pos (by omega), ih below]
    rfl

/-- An integer of 64 bits, signed or not, is read as that integer. -/
theorem value_numeralOf {n : Int} (least : -(Nat.pow 2 63 : Int) ≤ n)
    (greatest : n < Nat.pow 2 64) : (numeralOf n).value? = some (.integer n) := by
  change -(2 ^ 63 : Int) ≤ n at least
  change n < 2 ^ 64 at greatest
  have below : n.natAbs < Numeral.significandLimit := by
    change n.natAbs < 2 ^ 64
    omega
  have gathered : Numeral.gather 0 (digitsOf n.natAbs) = _ :=
    gather_of_lt (by rw [foldl_digitsOf]; exact below)
  rw [foldl_digitsOf] at gathered
  unfold Numeral.value?
  simp only [numeralOf, gathered, and_self, if_true, decide_eq_true_eq]
  by_cases negative : n < 0
  · have inside : ¬(n.natAbs = 0 ∨ Nat.pow 2 63 < n.natAbs) := by
      change ¬(n.natAbs = 0 ∨ 2 ^ 63 < n.natAbs)
      omega
    rw [if_neg (not_not.mpr negative), if_neg inside]
    congr 2
    omega
  · rw [if_pos negative]
    congr 2
    omega

end numbers

section strings

theorem readPieces_short {c d : Char} (short : shortEscape? c = some d) (rest : List Char) :
    readPieces ('\\' :: c :: rest) =
      (readPieces rest).map fun read => (.char d :: read.1, read.2) := by
  have other : c ≠ 'u' := by
    rintro rfl
    cases short
  rw [readPieces]
  · rw [short]
    cases readPieces rest <;> rfl
  · intro a b c d rest same
    exact fun _ => other same

theorem readPieces_unit {a b c d : Char} {n : Nat} (quad : hexQuad? a b c d = some n)
    (rest : List Char) :
    readPieces ('\\' :: 'u' :: a :: b :: c :: d :: rest) =
      (readPieces rest).map fun read => (.unit n :: read.1, read.2) := by
  rw [readPieces, quad]
  cases readPieces rest <;> rfl

theorem readPieces_plain {c : Char} (quote : c ≠ '"') (slash : c ≠ '\\')
    (printed : ¬ c.toNat < 0x20) (rest : List Char) :
    readPieces (c :: rest) = (readPieces rest).map fun read => (.char c :: read.1, read.2) := by
  rw [readPieces]
  · rw [if_neg (not_or.mpr ⟨slash, printed⟩)]
    cases readPieces rest <;> rfl
  · exact quote
  · exact fun _ _ _ _ _ same => absurd same slash
  · exact fun _ _ same => absurd same slash

/-- A control character below a space is spelled by two digits. -/
theorem hexQuad_hexPair {n : Nat} (control : n < 0x20) :
    hexQuad? '0' '0' (Nat.digitChar (n / 16)) (Nat.digitChar (n % 16)) = some n := by
  have each : ∀ m < 0x20,
      hexQuad? '0' '0' (Nat.digitChar (m / 16)) (Nat.digitChar (m % 16)) = some m := by decide
  exact each n control

/-- A character written in a string is one piece, which stands for it. -/
theorem readPieces_escapeChar (c : Char) (rest : List Char) :
    ∃ piece, readPieces (escapeChar c ++ rest) =
        (readPieces rest).map (fun read => (piece :: read.1, read.2)) ∧
      ∀ pieces, joinPieces (piece :: pieces) = (joinPieces pieces).map (c :: ·) := by
  have short : ∀ {e : Char}, shortEscape? e = some c → ∃ piece, readPieces (['\\', e] ++ rest) =
        (readPieces rest).map (fun read => (piece :: read.1, read.2)) ∧
      ∀ pieces, joinPieces (piece :: pieces) = (joinPieces pieces).map (c :: ·) := fun known =>
    ⟨.char c, readPieces_short known rest, fun _ => rfl⟩
  unfold escapeChar
  split_ifs with quote slash back feed line carriage tab control
  · exact short (by rw [quote]; rfl)
  · exact short (by rw [slash]; rfl)
  · exact short (by rw [back]; rfl)
  · exact short (by rw [feed]; rfl)
  · exact short (by rw [line]; rfl)
  · exact short (by rw [carriage]; rfl)
  · exact short (by rw [tab]; rfl)
  -- A code unit below a space is no half of a surrogate pair.
  · refine ⟨.unit c.toNat, readPieces_unit (hexQuad_hexPair control) rest, fun pieces => ?_⟩
    simp only [joinPieces.eq_def (.unit c.toNat :: pieces)]
    rw [if_neg (by omega), if_neg (by omega), Char.ofNat_toNat]
  · exact ⟨.char c, readPieces_plain quote slash control rest, fun _ => rfl⟩

theorem readString_escaped (chars rest : List Char) :
    readString (chars.flatMap escapeChar ++ '"' :: rest) =
      some (some (String.ofList chars), rest) := by
  have pieces : ∃ pieces, readPieces (chars.flatMap escapeChar ++ '"' :: rest) =
      some (pieces, rest) ∧ joinPieces pieces = some chars := by
    induction chars with
    | nil => exact ⟨[], by rw [List.flatMap_nil, List.nil_append, readPieces], rfl⟩
    | cons c chars ih =>
      obtain ⟨pieces, read, joined⟩ := ih
      obtain ⟨piece, first, stands⟩ :=
        readPieces_escapeChar c (chars.flatMap escapeChar ++ '"' :: rest)
      refine ⟨piece :: pieces, ?_, ?_⟩
      · rw [List.flatMap_cons, List.append_assoc, first, read]
        rfl
      · rw [stands, joined]
        rfl
  obtain ⟨pieces, read, joined⟩ := pieces
  simp [readString, read, joined]

end strings

section layout

mutual

/-- A value as it stands in a text. -/
def source : Json → Source
  | .null => .null
  | .bool value => .bool value
  | .int n => .number (numeralOf n)
  | .string text => .string (some text)
  | .array items => .array (itemSources items)
  | .object members => .object (memberSources members)

/-- The items of an array. -/
def itemSources : List Json → List Source
  | [] => []
  | item :: items => item.source :: itemSources items

/-- The members of an object. -/
def memberSources : List (String × Json) → List (Option String × Source)
  | [] => []
  | (name, value) :: members => (some name, value.source) :: memberSources members

end

theorem skipSpace_newline (level : Nat) (rest : List Char) :
    skipSpace (newline level ++ rest) = skipSpace rest := by
  have blank : ∀ c ∈ newline level, isSpace c = true := by
    intro c member
    rcases List.mem_cons.mp member with rfl | space
    · rfl
    · rw [List.eq_of_mem_replicate space]
      rfl
  exact List.dropWhile_append_of_pos blank

theorem skipSpace_cons {c : Char} (visible : isSpace c = false) (rest : List Char) :
    skipSpace (c :: rest) = c :: rest := List.dropWhile_cons_of_neg (by simp [visible])

theorem length_newline (level : Nat) : (newline level).length = 2 * level + 1 := by
  simp [newline]

theorem closed_newline (level : Nat) (rest : List Char) : Closed (newline level ++ rest) :=
  closed_cons (Or.inr rfl) _

theorem toList_toString (n : Int) :
    (toString n).toList = (if n < 0 then ['-'] else []) ++ Nat.toDigits 10 n.natAbs := by
  rw [Int.toString_eq_repr, Int.repr_eq_if]
  by_cases negative : n < 0
  · have size : (-n).toNat = n.natAbs := by omega
    rw [if_neg (by omega), if_pos negative, size, String.toList_append, Nat.repr_eq_ofList_toDigits]
    exact congrArg (['-'] ++ ·) String.toList_ofList
  · have size : n.toNat = n.natAbs := by omega
    rw [if_pos (by omega), if_neg negative, size, Nat.repr_eq_ofList_toDigits, String.toList_ofList]
    rfl

/-- Blanks in front of a value are skipped. -/
theorem readValue_congr {text other : List Char} (same : skipSpace text = skipSpace other)
    (fuel : Nat) : readValue fuel text = readValue fuel other := by
  cases fuel with
  | zero => rw [readValue, readValue]
  | succ fuel => rw [readValue, readValue, same]

theorem isSpace_digit {c : Char} (digit : c.isDigit = true) : isSpace c = false := by
  rw [Bool.eq_false_iff]
  intro space
  simp only [isSpace, Bool.or_eq_true, decide_eq_true_eq] at space
  obtain ((rfl | rfl) | rfl) | rfl := space <;> exact absurd digit (by decide)

theorem readValue_digit {c : Char} (digit : c.isDigit = true) {fuel : Nat} {rest after : List Char}
    {numeral : Numeral} (read : readMagnitude false (c :: rest) = some (numeral, after)) :
    readValue (fuel + 1) (c :: rest) = (.number numeral, after) := by
  have differs : ∀ {d : Char} {behind : List Char}, d.isDigit = false →
      c :: rest ≠ d :: behind := by
    rintro d behind other same
    rw [← (List.cons.inj same).1, digit] at other
    cases other
  rw [readValue, skipSpace_cons (isSpace_digit digit)]
  -- Every other value begins with something that is not a digit.
  split
  iterate 7
    next same => exact absurd same (differs (by decide))
  next => rw [read]

theorem readValue_int (n : Int) {fuel : Nat} {rest : List Char} (closed : Closed rest) :
    readValue (fuel + 1) ((toString n).toList ++ rest) = (.number (numeralOf n), rest) := by
  rw [toList_toString]
  by_cases negative : n < 0
  · have read := readMagnitude_toDigits true n.natAbs closed
    rw [if_pos negative, List.append_assoc, List.singleton_append, readValue,
      skipSpace_cons (by decide)]
    simp only [read, numeralOf, negative, decide_true]
  · have read := readMagnitude_toDigits false n.natAbs closed
    rw [if_neg negative, List.nil_append]
    obtain ⟨c, others, digits, digit⟩ := toDigits_eq_cons n.natAbs
    rw [digits, List.cons_append] at read
    rw [digits, List.cons_append, readValue_digit digit read, numeralOf]
    simp [negative]

theorem readValue_string (text : String) (fuel : Nat) (rest : List Char) :
    readValue (fuel + 1) ('"' :: (text.toList.flatMap escapeChar ++ '"' :: rest)) =
      (.string (some text), rest) := by
  rw [readValue, skipSpace_cons (by decide)]
  simp only [readString_escaped, String.ofList_toList]

/-! What one step of reading a list of items or members does, given what the parts read as. -/

theorem readValue_array {fuel : Nat} {c : Char} {text more after : List Char} {items : List Source}
    (begins : skipSpace text = c :: more) (inside : c ≠ ']')
    (read : readItems fuel (c :: more) = (items, after)) :
    readValue (fuel + 1) ('[' :: text) = (.array items, after) := by
  rw [readValue, skipSpace_cons (by decide)]
  simp only [begins]
  split
  next same => exact absurd (List.cons.inj same).1 inside
  next => rw [read]

theorem readItems_last {fuel : Nat} {text rest after : List Char} {item : Source}
    (value : readValue fuel text = (item, rest)) (ends : skipSpace rest = ']' :: after) :
    readItems (fuel + 1) text = ([item], after) := by
  rw [readItems, value]
  simp only [ends]

theorem readItems_more {fuel : Nat} {text rest more after : List Char} {item : Source}
    {items : List Source} (value : readValue fuel text = (item, rest))
    (divided : skipSpace rest = ',' :: more) (others : readItems fuel more = (items, after)) :
    readItems (fuel + 1) text = (item :: items, after) := by
  rw [readItems, value]
  simp only [divided, others]

theorem readItems_congr {text other : List Char} (same : skipSpace text = skipSpace other)
    (fuel : Nat) : readItems fuel text = readItems fuel other := by
  cases fuel with
  | zero => rw [readItems, readItems]
  | succ fuel => rw [readItems, readItems, readValue_congr same]

theorem readValue_object {fuel : Nat} {text more after : List Char}
    {members : List (Option String × Source)} (begins : skipSpace text = '"' :: more)
    (read : readMembers fuel ('"' :: more) = (members, after)) :
    readValue (fuel + 1) ('\x7b' :: text) = (.object members, after) := by
  rw [readValue, skipSpace_cons (by decide)]
  simp only [begins]
  split
  next same => exact absurd (List.cons.inj same).1 (by decide)
  next => rw [read]

theorem readMembers_last {fuel : Nat} {name : String} {text rest after : List Char} {value : Source}
    (read : readValue fuel text = (value, rest)) (ends : skipSpace rest = '\x7d' :: after) :
    readMembers (fuel + 1) ('"' :: (name.toList.flatMap escapeChar ++ '"' :: ':' :: text)) =
      ([(some name, value)], after) := by
  rw [readMembers, skipSpace_cons (by decide)]
  simp only [readString_escaped, String.ofList_toList, skipSpace_cons (c := ':') (by decide), read,
    ends]

theorem readMembers_more {fuel : Nat} {name : String} {text rest more after : List Char}
    {value : Source} {members : List (Option String × Source)}
    (read : readValue fuel text = (value, rest)) (divided : skipSpace rest = ',' :: more)
    (others : readMembers fuel more = (members, after)) :
    readMembers (fuel + 1) ('"' :: (name.toList.flatMap escapeChar ++ '"' :: ':' :: text)) =
      ((some name, value) :: members, after) := by
  rw [readMembers, skipSpace_cons (by decide)]
  simp only [readString_escaped, String.ofList_toList, skipSpace_cons (c := ':') (by decide), read,
    divided, others]

theorem readMembers_congr {text other : List Char} (same : skipSpace text = skipSpace other)
    (fuel : Nat) : readMembers fuel text = readMembers fuel other := by
  cases fuel with
  | zero => rw [readMembers, readMembers]
  | succ fuel => rw [readMembers, readMembers, same]

/-- A list of items without the brackets around it. -/
def itemsText (level : Nat) : List Json → List Char
  | [] => []
  | item :: items => prettyChars level item ++ prettyItems level items

/-- A list of members without the braces around it. -/
def membersText (level : Nat) : List (String × Json) → List Char
  | [] => []
  | (name, value) :: members =>
    stringToken name ++ ':' :: ' ' :: prettyChars level value ++ prettyMembers level members

theorem prettyChars_array (level : Nat) (item : Json) (items : List Json) (rest : List Char) :
    prettyChars level (.array (item :: items)) ++ rest =
      '[' :: (newline (level + 1) ++
        (itemsText (level + 1) (item :: items) ++ (newline level ++ ']' :: rest))) := by
  rw [prettyChars, itemsText]
  simp only [List.cons_append, List.append_assoc, List.nil_append]

theorem prettyChars_object (level : Nat) (member : String × Json) (members : List (String × Json))
    (rest : List Char) :
    prettyChars level (.object (member :: members)) ++ rest =
      '\x7b' :: (newline (level + 1) ++
        (membersText (level + 1) (member :: members) ++ (newline level ++ '\x7d' :: rest))) := by
  rw [prettyChars, membersText]
  simp only [List.cons_append, List.append_assoc, List.nil_append]

theorem itemsText_cons (level : Nat) (item next : Json) (items : List Json) (rest : List Char) :
    itemsText level (item :: next :: items) ++ rest =
      prettyChars level item ++
        ',' :: (newline level ++ (itemsText level (next :: items) ++ rest)) := by
  simp only [itemsText, prettyItems, List.cons_append, List.append_assoc]

theorem membersText_cons (level : Nat) (name : String) (value : Json) (next : String × Json)
    (members : List (String × Json)) (rest : List Char) :
    membersText level ((name, value) :: next :: members) ++ rest =
      '"' :: (name.toList.flatMap escapeChar ++ '"' :: ':' :: ' ' :: (prettyChars level value ++
        ',' :: (newline level ++ (membersText level (next :: members) ++ rest)))) := by
  simp only [membersText, prettyMembers, stringToken, List.cons_append, List.append_assoc,
    List.nil_append]

theorem membersText_last (level : Nat) (name : String) (value : Json) (rest : List Char) :
    membersText level [(name, value)] ++ rest =
      '"' :: (name.toList.flatMap escapeChar ++ '"' :: ':' :: ' ' ::
        (prettyChars level value ++ rest)) := by
  simp only [membersText, prettyMembers, stringToken, List.cons_append, List.append_assoc,
    List.nil_append]

/-- A written value begins with something that is neither a blank nor a closing bracket. -/
theorem prettyChars_begins (level : Nat) (value : Json) :
    ∃ c rest, prettyChars level value = c :: rest ∧ isSpace c = false ∧ c ≠ ']' := by
  match value with
  | .null => exact ⟨'n', _, rfl, by decide, by decide⟩
  | .bool true => exact ⟨'t', _, rfl, by decide, by decide⟩
  | .bool false => exact ⟨'f', _, rfl, by decide, by decide⟩
  | .string text => exact ⟨'"', _, rfl, by decide, by decide⟩
  | .array [] => exact ⟨'[', _, rfl, by decide, by decide⟩
  | .array (_ :: _) => exact ⟨'[', _, rfl, by decide, by decide⟩
  | .object [] => exact ⟨'\x7b', _, rfl, by decide, by decide⟩
  | .object (_ :: _) => exact ⟨'\x7b', _, rfl, by decide, by decide⟩
  | .int n =>
    have text : prettyChars level (.int n) = (if n < 0 then ['-'] else []) ++
        Nat.toDigits 10 n.natAbs := by rw [prettyChars, toList_toString]
    by_cases negative : n < 0
    · rw [if_pos negative] at text
      exact ⟨'-', _, text, by decide, by decide⟩
    · rw [if_neg negative, List.nil_append] at text
      obtain ⟨c, others, digits, digit⟩ := toDigits_eq_cons n.natAbs
      refine ⟨c, others, text.trans digits, isSpace_digit digit, ?_⟩
      rintro rfl
      exact absurd digit (by decide)

theorem skipSpace_itemsText (level : Nat) (item : Json) (items : List Json) (rest : List Char) :
    ∃ c more, itemsText level (item :: items) ++ rest = c :: more ∧
      skipSpace (itemsText level (item :: items) ++ rest) = c :: more ∧ c ≠ ']' := by
  obtain ⟨c, more, text, visible, inside⟩ := prettyChars_begins level item
  refine ⟨c, more ++ (prettyItems level items ++ rest), ?_, ?_, inside⟩
  · rw [itemsText, text, List.append_assoc, List.cons_append]
  · rw [itemsText, text, List.append_assoc, List.cons_append, skipSpace_cons visible]

theorem skipSpace_blank (rest : List Char) : skipSpace (' ' :: rest) = skipSpace rest := rfl

mutual

/-- The text of a value, with the end of the text or of a line behind it, reads as that value. -/
theorem readValue_prettyChars : ∀ (value : Json) (level fuel : Nat) {rest : List Char},
    Closed rest → (prettyChars level value).length < fuel →
    readValue fuel (prettyChars level value ++ rest) = (value.source, rest)
  | _, _, 0, _, _, short => absurd short (Nat.not_lt_zero _)
  | .null, _, _ + 1, _, _, _ => rfl
  | .bool true, _, _ + 1, _, _, _ => rfl
  | .bool false, _, _ + 1, _, _, _ => rfl
  | .int n, level, fuel + 1, rest, closed, _ => readValue_int n closed
  | .string text, level, fuel + 1, rest, _, _ => by
    rw [prettyChars, stringToken, List.cons_append, List.cons_append, List.append_assoc]
    exact readValue_string text fuel rest
  | .array [], _, _ + 1, _, _, _ => rfl
  | .array (item :: items), level, fuel + 1, rest, _, short => by
    -- The brackets and line breaks around the items leave enough fuel for them.
    have length := congrArg List.length (prettyChars_array level item items [])
    simp only [List.append_nil, List.length_cons, List.length_append, length_newline] at length
    have read := readItems_itemsText (item :: items) (level + 1) level fuel rest (by simp)
      (by omega)
    obtain ⟨c, more, text, begins, inside⟩ := skipSpace_itemsText (level + 1) item items
      (newline level ++ ']' :: rest)
    rw [prettyChars_array, source]
    rw [text] at read
    refine readValue_array ?_ inside read
    rw [skipSpace_newline, begins]
  | .object [], _, _ + 1, _, _, _ => rfl
  | .object ((name, value) :: members), level, fuel + 1, rest, _, short => by
    have length := congrArg List.length (prettyChars_object level (name, value) members [])
    simp only [List.append_nil, List.length_cons, List.length_append, length_newline] at length
    have read := readMembers_membersText ((name, value) :: members) (level + 1) level fuel rest
      (by simp) (by omega)
    rw [prettyChars_object, source]
    refine readValue_object ?_ read
    rw [skipSpace_newline]
    exact skipSpace_cons (by decide) _

theorem readItems_itemsText : ∀ (items : List Json) (level outer fuel : Nat) (rest : List Char),
    items ≠ [] → (itemsText level items).length + 1 < fuel →
    readItems fuel (itemsText level items ++ (newline outer ++ ']' :: rest)) =
      (itemSources items, rest)
  | [], _, _, _, _, nonempty, _ => absurd rfl nonempty
  | [item], level, outer, fuel + 2, rest, _, short => by
    have text : itemsText level [item] = prettyChars level item := List.append_nil _
    rw [text] at short ⊢
    have value := readValue_prettyChars item level (fuel + 1)
      (closed_newline outer (']' :: rest)) (by omega)
    -- The last item is followed by the line break in front of the bracket.
    refine readItems_last value ?_
    rw [skipSpace_newline]
    exact skipSpace_cons (by decide) _
  | item :: next :: items, level, outer, fuel + 2, rest, _, short => by
    have length := congrArg List.length (itemsText_cons level item next items [])
    simp only [List.append_nil, List.length_cons, List.length_append, length_newline] at length
    rw [itemsText_cons]
    have value := readValue_prettyChars item level (fuel + 1)
      (closed_cons (Or.inl rfl) (newline level ++ (itemsText level (next :: items) ++
        (newline outer ++ ']' :: rest)))) (by omega)
    have others := readItems_itemsText (next :: items) level outer (fuel + 1) rest (by simp)
      (by omega)
    refine readItems_more value (skipSpace_cons (by decide) _) ?_
    rw [readItems_congr (skipSpace_newline _ _), others]

theorem readMembers_membersText :
    ∀ (members : List (String × Json)) (level outer fuel : Nat) (rest : List Char),
    members ≠ [] → (membersText level members).length + 1 < fuel →
    readMembers fuel (membersText level members ++ (newline outer ++ '\x7d' :: rest)) =
      (memberSources members, rest)
  | [], _, _, _, _, nonempty, _ => absurd rfl nonempty
  | [(name, value)], level, outer, fuel + 2, rest, _, short => by
    have length := congrArg List.length (membersText_last level name value [])
    simp only [List.append_nil, List.length_cons, List.length_append] at length
    have read := readValue_prettyChars value level (fuel + 1)
      (closed_newline outer ('\x7d' :: rest)) (by omega)
    rw [membersText_last]
    refine readMembers_last ((readValue_congr (skipSpace_blank _) _).trans read) ?_
    rw [skipSpace_newline]
    exact skipSpace_cons (by decide) _
  | (name, value) :: next :: members, level, outer, fuel + 2, rest, _, short => by
    have length := congrArg List.length (membersText_cons level name value next members [])
    simp only [List.append_nil, List.length_cons, List.length_append, length_newline] at length
    rw [membersText_cons]
    have read := readValue_prettyChars value level (fuel + 1)
      (closed_cons (Or.inl rfl) (newline level ++ (membersText level (next :: members) ++
        (newline outer ++ '\x7d' :: rest)))) (by omega)
    have others := readMembers_membersText (next :: members) level outer (fuel + 1) rest (by simp)
      (by omega)
    refine readMembers_more ((readValue_congr (skipSpace_blank _) _).trans read)
      (skipSpace_cons (by decide) _) ?_
    rw [readMembers_congr (skipSpace_newline _ _), others]

end

/-- The pretty text of a value is a document with that value. -/
theorem read_pretty (value : Json) : read value.pretty = ⟨value.source, true⟩ := by
  have closed : Closed [] := nofun
  have whole := readValue_prettyChars value 0 (2 * (prettyChars 0 value).length + 2) closed
    (by omega)
  rw [List.append_nil] at whole
  rw [read, pretty, String.toList_ofList, readOne, whole]
  rfl

end layout

end NativeBridge.Json
