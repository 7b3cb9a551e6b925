import NativeBridge.Proofs.TypeText

/-! The brackets of a text that is read as a type. From the first one that opens they are balanced,
and no argument holds any in its names. In front of the arguments, where only opening brackets are
looked for, closing ones go into the outermost name; a text without such is balanced as a whole. -/

namespace NativeBridge

namespace Text

/-- A text closes as many brackets as it opens, and nowhere has it closed more. -/
structure Balanced (chars : List Char) : Prop where
  within : ∀ front, front <+: chars → front.count '>' ≤ front.count '<'
  settled : chars.count '>' = chars.count '<'

/-- The same of a text in front of which some brackets are open, which it closes too. -/
structure Closes (depth : Nat) (chars : List Char) : Prop where
  within : ∀ front, front <+: chars → front.count '>' ≤ depth + front.count '<'
  settled : chars.count '>' = depth + chars.count '<'

variable {depth : Nat} {chars : List Char}

theorem Closes.balanced (closed : Closes 0 chars) : Balanced chars where
  within front begins := by simpa using closed.within front begins
  settled := by simpa using closed.settled

theorem Balanced.closes (balanced : Balanced chars) : Closes 0 chars where
  within front begins := by simpa using balanced.within front begins
  settled := by simpa using balanced.settled

theorem closes_nil : Closes 0 [] where
  within front begins := by simp [List.prefix_nil.mp begins]
  settled := rfl

/-- A text is closed if what stands behind its first character is, with the brackets that are open
there. -/
theorem Closes.cons {c : Char} {inner : Nat} (rest : Closes inner chars)
    (opened : inner + [c].count '>' = depth + [c].count '<') : Closes depth (c :: chars) := by
  have counts : ∀ (d : Char) (behind : List Char),
      (c :: behind).count d = [c].count d + behind.count d := by
    intro d behind
    simp only [List.count_cons, List.count_nil]
    omega
  constructor
  · intro front begins
    rcases List.prefix_cons_iff.mp begins with rfl | ⟨behind, rfl, later⟩
    · simp
    · have bound := rest.within behind later
      rw [counts '>' behind, counts '<' behind]
      omega
  · have total := rest.settled
    rw [counts '>' chars, counts '<' chars]
    omega

theorem Closes.opened (rest : Closes (depth + 1) chars) : Closes depth ('<' :: chars) :=
  rest.cons (by simp)

theorem Closes.closed (rest : Closes depth chars) : Closes (depth + 1) ('>' :: chars) :=
  rest.cons (by simp)

theorem Closes.other {c : Char} (opens : c ≠ '<') (closes : c ≠ '>') (rest : Closes depth chars) :
    Closes depth (c :: chars) :=
  rest.cons (by simp [opens, closes])

/-- Characters that are no brackets do not matter. -/
theorem Closes.plain_append {front : List Char} (opens : '<' ∉ front) (closes : '>' ∉ front)
    (rest : Closes depth chars) : Closes depth (front ++ chars) := by
  induction front with
  | nil => exact rest
  | cons c front ih =>
    rw [List.mem_cons, not_or] at opens closes
    exact (ih opens.2 closes.2).other (Ne.symm opens.1) (Ne.symm closes.1)

theorem Closes.append {inner : Nat} {rear : List Char} (front : Closes depth chars)
    (behind : Closes inner rear) : Closes (depth + inner) (chars ++ rear) := by
  have total := front.settled
  constructor
  · intro part begins
    rcases List.prefix_or_prefix_of_prefix begins (List.prefix_append chars rear) with
      early | ⟨late, rfl⟩
    · have bound := front.within part early
      omega
    · have bound := behind.within late ((List.prefix_append_right_inj chars).mp begins)
      rw [List.count_append, List.count_append]
      omega
  · have rest := behind.settled
    rw [List.count_append, List.count_append]
    omega

/-- Trimming takes blanks away at the two ends. -/
theorem exists_eq_trim (text : List Char) :
    ∃ front rear, text = front ++ trim text ++ rear ∧ ∀ c ∈ front ++ rear, isBlank c = true := by
  refine ⟨text.takeWhile isBlank, (text.dropWhile isBlank).rtakeWhile isBlank, ?_, ?_⟩
  · rw [trim_eq_rdropWhile, List.append_assoc, List.rdropWhile_append_rtakeWhile,
      List.takeWhile_append_dropWhile]
  · intro c member
    rcases List.mem_append.mp member with early | late
    · exact List.mem_takeWhile_imp early
    · exact List.mem_rtakeWhile_imp late

end Text

namespace TypeName

open Text (Balanced Closes)

/-- Where an argument list comes apart, its brackets are balanced. -/
theorem closes_of_splitArguments {depth : Nat} {chars : List Char} {parts : List (List Char)}
    (divided : splitArguments depth chars = some parts) : Closes depth chars := by
  induction chars generalizing depth parts with
  | nil =>
    cases depth with
    | zero => exact Text.closes_nil
    | succ depth => cases divided
  | cons c rest ih =>
    by_cases opens : c = '<'
    · subst opens
      rw [splitArguments_open, Option.map_eq_some_iff] at divided
      obtain ⟨_, divided, _⟩ := divided
      exact (ih divided).opened
    by_cases closes : c = '>'
    · subst closes
      cases depth with
      | zero => cases divided
      | succ depth =>
        rw [splitArguments_close, Option.map_eq_some_iff] at divided
        obtain ⟨_, divided, _⟩ := divided
        exact (ih divided).closed
    refine .other opens closes ?_
    by_cases divides : c = ',' ∧ depth = 0
    · obtain ⟨rfl, rfl⟩ := divides
      rw [splitArguments_comma, Option.map_eq_some_iff] at divided
      obtain ⟨_, divided, _⟩ := divided
      exact ih divided
    · rw [splitArguments_other opens closes divides, Option.map_eq_some_iff] at divided
      obtain ⟨_, divided, _⟩ := divided
      exact ih divided

/-- The head of a type that was read holds what its namespace and its name hold, but for dots. -/
theorem mem_head_iff {head : List Char} {args : List TypeName} {t : TypeName}
    (made : ofHead head args = .ok t) {c : Char} (other : c ≠ '.') :
    c ∈ head ↔ c ∈ t.space.toList ∨ c ∈ t.name.toList := by
  obtain ⟨divided, -, -⟩ := ofHead_ok made
  obtain ⟨-, whole | ⟨global, whole⟩⟩ := splitHead_spec divided
  · rw [whole, headOf]
    split
    next global => simp [global]
    next => simp [other]
  · simp [whole, global, other]

/-- A text that is read comes apart where its first bracket opens. Behind that place the brackets
are balanced; those in front of it stand in the outermost name. -/
theorem exists_brackets {source : String} {t : TypeName} (read : parse source = .ok t) :
    ∃ front rear, source.toList = front ++ rear ∧ '<' ∉ front ∧ (∀ c ∈ rear.head?, c = '<') ∧
      Balanced rear ∧ ('>' ∈ front ↔ '>' ∈ t.space.toList ∨ '>' ∈ t.name.toList) := by
  obtain ⟨before, after, whole, blank⟩ := Text.exists_eq_trim source.toList
  rw [List.forall_mem_append] at blank
  have plain : ∀ blanks : List Char, (∀ c ∈ blanks, Text.isBlank c = true) →
      '<' ∉ blanks ∧ '>' ∉ blanks := by
    intro blanks all
    exact ⟨mt (all _) (by decide), mt (all _) (by decide)⟩
  obtain ⟨unopened, unclosed⟩ := plain before blank.1
  obtain ⟨unopened', unclosed'⟩ := plain after blank.2
  have untaken : '<' ∉ (Text.trim source.toList).takeWhile (· != '<') := fun member => by
    simpa using List.mem_takeWhile_imp member
  rcases parseWithin_cases read with ⟨head, closed, made⟩ |
    ⟨inside, parts, args, bracketed, divided, -, made⟩
  · -- A head alone holds no bracket at all.
    have inHead := mem_head_iff made (c := '>') (by decide)
    rw [head] at untaken inHead
    refine ⟨source.toList, [], (List.append_nil _).symm, ?_, by simp, Text.closes_nil.balanced, ?_⟩
    · rw [whole]
      simp [unopened, untaken, unopened']
    · rw [← inHead]
      refine iff_of_false ?_ closed
      rw [whole]
      simp [unclosed, closed, unclosed']
  · refine ⟨before ++ (Text.trim source.toList).takeWhile (· != '<'),
      '<' :: (inside ++ ['>']) ++ after, ?_, ?_, by simp, ?_, ?_⟩
    · conv_lhs => rw [whole, bracketed]
      simp
    · simp [unopened, untaken]
    · have rear : Closes 0 after := by
        simpa using Text.closes_nil.plain_append unopened' unclosed'
      have closed := ((closes_of_splitArguments divided).append rear.closed).opened
      simpa using closed.balanced
    · rw [← mem_head_iff made (by decide)]
      simp [unclosed]

/-- Neither the namespace nor the name of a type holds a bracket. -/
def Unbracketed (t : TypeName) : Prop :=
  ('<' ∉ t.space.toList ∧ '<' ∉ t.name.toList) ∧ '>' ∉ t.space.toList ∧ '>' ∉ t.name.toList

theorem mem_headOf_of_mem {space name : List Char} {c : Char} (member : c ∈ space ∨ c ∈ name) :
    c ∈ headOf space name := by
  rw [headOf]
  split
  next global => simpa [global] using member
  next => rcases member with member | member <;> simp [member]

theorem unbracketed_of_headParsed {inner : Bool} {t : TypeName}
    (head : HeadParsed inner t.args.isEmpty t.space.toList t.name.toList)
    (alone : inner = true ∨ t.args = []) : t.Unbracketed := by
  have unclosed := head.unclosed (alone.imp_right List.isEmpty_iff.mpr)
  have opens := mt mem_headOf_of_mem head.unopened
  have closes := mt mem_headOf_of_mem unclosed
  exact ⟨not_or.mp opens, not_or.mp closes⟩

/-- No argument that was read holds a bracket in a name, at any depth. -/
theorem unbracketed_of_part {a u : TypeName} (parsed : Parsed true a) (part : u.PartOf a) :
    u.Unbracketed := by
  induction part with
  | self a => exact unbracketed_of_headParsed (parsed_iff.mp parsed).1 (Or.inl rfl)
  | argument member _ ih => exact ih ((allParsed_iff _).mp (parsed_iff.mp parsed).2 _ member)

/-- Of a text that is read as a type, the brackets from the first that opens on are balanced. No
part of the type holds a bracket in its namespace or name, but for closing ones in the outermost,
which then has arguments. The whole text is balanced exactly if there are none of these. -/
theorem brackets_of_parse (source : String) (t : TypeName) (read : parse source = .ok t) :
    Balanced (source.toList.dropWhile (· != '<')) ∧
      ('<' ∉ t.space.toList ∧ '<' ∉ t.name.toList) ∧
      (∀ a ∈ t.args, ∀ u : TypeName, u.PartOf a → u.Unbracketed) ∧
      (t.args = [] → t.Unbracketed) ∧ (Balanced source.toList ↔ t.Unbracketed) := by
  obtain ⟨head, arguments⟩ := parsed_iff.mp (parsed_of_parse read)
  obtain ⟨front, rear, whole, unopened, begins, balanced, named⟩ := exists_brackets read
  have opens := not_or.mp (mt mem_headOf_of_mem head.unopened)
  refine ⟨?_, opens, ?_, fun bare => unbracketed_of_headParsed head (Or.inr bare), ?_⟩
  · have skipped : ∀ c ∈ front, (c != '<') = true := by
      intro c member
      rw [bne_iff_ne]
      rintro rfl
      exact unopened member
    rw [whole, List.dropWhile_append_of_pos skipped]
    cases rear with
    | nil => exact balanced
    | cons c rear =>
      rw [List.dropWhile_cons_of_neg (by simp [begins c rfl])]
      exact balanced
  · exact fun a member u part => unbracketed_of_part ((allParsed_iff _).mp arguments a member) part
  · rw [Unbracketed, and_iff_right opens, ← not_or, ← named, whole]
    constructor
    · -- Before the first bracket that opens, none may close.
      intro all member
      have early := all.within front (List.prefix_append front rear)
      rw [List.count_eq_zero.mpr unopened] at early
      exact absurd member (List.count_eq_zero.mp (Nat.le_zero.mp early))
    · exact fun unclosed => (balanced.closes.plain_append unopened unclosed).balanced

/-- A closing bracket in the namespace upsets the text as a whole, and not its arguments. -/
theorem brackets_of_parse_sample :
    let t : TypeName := ⟨"A>", "B", [⟨"", "C", [⟨"", "D", []⟩]⟩]⟩
    parse " A>.B<C<D>> " = .ok t ∧ Balanced (" A>.B<C<D>> ".toList.dropWhile (· != '<')) ∧
      ¬ Balanced " A>.B<C<D>> ".toList ∧ ∀ a ∈ t.args, a.Unbracketed := by
  intro t
  have read : parse " A>.B<C<D>> " = .ok t := by decide +kernel
  obtain ⟨behind, -, arguments, -, whole⟩ := brackets_of_parse _ _ read
  refine ⟨read, behind, fun all => ?_, fun a member => arguments a member a (.self a)⟩
  exact (whole.mp all).2.1 (by decide +kernel)

/-- A bracket that closes before any is opened is taken for a part of the name. -/
theorem stray_bracket_accepted :
    ∃ t, parse "A>B<C>" = .ok t ∧ ¬ Balanced "A>B<C>".toList ∧ '>' ∈ t.name.toList := by
  refine ⟨⟨"", "A>B", [⟨"", "C", []⟩]⟩, by decide +kernel, fun all => ?_, by decide +kernel⟩
  exact absurd (all.within ['A', '>'] (by decide +kernel)) (by decide)

end TypeName

end NativeBridge
