import NativeBridge.Proofs.StubNames

/-! The labels by which the linker finds aliased symbols. They stand in string literals, from which
C reads the symbols back: no backslash and no quote in a symbol ends a literal or changes what
follows. So different symbols have different labels. -/

namespace NativeBridge.Glue

open Text (Lacks)

/-- Where a reader of C is: outside of string literals, or inside of one with what it has read of
it, behind a backslash or not. -/
inductive Place where
  | outside
  | inside (content : List Char) (escaped : Bool)
deriving DecidableEq, Repr

/-- One character further, with the literal that it ends. A backslash makes the next character
literal, and the first other quote is the end. -/
def Place.step : Place → Char → Place × List (List Char)
  | .outside, c => (if c = '"' then .inside [] false else .outside, [])
  | .inside content true, c => (.inside (content ++ [c]) false, [])
  | .inside content false, c =>
    if c = '"' then (.outside, [content])
    else if c = '\\' then (.inside content true, [])
    else (.inside (content ++ [c]) false, [])

/-- Behind a text, with the literals that end in it. -/
def Place.run : Place → List Char → Place × List (List Char)
  | place, [] => (place, [])
  | place, c :: rest =>
    (((place.step c).1.run rest).1, (place.step c).2 ++ ((place.step c).1.run rest).2)

theorem run_append (place : Place) (front rear : List Char) :
    place.run (front ++ rear) =
      (((place.run front).1.run rear).1,
        (place.run front).2 ++ ((place.run front).1.run rear).2) := by
  induction front generalizing place with
  | nil => rfl
  | cons c front ih => simp [Place.run, ih]

theorem run_outside {text : List Char} (quiet : '"' ∉ text) :
    Place.outside.run text = (.outside, []) := by
  induction text with
  | nil => rfl
  | cons c text ih =>
    rw [List.mem_cons, not_or] at quiet
    simp [Place.run, Place.step, Ne.symm quiet.1, ih quiet.2]

/-- A character between the quotes of a literal, as it is written. -/
def escape (c : Char) : List Char :=
  if c = '\\' then ['\\', '\\'] else if c = '"' then ['\\', '"'] else [c]

theorem toList_literal (text : String) : (literal text).toList = text.toList.flatMap escape := by
  rw [literal, String.toList_ofList]
  rfl

theorem run_escape (content : List Char) (c : Char) :
    (Place.inside content false).run (escape c) = (.inside (content ++ [c]) false, []) := by
  by_cases slash : c = '\\'
  · subst slash
    rfl
  by_cases quote : c = '"'
  · subst quote
    rfl
  simp [escape, Place.run, Place.step, slash, quote]

/-- What is written between quotes is read as it was, and does not end the literal. -/
theorem run_literal (content : List Char) (text : String) :
    (Place.inside content false).run (literal text).toList =
      (.inside (content ++ text.toList) false, []) := by
  rw [toList_literal]
  induction text.toList generalizing content with
  | nil => simp [Place.run]
  | cons c rest ih => rw [List.flatMap_cons, run_append, run_escape, ih]; simp

theorem run_opened (text : String) :
    Place.outside.run ('"' :: (literal text).toList) = (.inside text.toList false, []) := by
  have opened : Place.outside.step '"' = (.inside [] false, []) := rfl
  simp only [Place.run, opened, run_literal, List.nil_append]

/-- The first quote that is not guarded is the one behind it. -/
theorem run_quoted (text : String) :
    Place.outside.run ('"' :: (literal text).toList ++ ['"']) = (.outside, [text.toList]) := by
  rw [run_append, run_opened]
  rfl

/-- A text with a backslash put in front of every occurrence of a character. -/
def guarded (c : Char) (text : List Char) : List Char :=
  text.flatMap fun d => if d = c then ['\\', d] else [d]

/-- First the backslashes are guarded, then the quotes. -/
theorem toList_literal_eq_guarded (text : String) :
    (literal text).toList = guarded '"' (guarded '\\' text.toList) := by
  rw [toList_literal, guarded, guarded, List.flatMap_assoc]
  refine List.flatMap_congr fun c _ => ?_
  -- The backslash in front of a quote comes second, so it is not guarded itself.
  by_cases slash : c = '\\'
  · subst slash
    rfl
  by_cases quote : c = '"'
  · subst quote
    rfl
  simp [escape, slash, quote]

theorem literal_append (front rear : String) :
    literal (front ++ rear) = literal front ++ literal rear := by
  rw [← String.toList_inj, String.toList_append, toList_literal, toList_literal, toList_literal,
    String.toList_append, List.flatMap_append]

theorem literal_of_lacks {text : String} (noSlash : Lacks text '\\') (noQuote : Lacks text '"') :
    literal text = text := by
  rw [← String.toList_inj, toList_literal]
  have plain : ∀ c ∈ text.toList, escape c = [c] := by
    intro c member
    have other : c ≠ '\\' := fun same => noSlash (same ▸ member)
    have other' : c ≠ '"' := fun same => noQuote (same ▸ member)
    rw [escape, if_neg other, if_neg other']
  rw [List.flatMap_congr plain, List.flatMap_singleton']

/-- A text with literals in it, in front of which and behind which none is open. -/
def Holds (text : String) (literals : List String) : Prop :=
  Place.outside.run text.toList = (.outside, literals.map String.toList)

theorem Holds.append {front rear : String} {literals others : List String}
    (first : Holds front literals) (last : Holds rear others) :
    Holds (front ++ rear) (literals ++ others) := by
  rw [Holds, String.toList_append, run_append, first, last, List.map_append]

theorem holds_of_lacks {text : String} (quiet : Lacks text '"') : Holds text [] :=
  run_outside quiet

theorem holds_literal (text : String) : Holds ("\"" ++ literal text ++ "\"") [text] := by
  rw [Holds, String.toList_append, String.toList_append]
  exact run_quoted text

theorem holds_textOf {lines : List String} {literals : List (List String)}
    (each : List.Forall₂ Holds lines literals) : Holds (textOf lines) literals.flatten := by
  induction each with
  | nil => exact holds_of_lacks (by decide)
  | cons first _ ih =>
    rw [textOf_cons, List.flatten_cons]
    have ended := first.append (holds_of_lacks (by decide : Lacks "\n" '"'))
    rw [List.append_nil] at ended
    exact ended.append ih

theorem holds_quoted (text : String) {front rear : String} (quietFront : Lacks front '"')
    (quietRear : Lacks rear '"') : Holds (front ++ ("\"" ++ literal text ++ "\"") ++ rear) [text] :=
  ((holds_of_lacks quietFront).append (holds_literal text)).append (holds_of_lacks quietRear)

/-- What stands behind the first `=`. -/
def equated (content : List Char) : List Char := (content.dropWhile (· != '=')).tail

/-- The label in a line. It is what the literal of the line holds, and in a line for the
preprocessor what this equates a name with. -/
def labelIn? (line : String) : Option (List Char) :=
  (Place.outside.run line.toList).2.head?.map fun content =>
    if line.toList.head? = some '#' then equated content else content

theorem labelIn?_of_holds_nil {line : String} (empty : Holds line []) : labelIn? line = none := by
  rw [labelIn?, empty]
  rfl

theorem labelIn?_of_holds {line text : String} (held : Holds line [text]) :
    labelIn? line =
      some (if line.toList.head? = some '#' then equated text.toList else text.toList) := by
  rw [labelIn?, held]
  rfl

section declarations

/-- What a directive asks of the linker. -/
def Stub.directive (s : Stub) : String := "/alternatename:" ++ s.callee ++ "=" ++ s.symbol

variable {s : Stub} (identifier : Identifier s.callee.toList)

include identifier

theorem literal_directive :
    literal s.directive = "/alternatename:" ++ s.callee ++ "=" ++ literal s.symbol := by
  have callee := literal_of_lacks (identifier.lacks (c := '\\') rfl)
    (identifier.lacks (c := '"') rfl)
  have opening : literal "/alternatename:" = "/alternatename:" :=
    literal_of_lacks (by decide +kernel) (by decide +kernel)
  have equals : literal "=" = "=" := literal_of_lacks (by decide) (by decide)
  change literal ("/alternatename:" ++ s.callee ++ "=" ++ s.symbol) = _
  rw [literal_append, literal_append, literal_append, callee, opening, equals]

theorem holds_plain : Holds ("extern void* " ++ s.callee ++ "(void);") [] :=
  holds_of_lacks
    (Text.Lacks.enclosed (by decide +kernel) (identifier.lacks rfl) (by decide +kernel))

theorem holds_directive :
    Holds ("#pragma comment(linker, \"/alternatename:" ++ s.callee ++ "=" ++ literal s.symbol ++
      "\")") [s.directive] := by
  have opening : "#pragma comment(linker, \"/alternatename:" =
      "#pragma comment(linker, " ++ "\"" ++ "/alternatename:" := by decide +kernel
  have closing : "\")" = "\"" ++ ")" := by decide +kernel
  have quiet : Lacks "#pragma comment(linker, " '"' := by decide +kernel
  have quoted := holds_quoted s.directive quiet (by decide : Lacks ")" '"')
  rw [literal_directive identifier] at quoted
  rw [opening, closing]
  simpa only [String.append_assoc] using quoted

theorem holds_asm :
    Holds ("extern void* " ++ s.callee ++ "(void) __asm__(ILBRIDGE_SYMBOL(\"" ++
      literal s.symbol ++ "\"));") [s.symbol] := by
  have opening : "(void) __asm__(ILBRIDGE_SYMBOL(\"" =
      "(void) __asm__(ILBRIDGE_SYMBOL(" ++ "\"" := by decide +kernel
  have closing : "\"));" = "\"" ++ "));" := by decide +kernel
  have quiet : Lacks ("extern void* " ++ s.callee ++ "(void) __asm__(ILBRIDGE_SYMBOL(") '"' :=
    Text.Lacks.enclosed (by decide +kernel) (identifier.lacks rfl) (by decide +kernel)
  have quoted := holds_quoted s.symbol quiet (by decide +kernel : Lacks "));" '"')
  rw [opening, closing]
  simpa only [String.append_assoc] using quoted

/-- What the literals of a declaration hold, line by line. -/
theorem holds_declaration :
    List.Forall₂ Holds s.declaration
      (if s.isAlias then [[], [], [s.directive], [], [s.symbol], []] else [[]]) := by
  have plain := holds_plain identifier
  by_cases other : s.isAlias = true
  · have guard : Holds "#if defined(_MSC_VER)" [] := holds_of_lacks (by decide +kernel)
    have otherwise : Holds "#else" [] := holds_of_lacks (by decide +kernel)
    have closing : Holds "#endif" [] := holds_of_lacks (by decide +kernel)
    rw [Stub.declaration, if_pos other, if_pos other]
    exact .cons guard (.cons plain (.cons (holds_directive identifier) (.cons otherwise
      (.cons (holds_asm identifier) (.cons closing .nil)))))
  · rw [Stub.declaration, if_neg other, if_neg other]
    exact .cons plain .nil

theorem equated_directive : equated s.directive.toList = s.symbol.toList := by
  have skipped : ∀ c ∈ ("/alternatename:" ++ s.callee).toList, (c != '=') = true := by
    have without : Lacks ("/alternatename:" ++ s.callee) '=' :=
      Text.Lacks.append (by decide +kernel) (identifier.lacks rfl)
    intro c member
    exact bne_iff_ne.mpr fun same => without (same ▸ member)
  have spelled : s.directive.toList =
      ("/alternatename:" ++ s.callee).toList ++ '=' :: s.symbol.toList := by
    change ("/alternatename:" ++ s.callee ++ "=" ++ s.symbol).toList = _
    rw [String.toList_append, String.toList_append, List.append_assoc]
    rfl
  rw [spelled, equated, List.dropWhile_append_of_pos skipped]
  rfl

theorem labelIn?_directive :
    labelIn? ("#pragma comment(linker, \"/alternatename:" ++ s.callee ++ "=" ++ literal s.symbol ++
      "\")") = some s.symbol.toList := by
  rw [labelIn?_of_holds (holds_directive identifier), if_pos, equated_directive identifier]
  simp only [String.toList_append]
  rfl

theorem labelIn?_asm :
    labelIn? ("extern void* " ++ s.callee ++ "(void) __asm__(ILBRIDGE_SYMBOL(\"" ++
      literal s.symbol ++ "\"));") = some s.symbol.toList := by
  rw [labelIn?_of_holds (holds_asm identifier), if_neg]
  simp only [String.toList_append]
  exact fun same : some 'e' = some '#' => absurd same (by decide)

/-- The label of a stub that C calls by another name is its symbol, for each compiler. -/
theorem filterMap_labelIn?_declaration :
    s.declaration.filterMap labelIn? =
      if s.isAlias then [s.symbol.toList, s.symbol.toList] else [] := by
  have plain := labelIn?_of_holds_nil (holds_plain identifier)
  by_cases other : s.isAlias = true
  · have guard : labelIn? "#if defined(_MSC_VER)" = none := by decide +kernel
    have otherwise : labelIn? "#else" = none := by decide +kernel
    have closing : labelIn? "#endif" = none := by decide +kernel
    rw [Stub.declaration, if_pos other, if_pos other, List.filterMap_cons_none guard,
      List.filterMap_cons_none plain, List.filterMap_cons_some (labelIn?_directive identifier),
      List.filterMap_cons_none otherwise, List.filterMap_cons_some (labelIn?_asm identifier),
      List.filterMap_cons_none closing, List.filterMap_nil]
  · rw [Stub.declaration, if_neg other, if_neg other, List.filterMap_cons_none plain,
      List.filterMap_nil]

theorem label_eq_symbol {line : String} (member : line ∈ s.declaration) {label : List Char}
    (found : labelIn? line = some label) : label = s.symbol.toList := by
  have among : label ∈ s.declaration.filterMap labelIn? :=
    List.mem_filterMap.mpr ⟨line, member, found⟩
  rw [filterMap_labelIn?_declaration identifier] at among
  by_cases other : s.isAlias = true
  · rw [if_pos other] at among
    simpa using among
  · rw [if_neg other] at among
    cases among

end declarations

theorem identifier_of_mem_stubsOf {symbols : List String} {s : Stub}
    (member : s ∈ stubsOf symbols) :
    Identifier s.callee.toList :=
  identifier_of_mem_calleesOf (List.mem_map_of_mem member)

theorem holds_declarations {stubs : List Stub}
    (identifiers : ∀ s ∈ stubs, Identifier s.callee.toList) :
    Holds (textOf (stubs.flatMap Stub.declaration))
      ((stubs.filter Stub.isAlias).flatMap fun s => [s.directive, s.symbol]) := by
  induction stubs with
  | nil => exact holds_of_lacks (by decide)
  | cons s stubs ih =>
    rw [List.forall_mem_cons] at identifiers
    have first := holds_textOf (holds_declaration identifiers.1)
    have both := first.append (ih identifiers.2)
    rw [List.flatMap_cons, textOf_append]
    by_cases other : s.isAlias = true
    · rw [if_pos other] at both
      rwa [List.filter_cons_of_pos other, List.flatMap_cons]
    · rw [if_neg other] at both
      rwa [List.filter_cons_of_neg other]

theorem filterMap_labelIn?_declarations {stubs : List Stub}
    (identifiers : ∀ s ∈ stubs, Identifier s.callee.toList) :
    (stubs.flatMap Stub.declaration).filterMap labelIn? =
      (stubs.filter Stub.isAlias).flatMap fun s => [s.symbol.toList, s.symbol.toList] := by
  induction stubs with
  | nil => rfl
  | cons s stubs ih =>
    rw [List.forall_mem_cons] at identifiers
    rw [List.flatMap_cons, List.filterMap_append, filterMap_labelIn?_declaration identifiers.1,
      ih identifiers.2]
    by_cases other : s.isAlias = true
    · rw [if_pos other, List.filter_cons_of_pos other, List.flatMap_cons]
    · rw [if_neg other, List.filter_cons_of_neg other, List.nil_append]

/-- A symbol is written between quotes with its backslashes guarded and then its quotes. C reads
that to its last quote and no further, and finds the symbol. So the declarations of stubs hold two
literals for each symbol that C calls by another name, both of which give the symbol as the label,
and lines with the same label belong to the same symbol. -/
theorem labels_read_back (symbols : List String) :
    (∀ text : String,
      (literal text).toList = guarded '"' (guarded '\\' text.toList) ∧
      Place.outside.run ('"' :: (literal text).toList) = (.inside text.toList false, []) ∧
      Place.outside.run ('"' :: (literal text).toList ++ ['"']) = (.outside, [text.toList])) ∧
    Holds (textOf ((stubsOf symbols).flatMap Stub.declaration))
      (((stubsOf symbols).filter Stub.isAlias).flatMap fun s => [s.directive, s.symbol]) ∧
    ((stubsOf symbols).flatMap Stub.declaration).filterMap labelIn? =
      (((stubsOf symbols).filter Stub.isAlias).flatMap fun s =>
        [s.symbol.toList, s.symbol.toList]) ∧
    ∀ s ∈ stubsOf symbols, ∀ t ∈ stubsOf symbols, ∀ line ∈ s.declaration,
      ∀ other ∈ t.declaration, ∀ label, labelIn? line = some label →
        labelIn? other = some label → s.symbol = t.symbol := by
  have identifiers : ∀ s ∈ stubsOf symbols, Identifier s.callee.toList := fun s =>
    identifier_of_mem_stubsOf
  refine ⟨fun text => ⟨toList_literal_eq_guarded text, run_opened text, run_quoted text⟩,
    holds_declarations identifiers, filterMap_labelIn?_declarations identifiers, ?_⟩
  intro s memberS t memberT line inS other inT label labelled labelled'
  have first := label_eq_symbol (identifiers s memberS) inS labelled
  have second := label_eq_symbol (identifiers t memberT) inT labelled'
  exact String.toList_inj.mp (first.symm.trans second)

end NativeBridge.Glue
