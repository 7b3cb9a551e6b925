import NativeBridge.Proofs.Placeholders
import NativeBridge.Proofs.Success
import NativeBridge.Proofs.UnitText

/-! From a callback handle to its function. An export list is read record by record, in order. The C
unit declares every export, and its accessor, read as C reads it, leads from the handle `i` to the
export at position `i` and from any other number to a null pointer. -/

namespace NativeBridge.Glue

section records

/-- An object has a string in a field. Of repeated members the last one counts. -/
def TextField (record : Json.Source) (name text : String) : Prop :=
  ∃ front rear, record = .object (front ++ (some name, .string (some text)) :: rear) ∧
    ∀ member ∈ rear, member.1 ≠ some name

/-- A record describes an export. -/
structure Describes (record : Json.Source) (e : Export) : Prop where
  name : TextField record "name" e.name
  signature : TextField record "signature" e.signature
  once : MarkedOnce e.signature.toList

theorem lookup_reverse_eq_some_iff {members : List (Option String × Json.Source)}
    {name : Option String} {value : Json.Source} :
    members.reverse.lookup name = some value ↔
      ∃ front rear, members = front ++ (name, value) :: rear ∧
        ∀ member ∈ rear, member.1 ≠ name := by
  rw [List.lookup_eq_some_iff]
  constructor
  · rintro ⟨later, earlier, reversed, others⟩
    refine ⟨earlier.reverse, later.reverse, ?_, ?_⟩
    · rw [← List.reverse_reverse members, reversed]
      simp
    · intro member behind
      have differs := others member (List.mem_reverse.mp behind)
      exact Ne.symm (bne_iff_ne.mp differs)
  · rintro ⟨front, rear, rfl, others⟩
    refine ⟨rear.reverse, front.reverse, by simp, ?_⟩
    intro member behind
    exact bne_iff_ne.mpr (Ne.symm (others member (List.mem_reverse.mp behind)))

theorem textMember_eq_some_iff (record : Json.Source) (name text : String) :
    textMember? record name = some text ↔ TextField record name text := by
  constructor
  · intro found
    cases record with
    | object members =>
      rw [textMember?] at found
      rcases looked : members.reverse.lookup (some name) with _ | value
      · rw [looked] at found
        cases found
      · rw [looked] at found
        cases value with
        | string held =>
          cases found
          obtain ⟨front, rear, rfl, others⟩ := lookup_reverse_eq_some_iff.mp looked
          exact ⟨front, rear, rfl, others⟩
        | _ => cases found
    | _ => cases found
  · rintro ⟨front, rear, rfl, others⟩
    rw [textMember?, lookup_reverse_eq_some_iff.mpr ⟨front, rear, rfl, others⟩]

theorem requireMember_ok_iff (index : Nat) (record : Json.Source) (name text : String) :
    requireMember index record name = .ok text ↔ TextField record name text := by
  rw [← textMember_eq_some_iff, requireMember]
  cases textMember? record name <;> simp

/-- A record is read exactly if it describes an export, which is then the one that is read. -/
theorem ofRecord_ok_iff (index : Nat) (record : Json.Source) (e : Export) :
    Export.ofRecord index record = .ok e ↔ Describes record e := by
  rw [Export.ofRecord]
  simp only [Success.bind_ok_iff, requireMember_ok_iff]
  constructor
  · rintro ⟨name, named, signature, signed, read⟩
    split at read
    next once =>
      cases read
      exact ⟨named, signed, (placeholders_eq_one_iff _).mp once⟩
    next => cases read
  · rintro ⟨named, signed, once⟩
    refine ⟨e.name, named, e.signature, signed, ?_⟩
    rw [if_pos ((placeholders_eq_one_iff _).mpr once)]
    rfl

/-- Records are read in order, each as one export. -/
theorem exportsFrom_ok_iff (index : Nat) (records : List Json.Source) (exports : List Export) :
    exportsFrom index records = .ok exports ↔ List.Forall₂ Describes records exports := by
  induction records generalizing index exports with
  | nil => cases exports <;> simp [exportsFrom]
  | cons record records ih =>
    simp only [exportsFrom, Success.bind_ok_iff, Success.pure_ok_iff, ofRecord_ok_iff, ih,
      List.forall₂_cons_left_iff]
    constructor
    · rintro ⟨e, described, others, rest, rfl⟩
      exact ⟨e, others, described, rest, rfl⟩
    · rintro ⟨e, others, described, rest, rfl⟩
      exact ⟨e, described, others, rest, rfl⟩

theorem parseExports_ok_iff {document : Json.Document} {records : List Json.Source}
    (isValue : document.isValue = true) (isArray : document.root = .array records)
    (exports : List Export) :
    parseExports document = .ok exports ↔ List.Forall₂ Describes records exports := by
  rw [parseExports, if_pos isValue, isArray]
  exact exportsFrom_ok_iff 0 records exports

theorem exists_forall₂_iff {α β : Type} {R : α → β → Prop} (xs : List α) :
    (∃ ys, List.Forall₂ R xs ys) ↔ ∀ x ∈ xs, ∃ y, R x y := by
  induction xs with
  | nil => exact ⟨fun _ => List.forall_mem_nil _, fun _ => ⟨[], .nil⟩⟩
  | cons x xs ih =>
    rw [List.forall_mem_cons, ← ih]
    constructor
    · rintro ⟨_, related⟩
      cases related with
      | cons first others => exact ⟨⟨_, first⟩, _, others⟩
    · rintro ⟨⟨y, first⟩, ys, others⟩
      exact ⟨y :: ys, .cons first others⟩

end records

section accessor

/-- What the function from handles to pointers returns. -/
inductive Pointer where
  | null
  | address (symbol : String)
deriving DecidableEq, Repr

/-- A table of pointers as C declares it: its size, and the symbols whose addresses are listed. -/
structure Table where
  size : Nat
  symbols : List String
deriving DecidableEq, Repr

/-- The entry at an index. A table may list fewer entries than its size, and the others are null. It
may not list more, and it has no entry outside of its size. -/
def Table.pointer? (table : Table) (index : Int) : Option Pointer :=
  if table.symbols.length ≤ table.size ∧ 0 ≤ index ∧ index < table.size then
    some ((table.symbols[index.toNat]?).elim .null .address)
  else none

/-- What a line of the function says. -/
inductive Statement where
  | unused
  | table (size : Nat)
  | entry (symbol : String)
  | endTable
  /-- A block that is entered if the handle is below a number, or not below another one. -/
  | unless (low high : Nat)
  | endBlock
  | returnNull
  | returnEntry
deriving DecidableEq, Repr

/-- What stands between two texts that make up a line with it. -/
def enclosed? (front rear line : String) : Option (List Char) :=
  (front.toList.isPrefixOf? line.toList).bind (rear.toList.isSuffixOf? ·)

/-- The size in the first line of a table. -/
def readTable (line : String) : Option Statement := do
  let digits ← enclosed? "    static void* const table[" "] = \x7b" line
  let size ← Text.numberIn? 10 digits
  some (.table size)

/-- The symbol in an entry of a table. -/
def readEntry (line : String) : Option Statement := do
  let symbol ← enclosed? "        (void*)&" "," line
  some (.entry (String.ofList symbol))

/-- The two bounds of a check. -/
def readCheck (line : String) : Option Statement := do
  let condition ← enclosed? "    if (handle < " ") \x7b" line
  let low ← Text.numberIn? 10 (condition.takeWhile Char.isDigit)
  let digits ← " || handle >= ".toList.isPrefixOf? (condition.dropWhile Char.isDigit)
  let high ← Text.numberIn? 10 digits
  some (.unless low high)

/-- The lines that are the same in every unit. -/
def fixedLines : List (String × Statement) :=
  [("    (void)handle;", .unused), ("    \x7d;", .endTable), ("    \x7d", .endBlock),
    ("    return NULL;", .returnNull), ("        return NULL;", .returnNull),
    ("    return table[handle];", .returnEntry)]

/-- What a line says. -/
def Statement.read (line : String) : Option Statement :=
  readTable line <|> readEntry line <|> readCheck line <|> fixedLines.lookup line

/-- Where the function is: at a statement, in the list of its table, or in a block that it passes
over. -/
inductive Phase where
  | running (table : Option Table)
  | listing (table : Table)
  | passing (table : Option Table)

/-- Runs statements for a handle up to the first one that returns. There is no result where C gives
none. -/
def execute (handle : Int) : Phase → List Statement → Option Pointer
  | _, [] => none
  | .running table, statement :: rest =>
    match statement with
    | .unused => execute handle (.running table) rest
    | .table size => execute handle (.listing ⟨size, []⟩) rest
    | .unless low high =>
      if handle < low ∨ high ≤ handle then execute handle (.running table) rest
      else execute handle (.passing table) rest
    | .endBlock => execute handle (.running table) rest
    | .returnNull => some .null
    | .returnEntry => table.bind (·.pointer? handle)
    | .entry _ => none
    | .endTable => none
  | .listing table, statement :: rest =>
    match statement with
    | .entry symbol => execute handle (.listing ⟨table.size, table.symbols ++ [symbol]⟩) rest
    | .endTable => execute handle (.running (some table)) rest
    | _ => none
  | .passing table, statement :: rest =>
    if statement = .endBlock then execute handle (.running table) rest
    else execute handle (.passing table) rest

/-- What a function with a body returns for a handle. -/
def callWith (body : List String) (handle : Int) : Option Pointer := do
  let statements ← body.mapM Statement.read
  execute handle (.running none) statements

theorem enclosed_eq_some_iff {front rear line : String} {inner : List Char} :
    enclosed? front rear line = some inner ↔
      line.toList = front.toList ++ (inner ++ rear.toList) := by
  rw [enclosed?, Option.bind_eq_some_iff]
  simp only [List.isPrefixOf?_eq_some_iff_append_eq, List.isSuffixOf?_eq_some_iff_append_eq]
  constructor
  · rintro ⟨behind, whole, rfl⟩
    exact whole.symm
  · intro whole
    exact ⟨inner ++ rear.toList, whole.symm, rfl⟩

theorem enclosed_append (front inner rear : String) :
    enclosed? front rear (front ++ inner ++ rear) = some inner.toList := by
  rw [enclosed_eq_some_iff, String.toList_append, String.toList_append, List.append_assoc]

/-- A line that begins otherwise has nothing between the two. -/
theorem enclosed_eq_none {front : String} (rear : String) {other line : String}
    (apart : ¬ front.toList <+: other.toList ∧ ¬ other.toList <+: front.toList) :
    enclosed? front rear (other ++ line) = none := by
  rw [Option.eq_none_iff_forall_ne_some]
  intro inner found
  have whole := enclosed_eq_some_iff.mp found
  rw [String.toList_append] at whole
  rcases List.prefix_or_prefix_of_prefix ⟨_, whole.symm⟩ (List.prefix_append _ _) with early | late
  · exact apart.1 early
  · exact apart.2 late

theorem read_table (n : Nat) :
    Statement.read ("    static void* const table[" ++ toString n ++ "] = \x7b") =
      some (.table n) := by
  rw [Statement.read, readTable, enclosed_append, Text.toList_toString_nat]
  simp only [Option.bind_eq_bind, Option.bind_some, Text.numberIn_toDigits]
  rfl

theorem read_entry (symbol : String) :
    Statement.read ("        (void*)&" ++ symbol ++ ",") = some (.entry symbol) := by
  have other : readTable ("        (void*)&" ++ symbol ++ ",") = none := by
    rw [readTable, String.append_assoc, enclosed_eq_none _ (by decide +kernel)]
    rfl
  rw [Statement.read, other, readEntry, enclosed_append]
  simp only [Option.bind_eq_bind, Option.bind_some, String.ofList_toList]
  rfl

theorem readCheck_line (n : Nat) :
    readCheck ("    if (handle < 0 || handle >= " ++ toString n ++ ") \x7b") =
      some (.unless 0 n) := by
  have line : "    if (handle < 0 || handle >= " ++ toString n ++ ") \x7b" =
      "    if (handle < " ++ ("0 || handle >= " ++ toString n) ++ ") \x7b" := by
    rw [← String.append_assoc]
    rfl
  have condition : ("0 || handle >= " ++ toString n).toList =
      '0' :: (" || handle >= ".toList ++ Nat.toDigits 10 n) := by
    rw [String.toList_append, Text.toList_toString_nat]
    rfl
  have low : ('0' :: (" || handle >= ".toList ++ Nat.toDigits 10 n)).takeWhile Char.isDigit =
      ['0'] := rfl
  have behind : ('0' :: (" || handle >= ".toList ++ Nat.toDigits 10 n)).dropWhile Char.isDigit =
      " || handle >= ".toList ++ Nat.toDigits 10 n := rfl
  have high : " || handle >= ".toList.isPrefixOf? (" || handle >= ".toList ++ Nat.toDigits 10 n) =
      some (Nat.toDigits 10 n) := List.isPrefixOf?_eq_some_iff_append_eq.mpr rfl
  have zero : Text.numberIn? 10 ['0'] = some 0 := rfl
  rw [readCheck, line, enclosed_append, condition]
  simp only [Option.bind_eq_bind, Option.bind_some, low, behind, high, zero, Text.numberIn_toDigits]

theorem read_check (n : Nat) :
    Statement.read ("    if (handle < 0 || handle >= " ++ toString n ++ ") \x7b") =
      some (.unless 0 n) := by
  have table : readTable ("    if (handle < 0 || handle >= " ++ toString n ++ ") \x7b") = none := by
    rw [readTable, String.append_assoc, enclosed_eq_none _ (by decide +kernel)]
    rfl
  have entry : readEntry ("    if (handle < 0 || handle >= " ++ toString n ++ ") \x7b") = none := by
    rw [readEntry, String.append_assoc, enclosed_eq_none _ (by decide +kernel)]
    rfl
  rw [Statement.read, table, entry, readCheck_line]
  rfl

theorem read_entries (symbols : List String) :
    (symbols.map fun symbol => "        (void*)&" ++ symbol ++ ",").mapM Statement.read =
      some (symbols.map .entry) := by
  induction symbols with
  | nil => rfl
  | cons symbol symbols ih =>
    rw [List.map_cons, List.mapM_cons, read_entry, ih]
    rfl

/-- A list of entries is gathered into the table. -/
theorem execute_listing (handle : Int) (symbols : List String) (table : Table)
    (rest : List Statement) :
    execute handle (.listing table) (symbols.map .entry ++ rest) =
      execute handle (.listing ⟨table.size, table.symbols ++ symbols⟩) rest := by
  induction symbols generalizing table with
  | nil => simp
  | cons symbol symbols ih =>
    rw [List.map_cons, List.cons_append, execute, ih]
    simp

/-- The check lets those handles through for which the table has an entry. -/
theorem execute_guarded (handle : Int) (symbols : List String) :
    execute handle (.running none) (.table symbols.length :: (symbols.map .entry ++
        [.endTable, .unless 0 symbols.length, .returnNull, .endBlock, .returnEntry])) =
      if handle < 0 ∨ symbols.length ≤ handle then some .null
      else some ((symbols[handle.toNat]?).elim .null .address) := by
  rw [execute, execute_listing]
  by_cases outside : handle < 0 ∨ symbols.length ≤ handle
  · simp [execute, outside]
  · have inside : 0 ≤ handle ∧ handle < symbols.length := by omega
    simp [execute, outside, Table.pointer?, inside]

/-- The body of an accessor with a table, for the symbols in it. -/
def tableBody (symbols : List String) : List String :=
  ["    static void* const table[" ++ toString symbols.length ++ "] = \x7b"] ++
    symbols.map (fun symbol => "        (void*)&" ++ symbol ++ ",") ++
    ["    \x7d;", "    if (handle < 0 || handle >= " ++ toString symbols.length ++ ") \x7b",
      "        return NULL;", "    \x7d", "    return table[handle];"]

theorem read_tableBody (symbols : List String) :
    (tableBody symbols).mapM Statement.read =
      some (.table symbols.length :: (symbols.map .entry ++
        [.endTable, .unless 0 symbols.length, .returnNull, .endBlock, .returnEntry])) := by
  have endTable : Statement.read "    \x7d;" = some .endTable := by decide +kernel
  have returnNull : Statement.read "        return NULL;" = some .returnNull := by decide +kernel
  have endBlock : Statement.read "    \x7d" = some .endBlock := by decide +kernel
  have returnEntry : Statement.read "    return table[handle];" = some .returnEntry := by
    decide +kernel
  rw [tableBody, List.mapM_append, List.mapM_append, read_entries]
  simp only [List.mapM_cons, List.mapM_nil, read_table, read_check, endTable, returnNull, endBlock,
    returnEntry, Option.bind_eq_bind, Option.bind_some, Option.pure_def, List.nil_append,
    List.cons_append]

/-- A handle leads to the entry with its number, and what is no handle to a null pointer. -/
theorem callWith_tableBody (symbols : List String) (handle : Int) :
    callWith (tableBody symbols) handle =
      if handle < 0 ∨ symbols.length ≤ handle then some .null
      else some ((symbols[handle.toNat]?).elim .null .address) := by
  rw [callWith, read_tableBody]
  exact execute_guarded handle symbols

theorem callWith_null (handle : Int) :
    callWith ["    (void)handle;", "    return NULL;"] handle = some .null := by
  have read : ["    (void)handle;", "    return NULL;"].mapM Statement.read =
      some [.unused, .returnNull] := by decide +kernel
  rw [callWith, read]
  rfl

end accessor

section emission

open Text (linesWithin Unbroken)

/-- A line declares an export by its signature with the symbol in the place of the mark. -/
def Declares (e : Export) (line : String) : Prop :=
  ∃ front rear : String, e.signature = front ++ "\x7b0\x7d" ++ rear ∧
    line = "extern " ++ front ++ e.name ++ rear ++ ";"

theorem toList_declaration {e : Export} {front rear : List Char}
    (divided : e.signature.toList = front ++ mark ++ rear) (once : placeholders front = 0) :
    e.declaration.toList = front ++ (e.name.toList ++ rear) := by
  rw [Export.declaration, divided, List.append_assoc, fillPlaceholder_divided _ _ once,
    String.toList_ofList]

theorem declares_of_markedOnce {e : Export} (once : MarkedOnce e.signature.toList) :
    Declares e ("extern " ++ e.declaration ++ ";") := by
  have count := (placeholders_eq_one_iff _).mpr once
  obtain ⟨front, rear, divided, -⟩ := once
  rw [divided, List.append_assoc, placeholders_divided] at count
  refine ⟨String.ofList front, String.ofList rear, ?_, ?_⟩
  · rw [← String.toList_inj, divided]
    simp [mark]
  · rw [← String.toList_inj]
    simp [toList_declaration divided (by omega)]

theorem unbroken_declaration {e : Export} (name : Unbroken e.name)
    (signature : Unbroken e.signature) : Unbroken e.declaration := by
  rw [Unbroken, Text.Lacks, Export.declaration, String.toList_ofList]
  exact fun member => (mem_fillPlaceholder member).elim name signature

theorem accessorBody_of_ne_nil {exports : List Export} (nonempty : exports ≠ []) :
    accessorBody exports = tableBody (exports.map (·.name)) := by
  rw [accessorBody, if_neg (by simpa using nonempty), tableBody, List.length_map, List.map_map]
  rfl

/-- The handle of an export leads to it. -/
theorem callWith_accessorBody {exports : List Export} {i : Nat} {e : Export}
    (held : exports[i]? = some e) : callWith (accessorBody exports) i = some (.address e.name) := by
  obtain ⟨below, rfl⟩ := List.getElem?_eq_some_iff.mp held
  have nonempty : exports ≠ [] := List.ne_nil_of_length_pos (by omega)
  rw [accessorBody_of_ne_nil nonempty, callWith_tableBody, List.length_map, if_neg (by omega)]
  simp [below]

/-- What is no handle leads nowhere. -/
theorem callWith_accessorBody_outside {exports : List Export} {handle : Int}
    (outside : handle < 0 ∨ exports.length ≤ handle) :
    callWith (accessorBody exports) handle = some .null := by
  by_cases empty : exports = []
  · rw [empty]
    exact callWith_null handle
  · rw [accessorBody_of_ne_nil empty, callWith_tableBody, List.length_map, if_pos outside]

theorem unbroken_tableBody {symbols : List String}
    (unbroken : ∀ symbol ∈ symbols, Unbroken symbol) :
    ∀ line ∈ tableBody symbols, Unbroken line := by
  have count := Text.unbroken_toString_nat symbols.length
  simp only [tableBody, List.forall_mem_append, List.forall_mem_cons, List.forall_mem_map]
  refine ⟨⟨⟨?_, by simp⟩, ?_⟩, ?_, ?_, ?_, ?_, ?_, by simp⟩
  · exact Text.Lacks.enclosed (by decide +kernel) count (by decide +kernel)
  · intro symbol member
    exact Text.Lacks.enclosed (by decide +kernel) (unbroken symbol member) (by decide +kernel)
  · decide +kernel
  · exact Text.Lacks.enclosed (by decide +kernel) count (by decide +kernel)
  · decide +kernel
  · decide +kernel
  · decide +kernel

theorem unbroken_accessorBody {exports : List Export} (names : ∀ e ∈ exports, Unbroken e.name) :
    ∀ line ∈ accessorBody exports, Unbroken line := by
  by_cases empty : exports = []
  · rw [empty]
    decide +kernel
  · rw [accessorBody_of_ne_nil empty]
    exact unbroken_tableBody (List.forall_mem_map.mpr names)

theorem unbroken_paragraph {lines : List String} (unbroken : ∀ line ∈ lines, Unbroken line) :
    ∀ line ∈ paragraph lines, Unbroken line := by
  rw [paragraph]
  split
  · exact List.forall_mem_nil _
  · exact List.forall_mem_append.mpr ⟨unbroken, by decide⟩

/-- The section of the exports, line by line. Only the name of the accessor may hold line breaks. -/
theorem linesWithin_importLines {exports : List Export} (settings : Settings)
    (unbroken : ∀ e ∈ exports, Unbroken e.name ∧ Unbroken e.signature) :
    linesWithin (textOf (importLines exports settings)) =
      ["/* ilbridge: callback imports */", "", "#include <stddef.h>", "#include <stdint.h>", ""] ++
        paragraph (exports.map fun e => "extern " ++ e.declaration ++ ";") ++
        (linesWithin ("void* " ++ settings.accessor ++ "(int32_t handle)") ++ ["\x7b"]) ++
        accessorBody exports ++ ["\x7d", ""] ++ [""] := by
  have declarations : ∀ line ∈ paragraph (exports.map fun e => "extern " ++ e.declaration ++ ";"),
      Unbroken line := by
    refine unbroken_paragraph (List.forall_mem_map.mpr fun e member => ?_)
    have declared := unbroken_declaration (unbroken e member).1 (unbroken e member).2
    exact Text.Lacks.enclosed (by decide +kernel) declared (by decide +kernel)
  have body := unbroken_accessorBody fun e member => (unbroken e member).1
  have heading : ["void* " ++ settings.accessor ++ "(int32_t handle)", "\x7b"].flatMap linesWithin =
      linesWithin ("void* " ++ settings.accessor ++ "(int32_t handle)") ++ ["\x7b"] := by
    rw [List.flatMap_cons, flatMap_linesWithin (by decide +kernel)]
  have first : ∀ line ∈ ["/* ilbridge: callback imports */", "", "#include <stddef.h>",
      "#include <stdint.h>", ""], Unbroken line := by decide +kernel
  have last : ∀ line ∈ ["\x7d", ""], Unbroken line := by decide +kernel
  rw [linesWithin_textOf, importLines]
  simp only [List.flatMap_append]
  rw [flatMap_linesWithin first, flatMap_linesWithin declarations, heading,
    flatMap_linesWithin body, flatMap_linesWithin last]

/-- Records are read exactly if each of them describes an export, in order. Of such exports, all in
single lines, the unit has a declaration each, in which the symbol stands in the place of the mark
and is left as it is. Its accessor leads from the handle `i` to the export at position `i`, and from
every number that is not the position of an export to a null pointer. -/
theorem handles_lead_to_exports (document : Json.Document) (records : List Json.Source)
    (isValue : document.isValue = true) (isArray : document.root = .array records) :
    ((∃ exports, parseExports document = .ok exports) ↔
      ∀ record ∈ records, ∃ e, Describes record e) ∧
    (∀ exports, parseExports document = .ok exports → List.Forall₂ Describes records exports) ∧
    ∀ (exports : List Export) (settings : Settings),
      (∀ e ∈ exports, MarkedOnce e.signature.toList) →
      (∀ e ∈ exports, Unbroken e.name ∧ Unbroken e.signature) →
      ∃ declarations body, List.Forall₂ Declares exports declarations ∧
        linesWithin (textOf (importLines exports settings)) =
          ["/* ilbridge: callback imports */", "", "#include <stddef.h>", "#include <stdint.h>",
              ""] ++ declarations ++ (if exports = [] then [] else [""]) ++
            linesWithin ("void* " ++ settings.accessor ++ "(int32_t handle)") ++ ["\x7b"] ++
            body ++ ["\x7d", "", ""] ∧
        (exports = [] → body = ["    (void)handle;", "    return NULL;"]) ∧
        (exports ≠ [] → body =
          ["    static void* const table[" ++ toString exports.length ++ "] = \x7b"] ++
            exports.map (fun e => "        (void*)&" ++ e.name ++ ",") ++
            ["    \x7d;", "    if (handle < 0 || handle >= " ++ toString exports.length ++ ") \x7b",
              "        return NULL;", "    \x7d", "    return table[handle];"]) ∧
        (∀ (i : Nat) e, exports[i]? = some e → callWith body i = some (.address e.name)) ∧
        ∀ handle : Int, handle < 0 ∨ exports.length ≤ handle →
          callWith body handle = some .null := by
  have read := parseExports_ok_iff isValue isArray
  refine ⟨?_, fun exports => (read exports).mp, fun exports settings once unbroken => ?_⟩
  · rw [← exists_forall₂_iff]
    exact exists_congr read
  refine ⟨exports.map fun e => "extern " ++ e.declaration ++ ";", accessorBody exports, ?_, ?_, ?_,
    ?_, fun i e => callWith_accessorBody, fun handle => callWith_accessorBody_outside⟩
  · rw [List.forall₂_map_right_iff, List.forall₂_same]
    exact fun e member => declares_of_markedOnce (once e member)
  · rw [linesWithin_importLines settings unbroken, paragraph]
    by_cases empty : exports = [] <;> simp [empty]
  · rintro rfl
    rfl
  · intro nonempty
    rw [accessorBody, if_neg (by simpa using nonempty)]

/-- A name that is exported twice is found under both handles, and a mark in it is left as it is. -/
theorem handles_lead_to_exports_sample :
    let record (name signature : String) : Json.Source := .object
      [(some "name", .string (some name)), (some "signature", .string (some signature))]
    let records := [record "f\x7b0\x7d" "int \x7b0\x7d(int)", record "g" "void \x7b0\x7d(void)",
      record "f\x7b0\x7d" "int \x7b0\x7d(int)"]
    let exports : List Export := [⟨"f\x7b0\x7d", "int \x7b0\x7d(int)"⟩,
      ⟨"g", "void \x7b0\x7d(void)"⟩, ⟨"f\x7b0\x7d", "int \x7b0\x7d(int)"⟩]
    parseExports ⟨.array records, true⟩ = .ok exports ∧ List.Forall₂ Describes records exports ∧
      ∃ declarations body, List.Forall₂ Declares exports declarations ∧
        (List.range 3).map (callWith body ·) =
          [some (.address "f\x7b0\x7d"), some (.address "g"), some (.address "f\x7b0\x7d")] ∧
        callWith body (-1) = some .null ∧ callWith body 3 = some .null := by
  intro record records exports
  have parsed : parseExports ⟨.array records, true⟩ = .ok exports := by rfl
  obtain ⟨-, read, emitted⟩ := handles_lead_to_exports ⟨.array records, true⟩ records (by rfl) rfl
  have once : ∀ e ∈ exports, MarkedOnce e.signature.toList := by
    simp only [← placeholders_eq_one_iff]
    decide +kernel
  obtain ⟨declarations, body, declared, -, -, -, inside, outside⟩ :=
    emitted exports default once (by decide +kernel)
  refine ⟨parsed, read exports parsed, declarations, body, declared, ?_,
    outside _ (Or.inl (by decide)), outside _ (Or.inr (by decide))⟩
  change [callWith body (0 : Nat), callWith body (1 : Nat), callWith body (2 : Nat)] = _
  rw [inside 0 _ rfl, inside 1 _ rfl, inside 2 _ rfl]

end emission

end NativeBridge.Glue
