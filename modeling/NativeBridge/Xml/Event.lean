/-!
Lenient reading of XML as a list of events: tags that open and close elements. Text, comments,
character data, instructions and document type declarations are passed over. End tags must match;
nothing else about the nesting is checked, and elements may stay open at the end. Where the text
cannot be read on, the last event says so.
-/

namespace NativeBridge.Xml

def isSpace (c : Char) : Bool := c = ' ' || c = '\r' || c = '\n' || c = '\t'

/-- A start tag: its name, and what stands between the name and the end of the tag. -/
structure Tag where
  name : List Char
  attributes : List Char
deriving DecidableEq, Repr

/-- What a document consists of. -/
inductive Event where
  /-- A start tag. -/
  | opening (tag : Tag)
  /-- A tag of an element without content. -/
  | single (tag : Tag)
  /-- An end tag. -/
  | closing (name : List Char)
  /-- The document cannot be read from here on. -/
  | broken
deriving DecidableEq, Repr

/-- The state of looking for the end of a tag: outside of quotes, or inside of a kind of them. -/
abbrev Quote := Option Char

/-- The content of a tag up to the first `>` outside of quotes, and what follows it. -/
def splitTag (quote : Quote) : List Char → Option (List Char × List Char)
  | [] => none
  | c :: rest =>
    let onward (quote : Quote) : Option (List Char × List Char) :=
      (splitTag quote rest).map fun (content, rest) => (c :: content, rest)
    match quote with
    | none =>
      if c = '>' then some ([], rest)
      else if c = '\'' ∨ c = '"' then onward (some c)
      else onward none
    | some q => if c = q then onward none else onward (some q)

/-- What stands before the first `>` that ends a piece of markup, and what follows it. `ends` looks
at the characters before the `>`, the last one first. -/
def splitAt (ends : List Char → Bool) (before : List Char) :
    List Char → Option (List Char × List Char)
  | [] => none
  | c :: rest =>
    if c = '>' && ends before then some (before.reverse, rest)
    else splitAt ends (c :: before) rest

/-- Whether a comment that has been read up to a `>` ends there. -/
def endsComment (before : List Char) : Bool :=
  4 < before.length && before.take 2 == ['-', '-']

def endsData (before : List Char) : Bool := before.take 2 == [']', ']']

def endsInstruction (before : List Char) : Bool := before.head? == some '?'

/-- A document type declaration up to the `>` that balances its brackets, and what follows it. -/
def splitDeclaration (depth : Nat) : List Char → Option (List Char × List Char)
  | [] => none
  | c :: rest =>
    let onward (depth : Nat) : Option (List Char × List Char) :=
      (splitDeclaration depth rest).map fun (content, rest) => (c :: content, rest)
    if c = '<' then onward (depth + 1)
    else if c = '>' then
      match depth with
      | 0 => some ([], rest)
      | outer + 1 => onward outer
    else onward depth

def startsWith (word : String) (text : List Char) : Bool := word.toList.isPrefixOf text

/-- What follows markup that starts with `<!`: a comment, character data or a document type
declaration with a name. The text starts with the `!`. -/
def afterBang (text : List Char) : Option (List Char) :=
  match text with
  | _ :: '-' :: _ => do
    let (content, rest) ← splitAt endsComment [] text
    if startsWith "!--" content then some rest else none
  | _ :: '[' :: _ => do
    let (content, rest) ← splitAt endsData [] text
    if startsWith "![CDATA[" content then some rest else none
  | _ :: c :: _ =>
    if c = 'D' ∨ c = 'd' then do
      let (content, rest) ← splitDeclaration 0 text
      let keyword := (content.take 8).map Char.toUpper
      if keyword = "!DOCTYPE".toList && (content.drop 8).any (!isSpace ·) then some rest else none
    else none
  | _ => none

/-- What follows an instruction. The text starts with the `?`, and another one ends it. -/
def afterInstruction (text : List Char) : Option (List Char) := do
  let (content, rest) ← splitAt endsInstruction [] text
  if 1 < content.length then some rest else none

/-- A tag from its content: the name runs up to the first blank. -/
def Tag.ofContent (content : List Char) : Tag :=
  ⟨content.takeWhile (!isSpace ·), content.dropWhile (!isSpace ·)⟩

/-- The name in an end tag: blanks behind it do not count, unless there is nothing else. -/
def closingName (content : List Char) : List Char :=
  let trimmed := (content.reverse.dropWhile isSpace).reverse
  if trimmed.isEmpty then content else trimmed

/-- The events of a text, when the elements with the names `opened` are open, the innermost first.
Every event takes at least one character, which bounds the fuel. -/
def eventsWithin : (fuel : Nat) → (opened : List (List Char)) → List Char → List Event
  | 0, _, _ => []
  | fuel + 1, opened, text =>
    match text.dropWhile (· != '<') with
    | [] => []
    | _ :: '!' :: rest =>
      match afterBang ('!' :: rest) with
      | none => [.broken]
      | some rest => eventsWithin fuel opened rest
    | _ :: '?' :: rest =>
      match afterInstruction ('?' :: rest) with
      | none => [.broken]
      | some rest => eventsWithin fuel opened rest
    | _ :: '/' :: rest =>
      match splitTag none rest, opened with
      | some (content, rest), name :: opened =>
        if closingName content = name then .closing name :: eventsWithin fuel opened rest
        else [.broken]
      | _, _ => [.broken]
    | _ :: markup =>
      match splitTag none markup with
      | none => [.broken]
      | some (content, rest) =>
        if content.getLast? = some '/' then
          .single (Tag.ofContent content.dropLast) :: eventsWithin fuel opened rest
        else
          let tag := Tag.ofContent content
          .opening tag :: eventsWithin fuel (tag.name :: opened) rest

/-- The events of a text. A byte-order mark in front is passed over. -/
def events (text : String) : List Event :=
  let chars := text.toList
  let chars := if chars.head? = some '\uFEFF' then chars.drop 1 else chars
  eventsWithin (chars.length + 1) [] chars

end NativeBridge.Xml
