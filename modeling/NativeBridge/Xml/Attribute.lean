import NativeBridge.Text.Digits
import NativeBridge.Xml.Event

/-!
Attributes of a tag and the references in their values. A tag is searched from left to right for an
attribute; what follows it is not looked at.
-/

namespace NativeBridge.Xml

/-- The character of a numeric reference, which must be a character other than NUL. -/
def charOf? (code : Nat) : Option Char :=
  if code ≠ 0 ∧ code.isValidChar then some (Char.ofNat code) else none

/-- The character that a reference stands for, given without its `&` and `;`. -/
def reference? (name : List Char) : Option Char :=
  match name with
  | '#' :: 'x' :: digits => (Text.numberIn? 16 digits).bind charOf?
  | '#' :: digits => (Text.numberIn? 10 digits).bind charOf?
  | _ =>
    if name = "lt".toList then some '<'
    else if name = "gt".toList then some '>'
    else if name = "amp".toList then some '&'
    else if name = "apos".toList then some '\''
    else if name = "quot".toList then some '"'
    else none

/-- The text that an attribute value spells. `name` collects a reference that has begun, the last
character first. -/
def unescapeFrom (name : Option (List Char)) : List Char → Option (List Char)
  | [] => if name.isNone then some [] else none
  | c :: rest =>
    match name with
    | none =>
      if c = '&' then unescapeFrom (some []) rest else (unescapeFrom none rest).map (c :: ·)
    | some name =>
      if c = '&' then none
      else if c = ';' then do
        let char ← reference? name.reverse
        let rest ← unescapeFrom none rest
        some (char :: rest)
      else unescapeFrom (some (c :: name)) rest

def unescape (value : List Char) : Option (List Char) := unescapeFrom none value

/-- An attribute at the start of a text, with its value as written and what follows it. -/
def readAttribute (text : List Char) : Option (List Char × List Char × List Char) :=
  match text with
  | [] => none
  | first :: rest =>
    let stops (c : Char) : Bool := c = '=' || isSpace c
    let key := first :: rest.takeWhile (!stops ·)
    match (rest.dropWhile (!stops ·)).dropWhile isSpace with
    | '=' :: rest =>
      match rest.dropWhile isSpace with
      | quote :: rest =>
        if quote = '"' ∨ quote = '\'' then
          match rest.dropWhile (· != quote) with
          | _ :: after => some (key, rest.takeWhile (· != quote), after)
          | [] => none
        else none
      | [] => none
    | _ => none

/-- What a search for an attribute comes to. -/
inductive Search where
  | found (value : List Char)
  | absent
  | malformed
deriving DecidableEq, Repr

/-- Searches for an attribute. Every attribute takes at least one character, which bounds the
fuel. -/
def searchWithin (name : List Char) : (fuel : Nat) → List Char → Search
  | 0, _ => .absent
  | fuel + 1, text =>
    match text.dropWhile isSpace with
    | [] => .absent
    | text =>
      match readAttribute text with
      | none => .malformed
      | some (key, value, rest) => if key = name then .found value else searchWithin name fuel rest

def Tag.search (tag : Tag) (name : String) : Search :=
  searchWithin name.toList (tag.attributes.length + 1) tag.attributes

end NativeBridge.Xml
