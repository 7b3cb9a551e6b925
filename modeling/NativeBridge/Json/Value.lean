/-!
JSON values for output and their two written forms. The compact form has no blanks. The pretty form
puts each element and each member on a line of its own, two spaces deeper than what holds it.
-/

namespace NativeBridge

/-- A JSON value. Members keep their order. -/
inductive Json where
  | null
  | bool (value : Bool)
  | int (value : Int)
  | string (text : String)
  | array (items : List Json)
  | object (members : List (String × Json))
deriving Inhabited, Repr

namespace Json

/-- The two lower-case hexadecimal digits of a number below 256. -/
def hexPair (n : Nat) : List Char :=
  [Nat.digitChar (n / 16), Nat.digitChar (n % 16)]

/-- One character as it stands inside a JSON string. -/
def escapeChar (c : Char) : List Char :=
  if c = '"' then ['\\', '"']
  else if c = '\\' then ['\\', '\\']
  else if c = '\x08' then ['\\', 'b']
  else if c = '\x0c' then ['\\', 'f']
  else if c = '\n' then ['\\', 'n']
  else if c = '\r' then ['\\', 'r']
  else if c = '\t' then ['\\', 't']
  else if c.toNat < 0x20 then ['\\', 'u', '0', '0'] ++ hexPair c.toNat
  else [c]

def stringToken (text : String) : List Char :=
  '"' :: text.toList.flatMap escapeChar ++ ['"']

mutual

def compactChars : Json → List Char
  | .null => "null".toList
  | .bool true => "true".toList
  | .bool false => "false".toList
  | .int n => (toString n).toList
  | .string text => stringToken text
  | .array [] => ['[', ']']
  | .array (item :: items) => '[' :: compactChars item ++ compactItems items ++ [']']
  | .object [] => ['\x7b', '\x7d']
  | .object ((name, value) :: members) =>
    '\x7b' :: stringToken name ++ ':' :: compactChars value ++ compactMembers members ++ ['\x7d']

/-- The items after the first, each behind a comma. -/
def compactItems : List Json → List Char
  | [] => []
  | item :: items => ',' :: compactChars item ++ compactItems items

/-- The members after the first, each behind a comma. -/
def compactMembers : List (String × Json) → List Char
  | [] => []
  | (name, value) :: members =>
    ',' :: stringToken name ++ ':' :: compactChars value ++ compactMembers members

end

/-- A line break and the indentation of a nesting level. -/
def newline (level : Nat) : List Char := '\n' :: List.replicate (2 * level) ' '

mutual

/-- The pretty form of a value that starts at a nesting level. -/
def prettyChars (level : Nat) : Json → List Char
  | .array [] => ['[', ']']
  | .array (item :: items) =>
    '[' :: newline (level + 1) ++ prettyChars (level + 1) item ++
      prettyItems (level + 1) items ++ newline level ++ [']']
  | .object [] => ['\x7b', '\x7d']
  | .object ((name, value) :: members) =>
    '\x7b' :: newline (level + 1) ++ stringToken name ++ ':' :: ' ' ::
      prettyChars (level + 1) value ++
      prettyMembers (level + 1) members ++ newline level ++ ['\x7d']
  | .null => "null".toList
  | .bool true => "true".toList
  | .bool false => "false".toList
  | .int n => (toString n).toList
  | .string text => stringToken text

/-- The items after the first. -/
def prettyItems (level : Nat) : List Json → List Char
  | [] => []
  | item :: items =>
    ',' :: newline level ++ prettyChars level item ++ prettyItems level items

/-- The members after the first. -/
def prettyMembers (level : Nat) : List (String × Json) → List Char
  | [] => []
  | (name, value) :: members =>
    ',' :: newline level ++ stringToken name ++ ':' :: ' ' :: prettyChars level value ++
      prettyMembers level members

end

def compact (value : Json) : String := String.ofList (compactChars value)

def pretty (value : Json) : String := String.ofList (prettyChars 0 value)

end Json

end NativeBridge
