import NativeBridge.Json.Source

/-!
Reading text as JSON. Reading never fails: where the text stops being JSON, the source says so and
nothing behind that place is read.
-/

namespace NativeBridge.Json

def isSpace (c : Char) : Bool := c = ' ' || c = '\n' || c = '\t' || c = '\r'

/-- The text behind leading blanks. -/
def skipSpace (text : List Char) : List Char := text.dropWhile isSpace

def digitValue (c : Char) : Nat := c.toNat - '0'.toNat

/-- The digits at the start of a text, and what follows them. -/
def readDigits (text : List Char) : List Nat × List Char :=
  ((text.takeWhile Char.isDigit).map digitValue, text.dropWhile Char.isDigit)

/-- The exponent at the start of a text, if one stands there. The outer `none` is an exponent
without digits. -/
def readExponent : List Char → Option (Option (Bool × List Nat) × List Char)
  | c :: rest =>
    if c = 'e' ∨ c = 'E' then
      let (below, rest) :=
        match rest with
        | '-' :: rest => (true, rest)
        | '+' :: rest => (false, rest)
        | rest => (false, rest)
      match readDigits rest with
      | ([], _) => none
      | (digits, rest) => some (some (below, digits), rest)
    else some (none, c :: rest)
  | [] => some (none, [])

/-- The digits behind a point at the start of a text, if one stands there. -/
def readFraction : List Char → Option (List Nat × List Char)
  | '.' :: rest =>
    match readDigits rest with
    | ([], _) => none
    | (digits, rest) => some (digits, rest)
  | rest => some ([], rest)

/-- A number without its sign. A zero in front of another digit is refused. -/
def readMagnitude (negative : Bool) (text : List Char) : Option (Numeral × List Char) :=
  match readDigits text with
  | ([], _) => none
  | (0 :: _ :: _, _) => none
  | (whole, rest) => do
    let (fraction, rest) ← readFraction rest
    let (exponent, rest) ← readExponent rest
    some (⟨negative, whole, fraction, exponent⟩, rest)

/-- A piece of a string: a character, or a 16-bit unit that an escape names. -/
inductive Piece where
  | char (c : Char)
  | unit (n : Nat)
deriving DecidableEq, Repr

def hexValue? (c : Char) : Option Nat :=
  if '0' ≤ c ∧ c ≤ '9' then some (c.toNat - '0'.toNat)
  else if 'a' ≤ c ∧ c ≤ 'f' then some (c.toNat - 'a'.toNat + 10)
  else if 'A' ≤ c ∧ c ≤ 'F' then some (c.toNat - 'A'.toNat + 10)
  else none

/-- The number that four hexadecimal digits spell. -/
def hexQuad? (a b c d : Char) : Option Nat := do
  let a ← hexValue? a
  let b ← hexValue? b
  let c ← hexValue? c
  let d ← hexValue? d
  some (a * 4096 + b * 256 + c * 16 + d)

/-- The character that a one-letter escape stands for. -/
def shortEscape? : Char → Option Char
  | '"' => some '"'
  | '\\' => some '\\'
  | '/' => some '/'
  | 'b' => some '\x08'
  | 'f' => some '\x0c'
  | 'n' => some '\n'
  | 'r' => some '\r'
  | 't' => some '\t'
  | _ => none

/-- The pieces of a string up to its closing quote, and what follows it. -/
def readPieces : List Char → Option (List Piece × List Char)
  | [] => none
  | '"' :: rest => some ([], rest)
  | '\\' :: 'u' :: a :: b :: c :: d :: rest => do
    let n ← hexQuad? a b c d
    let (pieces, rest) ← readPieces rest
    some (.unit n :: pieces, rest)
  | '\\' :: c :: rest => do
    let c ← shortEscape? c
    let (pieces, rest) ← readPieces rest
    some (.char c :: pieces, rest)
  | c :: rest =>
    if c = '\\' ∨ c.toNat < 0x20 then none
    else do
      let (pieces, rest) ← readPieces rest
      some (.char c :: pieces, rest)

/-- The characters of a string: a leading unit joins with the trailing unit behind it, and neither
may stand alone. -/
def joinPieces : List Piece → Option (List Char)
  | [] => some []
  | .char c :: rest => (joinPieces rest).map (c :: ·)
  | .unit n :: rest =>
    if 0xdc00 ≤ n ∧ n ≤ 0xdfff then none
    else if 0xd800 ≤ n ∧ n ≤ 0xdbff then
      match rest with
      | .unit m :: rest =>
        if 0xdc00 ≤ m ∧ m ≤ 0xdfff then
          (joinPieces rest).map
            (Char.ofNat ((n - 0xd800) * 0x400 + (m - 0xdc00) + 0x10000) :: ·)
        else none
      | _ => none
    else (joinPieces rest).map (Char.ofNat n :: ·)

/-- A string behind its opening quote. -/
def readString (text : List Char) : Option (Option String × List Char) := do
  let (pieces, rest) ← readPieces text
  some ((joinPieces pieces).map String.ofList, rest)

mutual

/-- One value and what follows it; nothing follows a broken one. `fuel` bounds the number of
values and separators read one inside or after the other. -/
def readValue : (fuel : Nat) → List Char → Source × List Char
  | 0, _ => (.broken, [])
  | fuel + 1, text =>
    match skipSpace text with
    | 'n' :: 'u' :: 'l' :: 'l' :: rest => (.null, rest)
    | 't' :: 'r' :: 'u' :: 'e' :: rest => (.bool true, rest)
    | 'f' :: 'a' :: 'l' :: 's' :: 'e' :: rest => (.bool false, rest)
    | '"' :: rest =>
      match readString rest with
      | some (text, rest) => (.string text, rest)
      | none => (.broken, [])
    | '[' :: rest =>
      match skipSpace rest with
      | ']' :: rest => (.array [], rest)
      | rest =>
        let (items, rest) := readItems fuel rest
        (.array items, rest)
    | '\x7b' :: rest =>
      match skipSpace rest with
      | '\x7d' :: rest => (.object [], rest)
      | rest =>
        let (members, rest) := readMembers fuel rest
        (.object members, rest)
    | '-' :: rest =>
      match readMagnitude true rest with
      | some (numeral, rest) => (.number numeral, rest)
      | none => (.broken, [])
    | rest =>
      match readMagnitude false rest with
      | some (numeral, rest) => (.number numeral, rest)
      | none => (.broken, [])

/-- The items of an array from the first one on. A text that breaks off adds a broken item. -/
def readItems : (fuel : Nat) → List Char → List Source × List Char
  | 0, _ => ([.broken], [])
  | fuel + 1, text =>
    let (item, rest) := readValue fuel text
    match skipSpace rest with
    | ']' :: rest => ([item], rest)
    | ',' :: rest =>
      let (items, rest) := readItems fuel rest
      (item :: items, rest)
    | _ => ([item, .broken], [])

/-- The members of an object from the first one on. A text that breaks off adds a nameless broken
member. -/
def readMembers : (fuel : Nat) → List Char → List (Option String × Source) × List Char
  | 0, _ => ([(none, .broken)], [])
  | fuel + 1, text =>
    match skipSpace text with
    | '"' :: rest =>
      match readString rest with
      | none => ([(none, .broken)], [])
      | some (name, rest) =>
        match skipSpace rest with
        | ':' :: rest =>
          let (value, rest) := readValue fuel rest
          match skipSpace rest with
          | '\x7d' :: rest => ([(name, value)], rest)
          | ',' :: rest =>
            let (members, rest) := readMembers fuel rest
            ((name, value) :: members, rest)
          | _ => ([(name, value), (none, .broken)], [])
        | _ => ([(name, .broken)], [])
    | _ => ([(none, .broken)], [])

end

def readOne (text : List Char) : Source × List Char := readValue (2 * text.length + 2) text

def read (text : String) : Document :=
  let (root, rest) := readOne text.toList
  ⟨root, (skipSpace rest).isEmpty⟩

end NativeBridge.Json
