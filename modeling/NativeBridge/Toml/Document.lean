import NativeBridge.Toml.Lexical
import NativeBridge.Toml.Value

/-!
Reading TOML documents: values, and lines that add them to tables. A text that breaks a rule is
refused as a whole.
-/

namespace NativeBridge.Toml

def integer? (value : Int) : Option Toml :=
  let bound : Int := Nat.pow 2 63
  if -bound ≤ value ∧ value < bound then some (.integer value) else none

/-- An integer in another base, behind its mark. -/
def readBased (base : Nat) : Reader Toml := fun text => do
  let (digits, rest) ← readNumerals (Text.isDigitIn base) text
  let value ← (Text.numberIn? base digits).bind (integer? ·)
  return (value, rest)

/-- A number in decimal digits. Too large a number is refused, unless it is negative and not an
integer. -/
def readDecimal : Reader Toml := fun text => do
  let (negative, text) := readSign text
  match (afterWord? "inf" text).or (afterWord? "nan" text) with
  | some rest => return (.float, rest)
  | none =>
    let (whole, text) ← readWhole text
    let (fraction, text) ← readFraction text
    let (exponent, text) ← readExponent text
    if fraction.isNone && exponent.isNone then
      let size : Int := (Text.numberIn? 10 whole).getD 0
      let value ← integer? (if negative then -size else size)
      return (value, text)
    else if isHuge whole (fraction.getD []) exponent && !negative then none
    else return (.float, text)

def readNumber : Reader Toml := fun text =>
  match afterTime? text with
  | some rest => some (.time, rest)
  | none =>
    match text with
    | '0' :: 'x' :: rest => readBased 16 rest
    | '0' :: 'o' :: rest => readBased 8 rest
    | '0' :: 'b' :: rest => readBased 2 rest
    | _ => readDecimal text

/-- A value that is neither an array nor a table. -/
def readScalar : Reader Toml := fun text =>
  match text with
  | '"' :: _ => (readString text).map fun (text, rest) => (.string text, rest)
  | '\'' :: _ => (readString text).map fun (text, rest) => (.string text, rest)
  | 't' :: _ => (afterWord? "true" text).map (.bool true, ·)
  | 'f' :: _ => (afterWord? "false" text).map (.bool false, ·)
  | _ => readNumber text

/-- The table of keys and values between braces. -/
def inlineTable (pairs : List ((List String × String) × Toml)) : Option Toml := do
  let entries ← pairs.foldlM (fun entries ((path, key), value) =>
    Entries.insert entries path key value) []
  return .table (closeEntries entries)

mutual

/-- A value, in which arrays and tables may nest a number of levels deep. -/
def readValue : (fuel levels : Nat) → Reader Toml
  | 0, _, _ => none
  | fuel + 1, levels, text =>
    match text, levels with
    | '[' :: _, 0 => none
    | '[' :: rest, levels + 1 =>
      (readItems fuel levels rest).map fun (items, rest) => (.array items, rest)
    | '\x7b' :: _, 0 => none
    | '\x7b' :: rest, levels + 1 =>
      match skipBlanks rest with
      | '\x7d' :: rest => some (.table [], rest)
      | rest => do
        let (pairs, rest) ← readPairs fuel levels rest
        let table ← inlineTable pairs
        return (table, rest)
    | _, _ => readScalar text

/-- The items of an array up to its end. A comma may follow the last one. -/
def readItems : (fuel levels : Nat) → Reader (List Toml)
  | 0, _, _ => none
  | fuel + 1, levels, text => do
    match ← skipTrivia? false text with
    | ']' :: rest => return ([], rest)
    | text =>
      let (item, rest) ← readValue fuel levels text
      match ← skipTrivia? false rest with
      | ',' :: rest =>
        let (items, rest) ← readItems fuel levels rest
        return (item :: items, rest)
      | ']' :: rest => return ([item], rest)
      | _ => none

/-- The keys and values of a table between braces, up to its end. -/
def readPairs : (fuel levels : Nat) → Reader (List ((List String × String) × Toml))
  | 0, _, _ => none
  | fuel + 1, levels, text => do
    let (key, rest) ← readKey text
    let rest ← after? '=' rest
    let (value, rest) ← readValue fuel levels (skipBlanks rest)
    match skipBlanks rest with
    | ',' :: rest =>
      let (pairs, rest) ← readPairs fuel levels rest
      return ((key, value) :: pairs, rest)
    | '\x7d' :: rest => return ([(key, value)], rest)
    | _ => none

end

/-- Reads a header behind its opening bracket. -/
def readHeader (d : Draft) (text : List Char) : Option (Draft × List Char) :=
  match text with
  | '[' :: rest => do
    let ((path, key), rest) ← readKey rest
    let rest ← afterWord? "]]" rest
    let rest ← afterLine? rest
    return (← d.startListed (path ++ [key]), rest)
  | _ => do
    let ((path, key), rest) ← readKey text
    let rest ← after? ']' rest
    let rest ← afterLine? rest
    return (← d.startTable (path ++ [key]), rest)

def readPair (d : Draft) (text : List Char) : Option (Draft × List Char) := do
  let ((path, key), rest) ← readKey text
  let rest ← after? '=' rest
  let text := skipBlanks rest
  let (value, rest) ← readValue (2 * text.length + 2) nestingLimit text
  let rest ← afterLine? rest
  return (← d.insert path key value, rest)

/-- Reads the lines of a document. Every line takes at least one character, which bounds the
fuel. -/
def readDocument : (fuel : Nat) → Draft → List Char → Option Draft
  | 0, _, _ => none
  | fuel + 1, d, text =>
    match skipBlanks text with
    | [] => some d
    | '[' :: rest => do
      let (d, rest) ← readHeader d rest
      readDocument fuel d rest
    | c :: rest =>
      if c = '#' ∨ c = '\n' ∨ c = '\r' then do
        let rest ← afterLine? (c :: rest)
        readDocument fuel d rest
      else do
        let (d, rest) ← readPair d (c :: rest)
        readDocument fuel d rest

/-- The table that a document describes. A byte-order mark in front is passed over. -/
def read (text : String) : Option Toml := do
  let chars := text.toList
  let chars := if chars.head? = some '\uFEFF' then chars.drop 1 else chars
  let draft ← readDocument (chars.length + 1) .empty chars
  let entries ← draft.finish
  return .table (closeEntries entries)

end NativeBridge.Toml
