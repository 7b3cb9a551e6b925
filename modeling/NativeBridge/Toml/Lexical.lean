import NativeBridge.Text.Digits

/-!
The lexical part of TOML: blanks and comments, strings, numbers, times and keys. Every reader takes
the text at a place and returns what follows what it has read, or `none` if that is not there.
-/

namespace NativeBridge.Toml

/-- A reader of something at the start of a text. -/
abbrev Reader (α : Type) := List Char → Option (α × List Char)

/-- Whether a character is a blank within a line. -/
def isBlank (c : Char) : Bool := c = ' ' || c = '\t'

/-- Whether a character may stand in a line: no control character but the tabulator. -/
def isPrintable (c : Char) : Bool := c = '\t' || (' ' ≤ c && c ≠ '\x7f')

def skipBlanks (text : List Char) : List Char := text.dropWhile isBlank

/-- What follows the end of a line. -/
def afterNewline? : List Char → Option (List Char)
  | '\n' :: rest => some rest
  | '\r' :: '\n' :: rest => some rest
  | _ => none

/-- What follows the rest of a line, which may be a comment. The text may end there. -/
def afterLine? (text : List Char) : Option (List Char) :=
  let text := skipBlanks text
  let text := if text.head? = some '#' then text.dropWhile isPrintable else text
  if text.isEmpty then some [] else afterNewline? text

/-- What follows blanks, ends of lines and comments. -/
def skipTrivia? (inComment : Bool) : List Char → Option (List Char)
  | [] => if inComment then none else some []
  | '\n' :: rest => skipTrivia? false rest
  | '\r' :: '\n' :: rest => skipTrivia? false rest
  | c :: rest =>
    if inComment then (if isPrintable c then skipTrivia? true rest else none)
    else if isBlank c then skipTrivia? false rest
    else if c = '#' then skipTrivia? true rest
    else some (c :: rest)

/-- What follows blanks and ends of lines. -/
def skipLayout : List Char → List Char
  | [] => []
  | '\n' :: rest => skipLayout rest
  | '\r' :: '\n' :: rest => skipLayout rest
  | c :: rest => if isBlank c then skipLayout rest else c :: rest

/-! ### Strings -/

/-- The character of a number of hexadecimal digits. -/
def readCode (count : Nat) : Reader Char := fun text => do
  let digits := text.take count
  if digits.length < count then none
  let code ← Text.numberIn? 16 digits
  if code.isValidChar then some (Char.ofNat code, text.drop count) else none

/-- The character of an escape, behind the backslash. -/
def readEscape : Reader Char
  | 'b' :: rest => some ('\x08', rest)
  | 't' :: rest => some ('\t', rest)
  | 'n' :: rest => some ('\n', rest)
  | 'f' :: rest => some ('\x0c', rest)
  | 'r' :: rest => some ('\r', rest)
  | '"' :: rest => some ('"', rest)
  | '\\' :: rest => some ('\\', rest)
  | 'u' :: rest => readCode 4 rest
  | 'U' :: rest => readCode 8 rest
  | _ => none

/-- A string with escapes on one line, behind the quote that opens it. -/
def readBasic : (fuel : Nat) → Reader (List Char)
  | 0, _ => none
  | fuel + 1, text =>
    match text with
    | '"' :: rest => some ([], rest)
    | '\\' :: rest => do
      let (c, rest) ← readEscape rest
      let (text, rest) ← readBasic fuel rest
      return (c :: text, rest)
    | c :: rest => do
      if !isPrintable c then none
      let (text, rest) ← readBasic fuel rest
      return (c :: text, rest)
    | [] => none

/-- A string without escapes on one line, behind the quote that opens it. -/
def readLiteral : Reader (List Char)
  | [] => none
  | c :: rest =>
    if c = '\'' then some ([], rest)
    else if isPrintable c then (readLiteral rest).map fun (text, rest) => (c :: text, rest)
    else none

/-- The end of a string of several lines, if quotes in it are its end: three quotes, with up to two
that belong to the text before them. -/
def closing? (quote : Char) : Reader (List Char) := fun text =>
  let count := (text.takeWhile (· == quote)).length
  let extra := min (count - 3) 2
  if 3 ≤ count then some (List.replicate extra quote, text.drop (extra + 3)) else none

/-- A string of several lines, behind the quotes that open it. A backslash at the end of a line
takes away the blanks and ends of lines that follow. -/
def readLines (quote : Char) (escapes : Bool) : (fuel : Nat) → Reader (List Char)
  | 0, _ => none
  | fuel + 1, text =>
    match closing? quote text with
    | some (extra, rest) => some (extra, rest)
    | none =>
      match text with
      | [] => none
      | c :: rest =>
        let onward (chars : List Char) (rest : List Char) : Option (List Char × List Char) :=
          (readLines quote escapes fuel rest).map fun (text, rest) => (chars ++ text, rest)
        match afterNewline? text with
        | some rest => onward ['\n'] rest
        | none =>
          if c = '\\' && escapes then
            match afterNewline? (skipBlanks rest) with
            | some rest => onward [] (skipLayout rest)
            | none => do
              let (c, rest) ← readEscape rest
              onward [c] rest
          else if isPrintable c then onward [c] rest
          else none

/-- A string of any kind. An end of line right behind three quotes does not belong to it. -/
def readString : Reader String := fun text =>
  let found : Option (List Char × List Char) :=
    match text with
    | '"' :: '"' :: '"' :: rest =>
      readLines '"' true text.length ((afterNewline? rest).getD rest)
    | '"' :: rest => readBasic text.length rest
    | '\'' :: '\'' :: '\'' :: rest =>
      readLines '\'' false text.length ((afterNewline? rest).getD rest)
    | '\'' :: rest => readLiteral rest
    | _ => none
  found.map fun (chars, rest) => (String.ofList chars, rest)

/-! ### Keys -/

/-- Whether a character may stand in a key without quotes. -/
def isBare (c : Char) : Bool := c.isAlphanum || c = '-' || c = '_'

def readKeyPart : Reader String := fun text =>
  match text with
  | '"' :: rest => (readBasic text.length rest).map fun (c, rest) => (String.ofList c, rest)
  | '\'' :: rest => (readLiteral rest).map fun (c, rest) => (String.ofList c, rest)
  | _ =>
    let part := text.takeWhile isBare
    if part.isEmpty then none else some (String.ofList part, text.dropWhile isBare)

def readKeyParts : (fuel : Nat) → Reader (List String)
  | 0, _ => none
  | fuel + 1, text => do
    let (part, rest) ← readKeyPart (skipBlanks text)
    match skipBlanks rest with
    | '.' :: rest =>
      let (parts, rest) ← readKeyParts fuel rest
      return (part :: parts, rest)
    | rest => return ([part], rest)

/-- How deeply values may nest, and how many parts a key may have. -/
def nestingLimit : Nat := 79

/-- A key: the path in front of it, and its last part. -/
def readKey : Reader (List String × String) := fun text => do
  let (parts, rest) ← readKeyParts text.length text
  let last ← parts.getLast?
  if nestingLimit < parts.length then none else some ((parts.dropLast, last), rest)

/-! ### Times -/

/-- A number of exactly so many digits. -/
def readDigits (count : Nat) : Reader Nat := fun text => do
  let digits := text.take count
  if digits.length < count then none
  let value ← Text.numberIn? 10 digits
  return (value, text.drop count)

/-- What follows a word that must be there. -/
def afterWord? (word : String) (text : List Char) : Option (List Char) :=
  if word.toList.isPrefixOf text then some (text.drop word.length) else none

/-- What follows a character that must be there. -/
def after? (c : Char) (text : List Char) : Option (List Char) :=
  if text.head? = some c then some text.tail else none

def daysIn (year month : Nat) : Nat :=
  if month = 2 then
    (if year % 4 = 0 ∧ (year % 100 ≠ 0 ∨ year % 400 = 0) then 29 else 28)
  else if month = 4 ∨ month = 6 ∨ month = 9 ∨ month = 11 then 30
  else 31

def afterDate? (text : List Char) : Option (List Char) := do
  let (year, text) ← readDigits 4 text
  let text ← after? '-' text
  let (month, text) ← readDigits 2 text
  let text ← after? '-' text
  let (day, text) ← readDigits 2 text
  if 1 ≤ month ∧ month ≤ 12 ∧ 1 ≤ day ∧ day ≤ daysIn year month then some text else none

/-- What follows a time of day. Fractions of seconds may have any number of digits. -/
def afterClock? (text : List Char) : Option (List Char) := do
  let (hour, text) ← readDigits 2 text
  let text ← after? ':' text
  let (minute, text) ← readDigits 2 text
  let text ← after? ':' text
  let (second, text) ← readDigits 2 text
  if 23 < hour ∨ 59 < minute ∨ 60 < second then none
  match text with
  | '.' :: c :: rest =>
    if c.isDigit then some (rest.dropWhile Char.isDigit) else some text
  | _ => some text

/-- What follows the offset of a time, if there is one. -/
def afterOffset? (text : List Char) : Option (List Char) :=
  match text with
  | c :: rest =>
    if c = 'Z' ∨ c = 'z' then some rest
    else if c = '+' ∨ c = '-' then do
      let (hour, text) ← readDigits 2 rest
      let text ← after? ':' text
      let (minute, text) ← readDigits 2 text
      if hour ≤ 23 ∧ minute ≤ 59 then some text else none
    else some text
  | [] => some []

/-- What follows a date, a time of day, or both. -/
def afterTime? (text : List Char) : Option (List Char) :=
  match afterDate? text with
  | none => afterClock? text
  | some rest =>
    match rest with
    | c :: clock =>
      if c = 'T' ∨ c = 't' ∨ c = ' ' then
        match afterClock? clock with
        | some rest => afterOffset? rest
        | none => some rest
      else some rest
    | [] => some rest

/-! ### Numbers -/

/-- More digits of a number. An underscore may stand between two digits. -/
def readRun (isDigit : Char → Bool) : Reader (List Char)
  | '_' :: c :: rest =>
    if isDigit c then (readRun isDigit rest).map fun (digits, rest) => (c :: digits, rest)
    else none
  | ['_'] => none
  | c :: rest =>
    if isDigit c then (readRun isDigit rest).map fun (digits, rest) => (c :: digits, rest)
    else some ([], c :: rest)
  | [] => some ([], [])

/-- Digits of a number, at least one. -/
def readNumerals (isDigit : Char → Bool) : Reader (List Char)
  | c :: rest =>
    if isDigit c then (readRun isDigit rest).map fun (digits, rest) => (c :: digits, rest)
    else none
  | [] => none

/-- The sign of a number, if it has one; whether it is a minus. -/
def readSign : List Char → Bool × List Char
  | '-' :: rest => (true, rest)
  | '+' :: rest => (false, rest)
  | text => (false, text)

/-- The digits before the point. A zero in front stands alone. -/
def readWhole : Reader (List Char)
  | '0' :: rest => some (['0'], rest)
  | text => readNumerals Char.isDigit text

def readExponent : Reader (Option (Bool × List Char)) := fun text =>
  match text with
  | c :: rest =>
    if c = 'e' ∨ c = 'E' then do
      let (negative, rest) := readSign rest
      let (digits, rest) ← readNumerals Char.isDigit rest
      return (some (negative, digits), rest)
    else some (none, text)
  | [] => some (none, [])

def readFraction : Reader (Option (List Char)) := fun text =>
  match text with
  | '.' :: rest => (readNumerals Char.isDigit rest).map fun (digits, rest) => (some digits, rest)
  | _ => some (none, text)

/-- The least magnitude that double precision rounds to infinity. -/
def infinityBound : Nat := Nat.pow 2 1024 - Nat.pow 2 970

/-- Whether a decimal number is beyond double precision. Numbers of more than 400 places are, and
numbers without a place before the point are not. -/
def isHuge (whole fraction : List Char) (exponent : Option (Bool × List Char)) : Bool :=
  let significand := (Text.numberIn? 10 (whole ++ fraction)).getD 0
  let power : Int :=
    match exponent with
    | none => 0
    | some (negative, digits) =>
      let size : Int := (Text.numberIn? 10 digits).getD 0
      if negative then -size else size
  let power := power - fraction.length
  let places : Int := ((whole ++ fraction).dropWhile (· == '0')).length + power
  if significand = 0 || places < 0 then false
  else if 400 < places then true
  else if 0 ≤ power then infinityBound ≤ significand * Nat.pow 10 power.toNat
  else infinityBound * Nat.pow 10 (-power).toNat ≤ significand

end NativeBridge.Toml
