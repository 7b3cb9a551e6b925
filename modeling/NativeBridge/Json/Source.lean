import NativeBridge.Decimal.Shortest

/-!
What a text says as JSON, before anything is expected of it. A source keeps the spelling that
decoding may still look at: numbers as they were written, strings whose escapes do not pair up,
repeated members. The place where the text stops being JSON is a source too, so that a decoder that
walks a document from left to right meets every fault in the order of the text.
-/

namespace NativeBridge.Json

/-- A number as written: its sign, its digits before and behind the point, and its exponent with
the sign in front. A number with a point has digits behind it. -/
structure Numeral where
  negative : Bool
  whole : List Nat
  fraction : List Nat
  exponent : Option (Bool × List Nat)
deriving DecidableEq, Repr

/-- The syntax of one value. -/
inductive Source where
  | null
  | bool (value : Bool)
  | number (numeral : Numeral)
  /-- A string; `none` if it spells half of a surrogate pair. -/
  | string (text : Option String)
  | array (items : List Source)
  /-- Members in the order of the text, the name as for strings. -/
  | object (members : List (Option String × Source))
  /-- The text is not JSON from here on. -/
  | broken
deriving Inhabited, Repr

/-- A text as a document: its value, and whether nothing but blanks follows it. -/
structure Document where
  root : Source
  ended : Bool
deriving Inhabited, Repr

/-- What a number means: an integer of up to 64 bits, or a double-precision number. -/
inductive Number where
  | integer (value : Int)
  | floating (negative : Bool) (magnitude : Decimal.Binary64)
deriving DecidableEq, Repr

namespace Numeral

open Decimal (Binary64)

def significandLimit : Nat := Nat.pow 2 64

/-- The greatest exponent that is added up exactly. -/
def exponentLimit : Nat := Nat.pow 2 31

/-- Reads digits into a significand while it stays below the limit; also the number of digits read
and whether all were. -/
def gather (significand : Nat) : List Nat → Nat × Nat × Bool
  | [] => (significand, 0, true)
  | digit :: rest =>
    if significand * 10 + digit < significandLimit then
      let (result, count, all) := gather (significand * 10 + digit) rest
      (result, count + 1, all)
    else (significand, 0, false)

/-- The power of ten `10 ^ n` as a double-precision number. -/
def powerOfTen? (n : Nat) : Option Binary64 := Binary64.ofNat? (Nat.pow 10 n)

/-- Scales a magnitude by a power of ten in steps of at most 308, each step rounded. `none` if it
becomes too large. -/
def scaleBy : (fuel : Nat) → Binary64 → Int → Option Binary64
  | 0, x, _ => some x
  | fuel + 1, x, exponent =>
    if exponent.natAbs ≤ 308 then do
      let power ← powerOfTen? exponent.natAbs
      if 0 ≤ exponent then x.mul? power else x.div? power
    else if x.significand = 0 then some x
    else if 0 ≤ exponent then none
    else do
      let power ← powerOfTen? 308
      let next ← x.div? power
      scaleBy fuel next (exponent + 308)

/-- The magnitude `significand * 10 ^ exponent`. Below `10 ^ -1000` every step has left zero. -/
def magnitude? (significand : Nat) (exponent : Int) : Option Binary64 := do
  let x ← Binary64.ofNat? significand
  scaleBy 8 x exponent

/-- The exponent that digits spell, `none` when it is beyond the limit. -/
def exponentValue (digits : List Nat) : Option Nat :=
  let value := digits.foldl (fun n digit => n * 10 + digit) 0
  if value < exponentLimit then some value else none

/-- The number that a numeral spells, or `none` if it is beyond the range of double precision.
Digits beyond the capacity of the significand count as places only. -/
def value? (n : Numeral) : Option Number :=
  let (whole, _, fits) := gather 0 n.whole
  if n.fraction = [] ∧ n.exponent = none ∧ fits then
    if ¬ n.negative then some (.integer whole)
    else if whole = 0 ∨ Nat.pow 2 63 < whole then
      (Binary64.ofNat? whole).map (.floating true)
    else some (.integer (-(whole : Int)))
  else
    let counted := (gather 0 n.whole).2.1
    let shift : Int := (n.whole.length : Int) - counted
    let (significand, used, _) := gather whole n.fraction
    let point := shift - used
    match n.exponent with
    | none => (magnitude? significand point).map (.floating n.negative)
    | some (below, digits) =>
      match exponentValue digits with
      | none =>
        if significand ≠ 0 ∧ ¬ below then none else some (.floating n.negative Binary64.zero)
      | some power =>
        let exponent := if below then point - power else point + power
        (magnitude? significand exponent).map (.floating n.negative)

end Numeral

mutual

/-- Whether a value is complete JSON, whatever the size of its numbers, the pairing of its escapes
and the depth of its nesting. -/
def Source.isComplete : Source → Bool
  | .array items => allComplete items
  | .object members => membersComplete members
  | .broken => false
  | _ => true

def allComplete : List Source → Bool
  | [] => true
  | item :: items => item.isComplete && allComplete items

def membersComplete : List (Option String × Source) → Bool
  | [] => true
  | (_, value) :: members => value.isComplete && membersComplete members

end

mutual

/-- Whether a value is complete JSON that nests no deeper than a number of levels, with numbers in
range and escapes that pair up. -/
def Source.isValue (levels : Nat) : Source → Bool
  | .null => true
  | .bool _ => true
  | .number numeral => numeral.value?.isSome
  | .string text => text.isSome
  | .array items =>
    match levels with
    | 0 => false
    | levels + 1 => allValues levels items
  | .object members =>
    match levels with
    | 0 => false
    | levels + 1 => membersValues levels members
  | .broken => false

def allValues (levels : Nat) : List Source → Bool
  | [] => true
  | item :: items => item.isValue levels && allValues levels items

def membersValues (levels : Nat) : List (Option String × Source) → Bool
  | [] => true
  | (name, value) :: members =>
    name.isSome && value.isValue levels && membersValues levels members

end

/-- How deeply arrays and objects may nest. -/
def nestingLimit : Nat := 127

/-- Whether a text is one value and nothing else. -/
def Document.isValue (d : Document) : Bool := d.root.isValue nestingLimit && d.ended

end NativeBridge.Json
