import NativeBridge.Decimal.Binary64

/-!
The shortest decimal text of a double-precision number: the fewest digits that read back as the same
number, and of those the nearest to it. Numbers of moderate size are written positionally, always
with a point; others in scientific notation, with the sign of the exponent.
-/

namespace NativeBridge.Decimal

/-- A decimal `digits * 10 ^ exponent`. -/
structure Scaled where
  digits : Nat
  exponent : Int
deriving DecidableEq, Repr

/-- The ends of the interval of reals that round to a number, as numerators over a common
denominator, with the number itself between them. -/
def neighbourhood (x : Binary64) : Nat × Nat × Nat × Nat :=
  let (n, d) := (⟨1, x.exponent⟩ : Binary64).ratio
  let m := x.significand
  let low :=
    if m = Nat.pow 2 52 ∧ Binary64.leastExponent < x.exponent then 4 * m - 1 else 4 * m - 2
  (low * n, 4 * m * n, (4 * m + 2) * n, 4 * d)

/-- The number of decimal places before the point of a positive ratio: the least `k` with the ratio
below `10 ^ k`, searched upwards from `k`. -/
def places (numerator denominator : Nat) : (fuel : Nat) → Int → Int
  | 0, k => k
  | fuel + 1, k =>
    let below :=
      if 0 ≤ k then decide (numerator < denominator * Nat.pow 10 k.toNat)
      else decide (numerator * Nat.pow 10 (-k).toNat < denominator)
    if below then k else places numerator denominator fuel (k + 1)

/-- The decimal with the given last place that reads back as the number, if there is one: the
nearer of the two neighbours on the grid when both do. -/
def candidate (x : Binary64) (place : Int) : Option Scaled :=
  let (low, value, high, d) := neighbourhood x
  let (gridN, gridD) :=
    if 0 ≤ place then (Nat.pow 10 place.toNat, 1) else (1, Nat.pow 10 (-place).toNat)
  let below := value * gridD / (d * gridN)
  let inside (k : Nat) : Bool :=
    let point := k * gridN * d
    if x.significand % 2 = 0 then low * gridD ≤ point && point ≤ high * gridD
    else low * gridD < point && point < high * gridD
  let gapBelow := value * gridD - below * gridN * d
  let gapAbove := (below + 1) * gridN * d - value * gridD
  match inside below, inside (below + 1) with
  | true, true =>
    if gapBelow < gapAbove ∨ (gapBelow = gapAbove ∧ below % 2 = 0) then some ⟨below, place⟩
    else some ⟨below + 1, place⟩
  | true, false => some ⟨below, place⟩
  | false, true => some ⟨below + 1, place⟩
  | false, false => none

/-- Moves the zeros at the end of the digits into the exponent. -/
def Scaled.normalize : (fuel : Nat) → Scaled → Scaled
  | 0, s => s
  | fuel + 1, s =>
    if s.digits ≠ 0 ∧ s.digits % 10 = 0 then normalize fuel ⟨s.digits / 10, s.exponent + 1⟩ else s

/-- The first candidate with `count`, `count + 1`, ... digits. Seventeen digits always suffice. -/
def search (x : Binary64) (top : Int) : (fuel : Nat) → (count : Nat) → Scaled
  | 0, _ => ⟨0, 0⟩
  | fuel + 1, count =>
    match candidate x (top - count) with
    | some found => if found.digits = 0 then search x top fuel (count + 1) else found
    | none => search x top fuel (count + 1)

/-- The shortest decimal of a number other than zero. -/
def shortest (x : Binary64) : Scaled :=
  let (n, d) := x.ratio
  (search x (places n d 700 (-330)) 20 1).normalize 20

/-- The shortest text of a magnitude. Up to sixteen places before the point and up to four zeros
behind it are written positionally. -/
def shortestText (x : Binary64) : String :=
  if x.significand = 0 then "0.0"
  else
    let s := shortest x
    let digits := Nat.toDigits 10 s.digits
    let point := s.exponent + digits.length
    let zeros (n : Int) : List Char := List.replicate n.toNat '0'
    String.ofList <|
      if 0 ≤ s.exponent ∧ point ≤ 16 then digits ++ zeros s.exponent ++ ['.', '0']
      else if 0 < point ∧ point ≤ 16 then
        digits.take point.toNat ++ '.' :: digits.drop point.toNat
      else if -5 < point ∧ point ≤ 0 then '0' :: '.' :: zeros (-point) ++ digits
      else
        let power := (if 0 < point then ['+'] else []) ++ (point - 1).repr.toList
        match digits with
        | [digit] => digit :: 'e' :: power
        | first :: rest => first :: '.' :: rest ++ 'e' :: power
        | [] => []

end NativeBridge.Decimal
