/-!
Finite double-precision numbers by exact integer arithmetic. A magnitude is a significand below
`2 ^ 53` times a power of two; a ratio of naturals is rounded to the nearest one, a tie going to the
even significand.
-/

namespace NativeBridge.Decimal

/-- The magnitude `significand * 2 ^ exponent`. -/
structure Binary64 where
  significand : Nat
  exponent : Int
deriving DecidableEq, Repr

namespace Binary64

def zero : Binary64 := ⟨0, -1074⟩

/-- The least exponent, that of the subnormal numbers. -/
def leastExponent : Int := -1074

def greatestExponent : Int := 971

/-- The magnitude as a numerator and a denominator. -/
def ratio (x : Binary64) : Nat × Nat :=
  if 0 ≤ x.exponent then (x.significand * Nat.pow 2 x.exponent.toNat, 1)
  else (x.significand, Nat.pow 2 (-x.exponent).toNat)

/-- The nearest integer to a ratio, the even one on a tie. -/
def nearest (numerator denominator : Nat) : Nat :=
  let quotient := numerator / denominator
  let twice := 2 * (numerator % denominator)
  if denominator < twice ∨ (twice = denominator ∧ quotient % 2 = 1) then quotient + 1 else quotient

/-- A ratio in units of `2 ^ exponent`. -/
def scale (numerator denominator : Nat) (exponent : Int) : Nat × Nat :=
  if 0 ≤ exponent then (numerator, denominator * Nat.pow 2 exponent.toNat)
  else (numerator * Nat.pow 2 (-exponent).toNat, denominator)

/-- The number nearest to a ratio, or `none` if it is too large for any. -/
def round? (numerator denominator : Nat) : Option Binary64 :=
  if numerator = 0 then some zero
  else
    let guess : Int := (Nat.log2 numerator : Int) - (Nat.log2 denominator : Int) - 52
    let (n, d) := scale numerator denominator guess
    let normal := if n / d < Nat.pow 2 52 then guess - 1 else guess
    let exponent := max normal leastExponent
    let (n, d) := scale numerator denominator exponent
    let significand := nearest n d
    let result : Binary64 :=
      if significand = Nat.pow 2 53 then ⟨Nat.pow 2 52, exponent + 1⟩ else ⟨significand, exponent⟩
    if greatestExponent < result.exponent then none else some result

def ofNat? (n : Nat) : Option Binary64 := round? n 1

def mul? (x y : Binary64) : Option Binary64 :=
  let (a, b) := x.ratio
  let (c, d) := y.ratio
  round? (a * c) (b * d)

/-- The rounded quotient by a number other than zero. -/
def div? (x y : Binary64) : Option Binary64 :=
  let (a, b) := x.ratio
  let (c, d) := y.ratio
  round? (a * d) (b * c)

end Binary64

end NativeBridge.Decimal
