/-!
Numbers from digits.
-/

namespace NativeBridge.Text

/-- The value of a digit in a base up to sixteen. -/
def digitIn? (base : Nat) (c : Char) : Option Nat :=
  let value :=
    if '0' ≤ c ∧ c ≤ '9' then c.toNat - '0'.toNat
    else if 'a' ≤ c ∧ c ≤ 'f' then c.toNat - 'a'.toNat + 10
    else if 'A' ≤ c ∧ c ≤ 'F' then c.toNat - 'A'.toNat + 10
    else base
  if value < base then some value else none

def isDigitIn (base : Nat) (c : Char) : Bool := (digitIn? base c).isSome

/-- The number that digits of a base spell. There must be one at least. -/
def numberIn? (base : Nat) (digits : List Char) : Option Nat :=
  if digits.isEmpty then none
  else digits.foldlM (fun n c => (digitIn? base c).map (n * base + ·)) 0

end NativeBridge.Text
