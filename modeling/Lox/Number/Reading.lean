import Lox.Decimal
import Lox.Number.Basic

/-!
# Reading numbers

The nearest double to a fraction, with a half going to the even neighbour.  All arithmetic is on
naturals: the fraction is counted in units of the least positive double, and the bits of a double
grow with its value, so that a significand that rounds up into the next binade needs no repair.
-/

namespace Lox

/-- The nearest integer to `num / den`; a half goes to the even neighbour. -/
def divNearest (num den : Nat) : Nat :=
  let quotient := num / den
  let twice := 2 * (num % den)
  if twice < den ∨ (twice = den ∧ quotient % 2 = 0) then quotient else quotient + 1

namespace Number

/-- The nearest double to `num / den`; infinity when no finite double is near. -/
def ofRatio (num den : Nat) : Number :=
  let scaled := num * Nat.pow 2 1074
  let shift := (scaled / den).log2 - 52
  ofMagnitude (shift * Nat.pow 2 52 + divNearest scaled (den * Nat.pow 2 shift))

/-- The nearest double to a decimal. -/
def ofDecimal (d : Decimal) : Number := ofRatio d.digits (Nat.pow 10 d.places)

def ofNat (n : Nat) : Number := ofRatio n 1

end Number

end Lox
