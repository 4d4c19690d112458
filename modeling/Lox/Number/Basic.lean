/-!
# Numbers

A number of the language is an IEEE double.  It is held as its 64 bits, so that two numbers are
equal as data exactly when they are the same double; the comparison that programs see is `equals`,
for which the two zeros agree and no NaN agrees with anything.
-/

namespace Lox

/-- A double, given by its bits: sign, eleven bits of exponent, fifty-two bits of fraction. -/
structure Number where
  bits : UInt64
deriving DecidableEq

namespace Number

def ofFloat (x : Float) : Number := ⟨x.toBits⟩

def toFloat (x : Number) : Float := Float.ofBits x.bits

instance : Neg Number := ⟨fun x => ofFloat (-x.toFloat)⟩
instance : Add Number := ⟨fun x y => ofFloat (x.toFloat + y.toFloat)⟩
instance : Sub Number := ⟨fun x y => ofFloat (x.toFloat - y.toFloat)⟩
instance : Mul Number := ⟨fun x y => ofFloat (x.toFloat * y.toFloat)⟩
instance : Div Number := ⟨fun x y => ofFloat (x.toFloat / y.toFloat)⟩

def equals (x y : Number) : Bool := x.toFloat == y.toFloat
def less (x y : Number) : Bool := x.toFloat < y.toFloat
def lessEqual (x y : Number) : Bool := x.toFloat ≤ y.toFloat

/-- Whether the number is one of the two zeros. -/
def isZero (x : Number) : Bool := x.toFloat == 0

/-- The bits of positive infinity, above those of every finite magnitude. -/
def infinityBits : Nat := 2047 * Nat.pow 2 52

def isNegative (x : Number) : Bool := Nat.pow 2 63 ≤ x.bits.toNat

/-- The bits without the sign. -/
def magnitude (x : Number) : Nat := x.bits.toNat % Nat.pow 2 63

def isFinite (x : Number) : Bool := x.magnitude < infinityBits

/-- The absolute value of a finite number, counted in units of `2 ^ -1074`, the least positive
double. -/
def units (x : Number) : Nat :=
  let exponent := x.magnitude / Nat.pow 2 52
  let fraction := x.magnitude % Nat.pow 2 52
  if exponent = 0 then fraction else (Nat.pow 2 52 + fraction) * Nat.pow 2 (exponent - 1)

/-- The positive number with the given bits, or infinity when they are beyond it. -/
def ofMagnitude (m : Nat) : Number := ⟨(min m infinityBits).toUInt64⟩

end Number

end Lox
