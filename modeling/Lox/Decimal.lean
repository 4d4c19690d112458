/-!
# Decimals

A decimal is a run of digits of which the last few stand after the point.  It is what a number
literal spells and what the text of a number shows.  Main statement: reading the two parts of a
written decimal gives the decimal back.
-/

namespace Lox

/-- The value `digits / 10 ^ places`. -/
structure Decimal where
  digits : Nat
  places : Nat := 0
deriving DecidableEq

namespace Decimal

/-- The decimal spelled by the digits before and after the point. -/
def ofParts (whole fraction : List Char) : Decimal where
  digits := Nat.ofDigitChars 10 (whole ++ fraction) 0
  places := fraction.length

/-- The digits, with leading zeros so that at least one stands before the point. -/
def written (d : Decimal) : List Char :=
  let shown := Nat.toDigits 10 d.digits
  List.replicate (d.places + 1 - shown.length) '0' ++ shown

/-- The digits before the point. -/
def whole (d : Decimal) : List Char := d.written.take (d.written.length - d.places)

/-- The digits after the point. -/
def fraction (d : Decimal) : List Char := d.written.drop (d.written.length - d.places)

/-- Positional text; a point is written only where digits follow it. -/
def text (d : Decimal) : List Char :=
  if d.places = 0 then d.whole else d.whole ++ '.' :: d.fraction

/-- There is a digit in front of the point. -/
theorem places_lt_length_written (d : Decimal) : d.places < d.written.length := by
  simp [written]
  omega

@[simp] theorem whole_append_fraction (d : Decimal) : d.whole ++ d.fraction = d.written :=
  List.take_append_drop ..

@[simp] theorem length_fraction (d : Decimal) : d.fraction.length = d.places := by
  have := d.places_lt_length_written
  simp [fraction]
  omega

private theorem ofDigitChars_replicate_zero (k : Nat) (cs : List Char) :
    Nat.ofDigitChars 10 (List.replicate k '0' ++ cs) 0 = Nat.ofDigitChars 10 cs 0 := by
  induction k with
  | zero => simp
  | succ k ih => simpa [List.replicate_succ, Nat.ofDigitChars] using ih

/-- A decimal is what its own digits spell. -/
theorem ofParts_whole_fraction (d : Decimal) : ofParts d.whole d.fraction = d := by
  have h : Nat.ofDigitChars 10 d.written 0 = d.digits := by
    rw [written, ofDigitChars_replicate_zero, Nat.ofDigitChars_toDigits (by decide) (by decide)]
  simp [ofParts, h]

end Decimal

end Lox
