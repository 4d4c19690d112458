import Lox.Number.Reading

/-!
# The text of a number

A number is shown by the fewest decimal digits that read back as the same double, and by the
nearest such decimal where several have that many digits.  Notation is positional throughout.
-/

namespace Lox

namespace Number

/-- The point `count * 10 ^ exponent` of a decimal grid. -/
def gridPoint (count : Nat) : (exponent : Int) → Decimal
  | .ofNat n => ⟨count * Nat.pow 10 n, 0⟩
  | .negSucc n => ⟨count, n + 1⟩

/-- The two neighbours of `units * 2 ^ -1074` on the grid of multiples of `10 ^ exponent`, the
nearer one first; of two equally near ones the greater is first. -/
def gridNeighbours (units : Nat) (exponent : Int) : List Decimal :=
  let num := match exponent with
    | .ofNat _ => units
    | .negSucc n => units * Nat.pow 10 (n + 1)
  let den := match exponent with
    | .ofNat n => Nat.pow 2 1074 * Nat.pow 10 n
    | .negSucc _ => Nat.pow 2 1074
  let below := gridPoint (num / den) exponent
  let above := gridPoint (num / den + 1) exponent
  if 2 * (num % den) < den then [below, above] else [above, below]

/-- A power of ten above `units * 2 ^ -1074`, by way of the number of binary digits. -/
def leadingExponent (units : Nat) : Int :=
  ((units.log2 : Int) + 1 - 1074) * 30103 / 100000 + 1

/-- All the digits of `units * 2 ^ -1074`. -/
def exactDecimal (units : Nat) : Decimal := ⟨units * Nat.pow 5 1074, 1074⟩

/-- The shortest decimal that reads back as the positive number `x`: grids are tried from the
coarsest on, and seventeen digits always suffice. -/
def shortest (x : Number) : Decimal :=
  let found := (List.range 20).findSome? fun (i : Nat) =>
    (gridNeighbours x.units (leadingExponent x.units - i)).find? fun d => ofDecimal d = x
  found.getD (exactDecimal x.units)

/-- The text of a number without its sign. -/
def magnitudeText (x : Number) : String :=
  if x.isFinite then
    String.ofList (if x.units = 0 then ['0'] else (shortest (ofMagnitude x.magnitude)).text)
  else "inf"

/-- Zero keeps its sign, and a NaN shows none. -/
def text (x : Number) : String :=
  if x.magnitude > infinityBits then "NaN"
  else if x.isNegative then "-" ++ x.magnitudeText
  else x.magnitudeText

end Number

end Lox
