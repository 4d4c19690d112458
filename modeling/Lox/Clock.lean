import Lox.Number.Reading

/-!
# Clocks

A clock is given by its readings, in seconds.
-/

namespace Lox

/-- A clock that starts at a number of microseconds and moves on by one whenever it is read. -/
def ticking (microseconds : Nat) (reading : Nat) : Number := .ofDecimal ⟨microseconds + reading, 6⟩

end Lox
