/-!
# Positions

Whatever is found in a source is on a line.  Lines are counted from one, in thirty-two bits: behind
the last line that these can count, the count goes on from zero.
-/

namespace Lox

/-- The number of a line. -/
abbrev Position := UInt32

instance : Coe Position Nat := ⟨UInt32.toNat⟩

namespace Position

/-- The line behind some more text: each newline counts. -/
def behind (line : Position) (cs : List Char) : Position := line + .ofNat (cs.count '\n')

def text (line : Position) : String := (line : Nat).repr

variable (line : Position) (cs ds : List Char)

theorem behind_nil : line.behind [] = line := UInt32.add_zero line

/-- The lines of two texts one behind the other are counted in turn. -/
theorem behind_append : line.behind (cs ++ ds) = (line.behind cs).behind ds := by
  rw [behind, behind, behind, List.count_append, UInt32.ofNat_add, UInt32.add_assoc]

/-- It does not matter from which line the lines of a text are counted. -/
theorem add_behind (k : Position) : (line + k).behind cs = line.behind cs + k := by
  rw [behind, behind, UInt32.add_assoc, UInt32.add_comm k, UInt32.add_assoc]

theorem add_zero_eq_id : (fun line : Position => line + 0) = id := funext UInt32.add_zero

variable {line cs}

/-- A text without a newline leaves the line as it is. -/
theorem behind_of_notMem (h : '\n' ∉ cs) : line.behind cs = line := by
  rw [behind, List.count_eq_zero.mpr h]
  exact UInt32.add_zero line

/-- Where thirty-two bits are enough, a further line is as many lines further on. -/
theorem toNat_add_ofNat {k : Nat} (h : (line : Nat) + k < UInt32.size) :
    ((line + .ofNat k : Position) : Nat) = line + k := by
  rw [UInt32.toNat_add, UInt32.toNat_ofNat', Nat.add_mod_mod, Nat.mod_eq_of_lt h]

end Position

end Lox
