import Lox.Number.Text

/-!
# Numbers read back

The text of a number that is not negative is a decimal, and the number is what the decimal reads as.
The shortest decimal is looked for among those that read back; where none was found all digits are
shown, and these are read without rounding.
-/

namespace Lox

/-- A quotient without a remainder is not rounded. -/
theorem divNearest_mul (q : Nat) {den : Nat} (h : 0 < den) : divNearest (q * den) den = q := by
  simp [divNearest, Nat.mul_mod_left, Nat.mul_div_cancel _ h, h]

namespace Number

/-! ## Magnitudes -/

theorem infinityBits_eq : infinityBits = 0x7FF0000000000000 := rfl

/-- A magnitude is kept in the bits, up to that of infinity. -/
theorem toNat_bits_ofMagnitude (m : Nat) : (ofMagnitude m).bits.toNat = min m infinityBits := by
  have := infinityBits_eq
  rw [ofMagnitude, Nat.toUInt64, UInt64.toNat_ofNat']
  omega

theorem magnitude_ofMagnitude (m : Nat) : (ofMagnitude m).magnitude = min m infinityBits := by
  have := infinityBits_eq
  rw [magnitude, toNat_bits_ofMagnitude, Nat.pow_eq]
  omega

theorem isNegative_ofMagnitude (m : Nat) : (ofMagnitude m).isNegative = false := by
  have := infinityBits_eq
  rw [isNegative, toNat_bits_ofMagnitude, Nat.pow_eq, decide_eq_false_iff_not]
  omega

/-- Just the magnitudes below that of infinity are finite. -/
theorem isFinite_ofMagnitude {m : Nat} :
    (ofMagnitude m).isFinite = true ↔ m < infinityBits := by
  rw [isFinite, magnitude_ofMagnitude, decide_eq_true_iff]
  omega

/-- Shifting a number moves its leading bit. -/
theorem log2_mul_pow {q k : Nat} (h : Nat.pow 2 k ≤ q) (h' : q < Nat.pow 2 (k + 1))
    (shift : Nat) : (q * Nat.pow 2 shift).log2 = k + shift := by
  simp only [Nat.pow_eq] at h h' ⊢
  have hpos : 0 < 2 ^ shift := Nat.two_pow_pos shift
  have hne : q * 2 ^ shift ≠ 0 := by
    have := Nat.two_pow_pos k
    exact Nat.mul_ne_zero (by omega) (Nat.ne_of_gt hpos)
  rw [Nat.log2_eq_iff hne, Nat.pow_add, Nat.add_right_comm, Nat.pow_add]
  exact ⟨Nat.mul_le_mul_right _ h, Nat.mul_lt_mul_of_pos_right h' hpos⟩

/-- The units of a finite number are those of its significand, shifted to the left, and the bits are
the significand and the shift: each step of the shift counts for one binade above the least one,
below which there is no step. -/
theorem exists_units {m : Nat} (h : m < infinityBits) :
    ∃ significand shift, (ofMagnitude m).units = significand * Nat.pow 2 shift ∧
      (ofMagnitude m).units.log2 - 52 = shift ∧ m = shift * Nat.pow 2 52 + significand := by
  have hsplit := Nat.div_add_mod m (2 ^ 52)
  have hfraction := Nat.mod_lt m (Nat.two_pow_pos 52)
  rw [units, magnitude_ofMagnitude, Nat.min_eq_left (Nat.le_of_lt h)]
  simp only [Nat.pow_eq]
  generalize m / 2 ^ 52 = exponent at *
  generalize m % 2 ^ 52 = fraction at *
  split
  · next hexponent =>
    refine ⟨fraction, 0, (Nat.mul_one _).symm, ?_, by omega⟩
    rcases Nat.eq_zero_or_pos fraction with rfl | hpos
    · rfl
    · have := (Nat.log2_lt (Nat.ne_of_gt hpos)).mpr hfraction
      omega
  · next hexponent =>
    refine ⟨2 ^ 52 + fraction, exponent - 1, rfl, ?_, by omega⟩
    have hbinade : 2 ^ 52 + fraction < 2 ^ (52 + 1) := by omega
    have hlog : ((2 ^ 52 + fraction) * 2 ^ (exponent - 1)).log2 = 52 + (exponent - 1) :=
      log2_mul_pow (Nat.le_add_right (2 ^ 52) fraction) hbinade _
    rw [hlog, Nat.add_sub_cancel_left]

/-! ## Reading -/

/-- No decimal is read as a negative number. -/
theorem exists_ofDecimal_eq (d : Decimal) : ∃ m, ofDecimal d = ofMagnitude m := ⟨_, rfl⟩

/-- All digits of a number are read without rounding.  With as many places as there are halvings the
number is whole, however many those are. -/
theorem ofDecimal_exactDecimal {significand shift units : Nat}
    (hunits : units = significand * Nat.pow 2 shift) (hshift : units.log2 - 52 = shift) :
    ofDecimal (exactDecimal units) = ofMagnitude (shift * Nat.pow 2 52 + significand) := by
  rw [ofDecimal, exactDecimal, ofRatio]
  dsimp only
  generalize 1074 = n
  have hscaled : units * Nat.pow 5 n * Nat.pow 2 n = units * Nat.pow 10 n := by
    rw [Nat.mul_assoc]
    exact congrArg (units * ·) (Nat.mul_pow 5 2 n).symm
  have hpos : 0 < Nat.pow 10 n := Nat.pow_pos (by decide)
  have hsignificand :
      divNearest (units * Nat.pow 10 n) (Nat.pow 10 n * Nat.pow 2 shift) = significand := by
    rw [hunits, Nat.mul_assoc, Nat.mul_comm (Nat.pow 2 shift)]
    exact divNearest_mul _ (Nat.mul_pos hpos (Nat.two_pow_pos shift))
  rw [hscaled, Nat.mul_div_cancel _ hpos, hshift, hsignificand]

/-- The shortest decimal reads back: it is one of those that do, or has all the digits. -/
theorem ofDecimal_shortest {m : Nat} (h : m < infinityBits) :
    ofDecimal (ofMagnitude m).shortest = ofMagnitude m := by
  rw [shortest]
  cases hfound : (List.range 20).findSome? fun (i : Nat) =>
      (gridNeighbours (ofMagnitude m).units (leadingExponent (ofMagnitude m).units - i)).find?
        fun d => ofDecimal d = ofMagnitude m with
  | some d =>
      obtain ⟨i, -, hd⟩ := List.exists_of_findSome?_eq_some hfound
      have hreads := List.find?_some hd
      exact of_decide_eq_true hreads
  | none =>
      obtain ⟨significand, shift, hunits, hshift, hm⟩ := exists_units h
      rw [Option.getD_none, ofDecimal_exactDecimal hunits hshift, ← hm]

/-- The text of a finite number that is not negative is a decimal, and this decimal reads as the
number.  Only zero has no units. -/
theorem exists_text_ofMagnitude {m : Nat} (h : m < infinityBits) :
    ∃ d : Decimal, (ofMagnitude m).text = String.ofList d.text ∧ ofDecimal d = ofMagnitude m := by
  have hmagnitude : (ofMagnitude m).magnitude = m := by
    rw [magnitude_ofMagnitude, Nat.min_eq_left (Nat.le_of_lt h)]
  have htext : (ofMagnitude m).text = (ofMagnitude m).magnitudeText := by
    rw [text, if_neg (by rw [hmagnitude]; omega), isNegative_ofMagnitude, if_neg (by decide)]
  rw [htext, magnitudeText, if_pos (isFinite_ofMagnitude.mpr h), hmagnitude]
  split
  · next hzero =>
    obtain ⟨significand, shift, hunits, hshift, hm⟩ := exists_units h
    rw [hzero] at hunits hshift
    obtain rfl : shift = 0 := hshift.symm
    simp only [Nat.pow_eq] at hunits hm
    obtain rfl : m = 0 := by omega
    exact ⟨⟨0, 0⟩, rfl, by decide +kernel⟩
  · exact ⟨_, rfl, ofDecimal_shortest h⟩

end Number

end Lox
