import Lox.Proofs.Scan.Tiling

/-!
# The spelling of a number

Many texts spell a number: digits with a point anywhere or nowhere, a sign in front and a power of
ten behind, and the names of the infinities and of what is no number.  Any other text spells none.
Main statement: what a source can hold as a number is spelled like one, and its parts say which.
-/

namespace Lox

namespace Number

def notNumber : Number := ⟨(infinityBits + Nat.pow 2 51).toUInt64⟩

/-- Whether there is a minus in front of a text, and the text without the sign that it may have. -/
def unsign : List Char → Bool × List Char
  | '-' :: cs => (true, cs)
  | '+' :: cs => (false, cs)
  | cs => (false, cs)

/-- The digits of a fraction if there is a point in front of them, and the text behind. -/
def point : List Char → List Char × List Char
  | '.' :: cs => (cs.takeWhile Char.isDigit, cs.dropWhile Char.isDigit)
  | cs => ([], cs)

/-- The power of ten that ends the spelling of a number. -/
def exponent? : List Char → Option Int
  | [] => some 0
  | c :: cs =>
    let (negative, cs) := unsign cs
    if c.toLower = 'e' ∧ cs ≠ [] ∧ cs.all Char.isDigit then
      let power := Nat.ofDigitChars 10 cs 0
      some (if negative then -power else power)
    else none

/-- The nearest double to a decimal times a power of ten. -/
def ofScaled (d : Decimal) : (power : Int) → Number
  | .ofNat n => ofRatio (d.digits * Nat.pow 10 n) (Nat.pow 10 d.places)
  | .negSucc n => ofRatio d.digits (Nat.pow 10 (d.places + (n + 1)))

/-- There must be a digit, in front of the point or behind it. -/
def ofDigits? (cs : List Char) : Option Number :=
  let whole := cs.takeWhile Char.isDigit
  let (fraction, rest) := point (cs.dropWhile Char.isDigit)
  if whole = [] ∧ fraction = [] then none
  else (exponent? rest).map (ofScaled (.ofParts whole fraction))

/-- Names may be written with capitals. -/
def ofName? (cs : List Char) : Option Number :=
  let name := String.ofList (cs.map Char.toLower)
  if name = "inf" ∨ name = "infinity" then some (ofMagnitude infinityBits)
  else if name = "nan" then some notNumber
  else none

/-- The number that a text spells. -/
def ofText? (text : String) : Option Number :=
  let (negative, cs) := unsign text.toList
  (ofDigits? cs <|> ofName? cs).map fun x => if negative then -x else x

/-- Without an exponent the decimal is read as it stands. -/
theorem ofScaled_zero (d : Decimal) : ofScaled d 0 = ofDecimal d := by
  change ofRatio (d.digits * 1) _ = _
  rw [Nat.mul_one, ofDecimal]

theorem unsign_of_digit {c : Char} (cs : List Char) (hc : c.isDigit = true) :
    unsign (c :: cs) = (false, c :: cs) := by
  unfold unsign
  split
  · next h => cases h; cases hc
  · next h => cases h; cases hc
  · rfl

end Number

/-- Digits, and perhaps a point with digits behind it. -/
def Numeral (text : List Char) : Prop :=
  ∃ whole, whole ≠ [] ∧ (∀ c ∈ whole, c.isDigit = true) ∧
    (text = whole ∨ ∃ fraction, fraction ≠ [] ∧ (∀ c ∈ fraction, c.isDigit = true) ∧
      text = whole ++ '.' :: fraction)

namespace Piece

variable {whole fraction : List Char} (hne : whole ≠ []) (hwhole : ∀ c ∈ whole, c.isDigit = true)
  (hfraction : ∀ c ∈ fraction, c.isDigit = true)
include hne hwhole hfraction

/-- A number piece is spelled as a numeral. -/
theorem numeral_text : Numeral (number whole fraction).text := by
  refine ⟨whole, hne, hwhole, ?_⟩
  rw [text]
  cases fraction with
  | nil => exact .inl rfl
  | cons d fraction => exact .inr ⟨d :: fraction, List.cons_ne_nil _ _, hfraction, rfl⟩

/-- The number in a source is the one that its text spells. -/
theorem ofText?_text :
    Number.ofText? (String.ofList (number whole fraction).text) =
      some (.ofDecimal (.ofParts whole fraction)) := by
  obtain ⟨behind, htext, hhead, hpoint⟩ : ∃ behind, (number whole fraction).text = whole ++ behind ∧
      (∀ c ∈ behind.head?, c.isDigit = false) ∧ Number.point behind = (fraction, []) := by
    cases fraction with
    | nil => exact ⟨[], (List.append_nil whole).symm, nofun, rfl⟩
    | cons d fraction =>
        have hrun := takeWhile_append_of_head [] hfraction nofun
        rw [List.append_nil] at hrun
        refine ⟨'.' :: d :: fraction, rfl, ?_, Prod.ext hrun.1 hrun.2⟩
        rintro c ⟨⟩
        rfl
  obtain ⟨htake, hdrop⟩ := takeWhile_append_of_head behind hwhole hhead
  have hdigits :
      Number.ofDigits? (whole ++ behind) = some (.ofDecimal (.ofParts whole fraction)) := by
    rw [Number.ofDigits?, htake, hdrop, hpoint]
    dsimp only
    rw [if_neg (fun h => hne h.1), Number.exponent?, Option.map_some, Number.ofScaled_zero]
  have hsign : Number.unsign (whole ++ behind) = (false, whole ++ behind) := by
    obtain ⟨c, cs, rfl⟩ := List.exists_cons_of_ne_nil hne
    exact Number.unsign_of_digit _ (hwhole c List.mem_cons_self)
  rw [Number.ofText?, String.toList_ofList, htext, hsign]
  dsimp only
  rw [hdigits]
  rfl

/-- The point may be moved by a power of ten, and some texts spell no number. -/
example :
    Number.ofText? "1.50" = Number.ofText? "+15E-1" ∧
      [".", "1e", "1.2.3", ""].map Number.ofText? = [none, none, none, none] := by
  decide +kernel

end Piece

end Lox
