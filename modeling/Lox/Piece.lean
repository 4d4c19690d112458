import Lox.Token

/-!
# Pieces of a source text

A source text is cut into pieces, each as long as it can be: blanks, comments, words, numbers,
strings, punctuation and characters that fit nowhere.  Main statement: the texts of the pieces,
one after the other, are the source text.
-/

namespace Lox

/-- A stretch of source text.  `openComment` and `openString` run to the end of the source because
nothing closes them. -/
inductive Piece
  | blank (c : Char)
  | lineComment (body : List Char)
  | blockComment (body : List Char)
  | openComment (body : List Char)
  | string (body : List Char)
  | openString (body : List Char)
  | number (whole fraction : List Char)
  | word (letters : List Char)
  | punct (p : Punct)
  | stray (c : Char)
deriving DecidableEq

namespace Piece

/-- The source text of a piece.  The body of a block comment includes what closes it. -/
def text : Piece → List Char
  | blank c | stray c => [c]
  | lineComment body => '/' :: '/' :: body
  | blockComment body | openComment body => '/' :: '*' :: body
  | string body => '"' :: (body ++ ['"'])
  | openString body => '"' :: body
  | number whole fraction => if fraction.isEmpty then whole else whole ++ '.' :: fraction
  | word letters => letters
  | punct p => p.spelling.toList

def isBlank (c : Char) : Bool := c == ' ' || c == '\t' || c == '\r' || c == '\n'

def startsWord (c : Char) : Bool := c.isAlpha || c == '_'

def continuesWord (c : Char) : Bool := c.isAlphanum || c == '_'

/-- Punctuation of one character. -/
def single? : Char → Option Punct
  | '(' => some .leftParen
  | ')' => some .rightParen
  | '\x7b' => some .leftCurly
  | '\x7d' => some .rightCurly
  | ',' => some .comma
  | '.' => some .dot
  | '-' => some .minus
  | '+' => some .plus
  | ';' => some .semicolon
  | '/' => some .slash
  | '*' => some .star
  | '?' => some .question
  | ':' => some .colon
  | '!' => some .bang
  | '=' => some .equal
  | '<' => some .less
  | '>' => some .greater
  | _ => none

/-- Punctuation of two characters of which the second is `=`, by the first. -/
def withEqual? : Char → Option Punct
  | '!' => some .bangEqual
  | '=' => some .equalEqual
  | '<' => some .lessEqual
  | '>' => some .greaterEqual
  | _ => none

/-- The punctuation, or stray character, at the front of `c :: cs`. -/
def mark (c : Char) (cs : List Char) : Piece × List Char :=
  match withEqual? c, cs with
  | some p, '=' :: rest => (punct p, rest)
  | _, _ => ((single? c).elim (stray c) punct, cs)

/-- The number at the front of `c :: cs`, whose first digit is `c`.  A point belongs to the number
only if a digit follows it. -/
def numeral (c : Char) (cs : List Char) : Piece × List Char :=
  let whole := c :: cs.takeWhile Char.isDigit
  match cs.dropWhile Char.isDigit with
  | '.' :: d :: rest =>
    if d.isDigit then
      (number whole (d :: rest.takeWhile Char.isDigit), rest.dropWhile Char.isDigit)
    else (number whole [], '.' :: d :: rest)
  | rest => (number whole [], rest)

/-- The string whose opening quote stands before `cs`. -/
def quoted (cs : List Char) : Piece × List Char :=
  match cs.dropWhile (· != '"') with
  | [] => (openString cs, [])
  | _ :: rest => (string (cs.takeWhile (· != '"')), rest)

/-- Splits the text behind the mark that closes the last of the comments that are open.  `depth`
counts these in thirty-two bits, of which one is the sign: where one more is opened than can be
counted, the count goes below zero, and the text is split there as if all were closed. -/
def closeComment (depth : Int32) (cs : List Char) : Option (List Char × List Char) :=
  if 0 < depth then
    match cs with
    | [] => none
    | '/' :: '*' :: cs =>
      (closeComment (depth + 1) cs).map fun (body, rest) => ('/' :: '*' :: body, rest)
    | '*' :: '/' :: cs =>
      (closeComment (depth - 1) cs).map fun (body, rest) => ('*' :: '/' :: body, rest)
    | c :: cs => (closeComment depth cs).map fun (body, rest) => (c :: body, rest)
  else some ([], cs)

/-- The comment or slash whose first character stands before `cs`. -/
def slashed (cs : List Char) : Piece × List Char :=
  match cs with
  | '/' :: rest => (lineComment (rest.takeWhile (· != '\n')), rest.dropWhile (· != '\n'))
  | '*' :: rest =>
    match closeComment 1 rest with
    | some (body, rest) => (blockComment body, rest)
    | none => (openComment rest, [])
  | _ => (punct .slash, cs)

/-- The first piece of `c :: cs` and the text behind it. -/
def next (c : Char) (cs : List Char) : Piece × List Char :=
  if isBlank c then (blank c, cs)
  else if startsWord c then (word (c :: cs.takeWhile continuesWord), cs.dropWhile continuesWord)
  else if c.isDigit then numeral c cs
  else if c = '"' then quoted cs
  else if c = '/' then slashed cs
  else mark c cs

theorem text_single? {c : Char} {p : Punct} (h : single? c = some p) :
    (punct p).text = [c] := by
  unfold single? at h
  split at h <;> cases h <;> rfl

theorem text_withEqual? {c : Char} {p : Punct} (h : withEqual? c = some p) :
    (punct p).text = [c, '='] := by
  unfold withEqual? at h
  split at h <;> cases h <;> rfl

/-- Punctuation and the text behind it are the text it was split from. -/
theorem text_mark (c : Char) (cs : List Char) : (mark c cs).1.text ++ (mark c cs).2 = c :: cs := by
  unfold mark
  split
  · next h => simp [text_withEqual? h]
  · cases h : single? c with
    | none => simp [text]
    | some p => simp [text_single? h]

/-- So it is with a number. -/
theorem text_numeral (c : Char) (cs : List Char) :
    (numeral c cs).1.text ++ (numeral c cs).2 = c :: cs := by
  have split_cs := List.takeWhile_append_dropWhile (p := Char.isDigit) (l := cs)
  unfold numeral
  split
  · next d rest h =>
    rw [h] at split_cs
    split <;> simp [text, split_cs]
  · simp [text]

/-- So it is with a string, whether or not it is closed. -/
theorem text_quoted (cs : List Char) : (quoted cs).1.text ++ (quoted cs).2 = '"' :: cs := by
  unfold quoted
  split
  · simp [text]
  · next c rest h =>
    have hc : c = '"' := by
      have := List.head_dropWhile_not (· != '"') (l := cs) (by simp [h])
      simpa [h] using this
    have split_cs := List.takeWhile_append_dropWhile (p := (· != '"')) (l := cs)
    rw [h, hc] at split_cs
    simp [text, split_cs]

section

variable {depth : Int32}

/-- Where no comment is open, the text is split in front of its first character. -/
theorem closeComment_of_not_pos (h : ¬0 < depth) (cs : List Char) :
    closeComment depth cs = some ([], cs) := by
  rw [closeComment.eq_def, if_neg h]

variable (h : 0 < depth) (cs : List Char)
include h

/-- Another opening mark opens another comment. -/
theorem closeComment_open :
    closeComment depth ('/' :: '*' :: cs) =
      (closeComment (depth + 1) cs).map fun (body, rest) => ('/' :: '*' :: body, rest) :=
  (closeComment.eq_def _ _).trans (if_pos h)

/-- A closing mark closes the last one that was opened. -/
theorem closeComment_close :
    closeComment depth ('*' :: '/' :: cs) =
      (closeComment (depth - 1) cs).map fun (body, rest) => ('*' :: '/' :: body, rest) :=
  (closeComment.eq_def _ _).trans (if_pos h)

/-- Any other character belongs to the comment. -/
theorem closeComment_char {c : Char} {cs : List Char} (hopen : ¬['/', '*'] <+: c :: cs)
    (hclose : ¬['*', '/'] <+: c :: cs) :
    closeComment depth (c :: cs) =
      (closeComment depth cs).map fun (body, rest) => (c :: body, rest) := by
  rw [closeComment.eq_def, if_pos h]
  split
  · next heq => cases heq
  · next cs heq => exact absurd ⟨cs, heq.symm⟩ hopen
  · next cs heq => exact absurd ⟨cs, heq.symm⟩ hclose
  · next heq =>
    cases heq
    rfl

end

/-- What closes a comment and the text behind it are the text it was split from. -/
theorem closeComment_append {depth : Int32} {cs body rest : List Char}
    (h : closeComment depth cs = some (body, rest)) : body ++ rest = cs := by
  fun_induction closeComment depth cs generalizing body rest with
  | case1 => cases h
  | case2 depth _ cs ih | case3 depth _ cs ih =>
    obtain ⟨⟨b, r⟩, hb, ⟨⟩⟩ := Option.map_eq_some_iff.1 h
    simp [ih hb]
  | case4 depth _ c cs _ _ ih =>
    obtain ⟨⟨b, r⟩, hb, ⟨⟩⟩ := Option.map_eq_some_iff.1 h
    simp [ih hb]
  | case5 => cases h; rfl

theorem text_slashed (cs : List Char) : (slashed cs).1.text ++ (slashed cs).2 = '/' :: cs := by
  unfold slashed
  split
  · simp [text]
  · split
    · next h => simp [text, closeComment_append h]
    · simp [text]
  · rfl

/-- Splitting off the first piece loses nothing. -/
theorem text_next (c : Char) (cs : List Char) : (next c cs).1.text ++ (next c cs).2 = c :: cs := by
  unfold next
  split
  · simp [text]
  split
  · simp [text]
  split
  · exact text_numeral c cs
  split
  · next h => subst h; exact text_quoted cs
  split
  · next h => subst h; exact text_slashed cs
  · exact text_mark c cs

theorem text_punct_ne_nil (p : Punct) : (punct p).text ≠ [] := by
  cases p <;> decide

/-- Every piece has text. -/
theorem text_next_ne_nil (c : Char) (cs : List Char) : (next c cs).1.text ≠ [] := by
  have mark_ne_nil : (mark c cs).1.text ≠ [] := by
    unfold mark
    split
    · exact text_punct_ne_nil _
    · cases single? c with
      | none => simp [text]
      | some p => exact text_punct_ne_nil p
  have numeral_ne_nil : (numeral c cs).1.text ≠ [] := by
    unfold numeral
    split
    · split <;> simp [text]
    · simp [text]
  have quoted_ne_nil : (quoted cs).1.text ≠ [] := by
    unfold quoted
    split <;> simp [text]
  have slashed_ne_nil : (slashed cs).1.text ≠ [] := by
    unfold slashed
    split
    · simp [text]
    · split <;> simp [text]
    · exact text_punct_ne_nil .slash
  unfold next
  repeat' split
  all_goals first | assumption | simp [text]

theorem length_next_lt (c : Char) (cs : List Char) : (next c cs).2.length < (c :: cs).length := by
  have sum := congrArg List.length (text_next c cs)
  have positive := List.length_pos_iff.2 (text_next_ne_nil c cs)
  simp at sum ⊢
  omega

end Piece

/-- The pieces of a source text, in order. -/
def pieces : List Char → List Piece
  | [] => []
  | c :: cs => (Piece.next c cs).1 :: pieces (Piece.next c cs).2
termination_by cs => cs.length
decreasing_by exact Piece.length_next_lt c cs

/-- Cutting a text into pieces loses nothing. -/
theorem flatMap_text_pieces (cs : List Char) : (pieces cs).flatMap Piece.text = cs := by
  fun_induction pieces cs with
  | case1 => rfl
  | case2 c cs ih => simp [ih, Piece.text_next]

end Lox
