import Lox.Proofs.Number.Text
import Lox.Proofs.Scan.Joining

/-!
# Tokens written out and scanned again

`Kind.text` writes a text for each kind of token, and scanning the text finds the kind.  With blanks
in between this holds of any number of tokens, because no token goes on over a blank.  The lexicon
must know the names of the first scan, so that they get the same symbols again.
-/

namespace Lox

/-! ## The digits of a decimal -/

namespace Decimal

variable (d : Decimal)

/-- What is written of a decimal is digits. -/
theorem isDigit_of_mem_written : ∀ c ∈ d.written, c.isDigit = true := by
  intro c hc
  rcases List.mem_append.mp hc with hzero | hshown
  · rw [List.eq_of_mem_replicate hzero]
    rfl
  · exact Nat.isDigit_of_mem_toDigits (by decide) (by decide) hshown

theorem whole_ne_nil : d.whole ≠ [] := by
  have hlength := congrArg List.length d.whole_append_fraction
  have hplaces := d.places_lt_length_written
  rw [List.length_append, length_fraction] at hlength
  rw [← List.length_pos_iff]
  omega

/-- The decimal as a piece of source text. -/
def piece : Piece := .number d.whole d.fraction

/-- The piece of a decimal is its text. -/
theorem text_piece : d.piece.text = d.text := by
  have hpoint : d.fraction.isEmpty = true ↔ d.places = 0 := by
    rw [List.isEmpty_iff, ← List.length_eq_zero_iff, length_fraction]
  simp only [piece, Piece.text, text, hpoint]

/-- The text of a decimal is a number, whatever was written. -/
theorem fits_piece : d.piece.Fits [] := by
  refine .number d.whole_ne_nil ?_ ?_ nofun ?_
  · exact fun c hc => d.isDigit_of_mem_written c (List.mem_of_mem_take hc)
  · exact fun c hc => d.isDigit_of_mem_written c (List.mem_of_mem_drop hc)
  · rintro - _ ⟨_, ⟨⟩⟩

end Decimal

/-! ## Blanks between tokens -/

namespace Piece

/-- No lexeme goes on over a blank. -/
theorem Fits.before_blank {p : Piece} (h : p.Fits []) (hlexeme : p.isLexeme = true)
    {rest : List Char} (hrest : ∀ c ∈ rest.head?, c = ' ') : p.Fits rest := by
  cases h with
  | string hbody => exact .string hbody
  | number hne hwhole hfraction _ _ =>
      refine .number hne hwhole hfraction ?_ ?_
      · intro c hc
        rw [hrest c hc]
        rfl
      · rintro - d ⟨tail, rfl⟩
        exact absurd (hrest '.' rfl) (by decide)
  | word hfirst hletters _ =>
      refine .word hfirst hletters fun c hc => ?_
      rw [hrest c hc]
      decide
  | @punct p _ _ _ =>
      refine .punct ?_ ?_
      · intro q hq
        rw [← String.length_toList, ← String.length_toList]
        rcases spelling_cases q with ⟨d, hd, -⟩ | ⟨d, hd, -⟩
        · rw [hd, List.length_singleton, Nat.succ_le_iff]
          exact List.length_pos_iff.mpr (text_punct_ne_nil p)
        · rcases spelling_cases p with ⟨c, hc, -⟩ | ⟨c, hc, -⟩
          · rw [hd, hc] at hq
            obtain ⟨-, tail, rfl⟩ := List.cons_prefix_cons.mp hq
            exact absurd (hrest '=' rfl) (by decide)
          · rw [hd, hc]
            exact Nat.le_refl 2
      · intro _ c hc
        rw [hrest c hc]
        decide
  | _ => cases hlexeme

end Piece

open Piece

section

variable {lexicon : Lexicon} {line : Position}

/-- A piece in front makes no difference to those behind. -/
theorem scanPieces_cons_congr {ps qs : List Piece}
    (h : ∀ lexicon line, scanPieces lexicon line ps = scanPieces lexicon line qs) (p : Piece) :
    scanPieces lexicon line (p :: ps) = scanPieces lexicon line (p :: qs) := by
  rw [scanPieces, scanPieces, h]

/-- A blank between two pieces leaves no trace. -/
theorem scanPieces_intersperse (ps : List Piece) :
    scanPieces lexicon line (ps.intersperse (.blank ' ')) = scanPieces lexicon line ps := by
  induction ps generalizing lexicon line with
  | nil => rfl
  | cons p ps ih =>
      cases ps with
      | nil => rfl
      | cons q ps =>
          have hblank {lexicon : Lexicon} {line : Position} :
              scanPieces lexicon line (.blank ' ' :: (q :: ps).intersperse (.blank ' ')) =
                scanPieces lexicon line (q :: ps) := by
            rw [scanPieces, Position.behind_of_notMem (by decide)]
            exact ih
          rw [List.intersperse_cons_cons]
          exact scanPieces_cons_congr (fun _ _ => hblank) p

end

/-! ## A piece for each kind -/

/-- The piece is the text of the kind, and every lexicon that has met the words of `lexicon` finds
the kind in it. -/
structure Respells (lexicon : Lexicon) (p : Piece) (k : Kind) : Prop where
  isLexeme : p.isLexeme = true
  fits : p.Fits []
  text : p.text = k.text.toList
  find : ∀ later : Lexicon, lexicon.words <+: later.words → (p.find later).1 = .token k

/-- What respells a kind does so in any lexicon that knows more names. -/
theorem Respells.mono {lexicon later : Lexicon} {p : Piece} {k : Kind} (h : Respells lexicon p k)
    (hlater : lexicon.words <+: later.words) : Respells later p k :=
  { h with find := fun last hlast => h.find last (hlater.trans hlast) }

namespace Piece

variable {lexicon : Lexicon}

/-- A word that means something is the text of it. -/
theorem Means.text_word {letters : List Char} {k : Kind} (h : (word letters).Means k) :
    letters = k.text.toList := by
  cases h with
  | keyword hspelling => rw [Kind.text, hspelling, String.toList_ofList]
  | name _ hname => rw [Kind.text, hname, String.toList_ofList]

/-- The kind that is found in a piece is written out as a piece in which it is found again.  Of a
number the text may be another one than it was read from. -/
theorem exists_respells (h : lexicon.Proper) {p : Piece} (hp : p.Fits []) {k : Kind}
    (hfind : (p.find lexicon).1 = .token k) (hfinite : ∀ x, k = .number x → x.isFinite = true) :
    ∃ q, Respells (p.find lexicon).2 q k := by
  cases p with
  | string body =>
      cases hfind
      refine ⟨.string body, rfl, hp, ?_, fun _ _ => rfl⟩
      simp [text, Kind.text]
  | punct p =>
      cases hfind
      exact ⟨.punct p, rfl, hp, rfl, fun _ _ => rfl⟩
  | word letters =>
      have hmeans := means_kind_intern h letters
      cases hfind
      refine ⟨.word letters, rfl, hp, hmeans.text_word, fun later hlater => ?_⟩
      exact congrArg (fun x => Finding.token x.kind) (Lexicon.intern_of_prefix hlater)
  | number whole fraction =>
      obtain ⟨m, hm⟩ := Number.exists_ofDecimal_eq (.ofParts whole fraction)
      cases hfind
      rw [hm] at hfinite ⊢
      have hfinite := Number.isFinite_ofMagnitude.mp (hfinite _ rfl)
      obtain ⟨d, htext, hread⟩ := Number.exists_text_ofMagnitude hfinite
      refine ⟨d.piece, rfl, d.fits_piece, ?_, fun _ _ => ?_⟩
      · rw [d.text_piece, Kind.text, htext, String.toList_ofList]
      · rw [Decimal.piece, find, d.ofParts_whole_fraction, hread]
  | _ => cases hfind

end Piece

/-! ## All tokens of a scan -/

/-- The kinds of the tokens in front of the end mark. -/
def Scan.kinds (s : Scan) : List Kind := (Token.body s.tokens).map Token.kind

section

variable {lexicon later : Lexicon} {line : Position}

/-- The kinds of a scan are that of the first piece, if it is a lexeme, and those of the others. -/
theorem kinds_scanPieces_cons (p : Piece) (ps : List Piece) :
    (scanPieces lexicon line (p :: ps)).kinds =
      (match (p.find lexicon).1 with
        | .token k => [k]
        | _ => []) ++ (scanPieces (p.find lexicon).2 (line.behind p.text) ps).kinds := by
  have hne := p.find_ne_eof lexicon
  rw [scanPieces]
  cases hfind : (p.find lexicon).1 with
  | skipped => rfl
  | problem _ => rfl
  | token k =>
      have hk : k ≠ .eof := by
        rintro rfl
        exact hne hfind
      simp [Scan.kinds, Token.body, Token.isEof, hk]

/-- Every kind that was scanned has a piece which respells it, if no number overflowed. -/
theorem exists_respells_scanPieces (h : lexicon.Proper) {cs : List Char} {ps : List Piece}
    (htiling : Tiling cs ps)
    (hfinite : ∀ x, .number x ∈ (scanPieces lexicon line ps).kinds → x.isFinite = true) :
    ∃ qs, List.Forall₂ (Respells (lexicon.reading ps)) qs (scanPieces lexicon line ps).kinds := by
  induction htiling generalizing lexicon line with
  | nil => exact ⟨[], .nil⟩
  | @cons p rest ps hp _ ih =>
      rw [kinds_scanPieces_cons] at hfinite ⊢
      obtain ⟨qs, hqs⟩ := ih (proper_find h p) fun x hx => hfinite x (List.mem_append_right _ hx)
      cases hfind : (p.find lexicon).1 with
      | skipped => exact ⟨qs, hqs⟩
      | problem _ => exact ⟨qs, hqs⟩
      | token k =>
          rw [hfind] at hfinite
          obtain ⟨q, hq⟩ := exists_respells h (hp.of_prefix List.nil_prefix) hfind (by
            rintro x rfl
            exact hfinite x (List.mem_append_left _ (List.mem_singleton_self _)))
          exact ⟨q :: qs, .cons (hq.mono (Lexicon.words_prefix_reading _ ps)) hqs⟩

/-- The pieces that are written for the kinds are scanned as these kinds. -/
theorem scanPieces_of_respells {ps : List Piece} {ks : List Kind}
    (h : List.Forall₂ (Respells lexicon) ps ks) (hlater : lexicon.words <+: later.words) :
    (scanPieces later line ps).diagnostics = [] ∧
      (scanPieces later line ps).tokens.map Token.kind = ks ++ [.eof] := by
  induction h generalizing later line with
  | nil => exact ⟨rfl, rfl⟩
  | @cons p k ps ks hp _ ih =>
      have hgrown := later.words_prefix_reading [p]
      obtain ⟨hdiagnostics, hkinds⟩ := @ih (p.find later).2 (line.behind p.text)
        (hlater.trans hgrown)
      rw [scanPieces, hp.find later hlater]
      exact ⟨hdiagnostics, congrArg (List.cons k) hkinds⟩

/-- What is written for the kinds, with blanks in between, is cut into the same pieces again. -/
theorem tiling_of_respells {ps : List Piece} {ks : List Kind}
    (h : List.Forall₂ (Respells lexicon) ps ks) :
    Tiling ([' '].intercalate (ks.map fun k => k.text.toList)) (ps.intersperse (.blank ' ')) := by
  induction h with
  | nil => exact .nil
  | @cons p k ps ks hp hps ih =>
      rw [List.map_cons, ← hp.text]
      cases hps with
      | nil => simpa using Tiling.cons hp.fits .nil
      | cons hq hps =>
          rw [List.map_cons] at ih ⊢
          rw [List.intercalate_cons_cons, List.intersperse_cons_cons, List.append_assoc]
          refine .cons (hp.fits.before_blank hp.isLexeme ?_) (.cons (.blank (by decide)) ih)
          rintro _ ⟨⟩
          rfl

/-- The joined texts are cut into these pieces, with blanks between them. -/
theorem pieces_intercalate_text {ps : List Piece} {ks : List Kind}
    (h : List.Forall₂ (Respells lexicon) ps ks) :
    pieces (" ".intercalate (ks.map Kind.text)).toList = ps.intersperse (.blank ' ') := by
  rw [String.toList_intercalate, List.map_map]
  exact (tiling_of_respells h).eq_pieces

end

/-- The tokens of a source, written out with blanks in between and scanned again, are tokens of the
same kinds, and nothing is reported.  Names keep their symbols, whatever names the lexicon has met
since.  Of an infinite number the text is not a number. -/
theorem scan_joined_texts (names more : List String) (source : String)
    (hfinite : ∀ x, .number x ∈ (scan (Lexicon.reserved.knowing names) source).kinds →
      x.isFinite = true) :
    let scanned := scan (Lexicon.reserved.knowing names) source
    let again := scan (scanned.lexicon.knowing more)
      (" ".intercalate (scanned.kinds.map Kind.text))
    again.diagnostics = [] ∧ again.tokens.map Token.kind = scanned.kinds ++ [.eof] := by
  intro scanned again
  obtain ⟨qs, hqs⟩ := exists_respells_scanPieces (Lexicon.proper_reserved.knowing names)
    (tiling_pieces source.toList) hfinite
  have hagain : again = scanPieces (scanned.lexicon.knowing more) 1 qs := by
    rw [← scanPieces_intersperse, ← pieces_intercalate_text hqs]
    rfl
  rw [hagain]
  refine scanPieces_of_respells hqs ?_
  rw [← @lexicon_scanPieces _ 1]
  exact scanned.lexicon.words_prefix_knowing more

/-- A newline in a string stays, and zeros at the end of a number do not. -/
theorem scan_joined_texts_assignment :
    let scanned := scan (Lexicon.reserved.knowing ["y"]) "var x_1=\"a\nb\"!=02.50; // y"
    let joined := "var x_1 = \"a\nb\" != 2.5 ;"
    (∀ x, .number x ∈ scanned.kinds → x.isFinite = true) ∧
      " ".intercalate (scanned.kinds.map Kind.text) = joined ∧
      (scan (scanned.lexicon.knowing ["z"]) joined).diagnostics = [] ∧
      (scan (scanned.lexicon.knowing ["z"]) joined).tokens.map Token.kind =
        scanned.kinds ++ [.eof] := by
  intro scanned joined
  have hkinds : scanned.kinds = [.keyword .var_, .identifier ⟨18, "x_1"⟩, .punct .equal,
      .string "a\nb", .punct .bangEqual, .number ⟨0x4004000000000000⟩, .punct .semicolon] := by
    decide +kernel
  have hfinite : ∀ x, .number x ∈ scanned.kinds → x.isFinite = true := by
    intro x hx
    obtain rfl : x = ⟨0x4004000000000000⟩ := by simpa [hkinds] using hx
    decide
  have hjoined : " ".intercalate (scanned.kinds.map Kind.text) = joined := by
    decide +kernel
  have hagain (text : String) (htext : " ".intercalate (scanned.kinds.map Kind.text) = text) :
      (scan (scanned.lexicon.knowing ["z"]) text).diagnostics = [] ∧
        (scan (scanned.lexicon.knowing ["z"]) text).tokens.map Token.kind =
          scanned.kinds ++ [.eof] := by
    rw [← htext]
    exact scan_joined_texts ["y"] ["z"] "var x_1=\"a\nb\"!=02.50; // y" hfinite
  exact ⟨hfinite, hjoined, hagain joined hjoined⟩

end Lox
