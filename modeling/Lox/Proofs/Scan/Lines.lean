import Lox.Proofs.Scan.Tokens

/-!
# Lines

Whatever is found in a source is found at a place, and the newlines in front of that place say which
line it is on.  A token is on the line on which its text ends.  So the lines of the tokens never go
down, and neither do those of the diagnostics.
-/

namespace Lox

/-! ## Places -/

/-- The line on which a text ends. -/
def lineBehind (cs : List Char) : Position := (1 : Position).behind cs

theorem lineBehind_append (cs ds : List Char) :
    lineBehind (cs ++ ds) = (lineBehind cs).behind ds := Position.behind_append 1 cs ds

/-- So many lines can be counted that the line of every front part of a text is the number of its
newlines, and one. -/
def Countable (cs : List Char) : Prop := cs.count '\n' < UInt32.size - 1

/-- A front part of a text has no more newlines than all of it. -/
theorem Countable.of_prefix {cs ds : List Char} (h : Countable ds) (hcs : cs <+: ds) :
    Countable cs :=
  Nat.lt_of_le_of_lt (hcs.sublist.count_le '\n') h

/-- Where the newlines can be counted, the line is their number and one. -/
theorem Countable.toNat_lineBehind {cs : List Char} (h : Countable cs) :
    (lineBehind cs : Nat) = 1 + cs.count '\n' := by
  have hfew : cs.count '\n' < UInt32.size - 1 := h
  have hone : (1 : Position).toNat = 1 := rfl
  rw [lineBehind, Position.behind, Position.toNat_add_ofNat, hone]
  rw [hone]
  omega

/-- As long as lines can be counted, they do not go down. -/
theorem lineBehind_le {cs ds : List Char} (hds : Countable ds) (h : cs <+: ds) :
    lineBehind cs ≤ lineBehind ds := by
  rw [UInt32.le_iff_toNat_le, (hds.of_prefix h).toNat_lineBehind, hds.toNat_lineBehind]
  exact Nat.add_le_add_left (h.sublist.count_le '\n') 1

/-- A piece of a source, with the text in front of it. -/
structure Placed where
  before : List Char
  piece : Piece

namespace Placed

/-- The source up to the end of the piece. -/
def upTo (p : Placed) : List Char := p.before ++ p.piece.text

/-- What is reported for the piece, and the line: that of a character which fits nowhere, and the
last line of the source where something is never closed. -/
def report? (source : List Char) (p : Placed) : Option (Problem × Position) :=
  match p.piece with
  | .stray c => some (.strayCharacter c, lineBehind p.before)
  | .openString _ => some (.unterminatedString, lineBehind source)
  | .openComment _ => some (.unterminatedComment, lineBehind source)
  | _ => none

end Placed

/-- The pieces at their places, the first one behind the text `before`. -/
def placed (before : List Char) : List Piece → List Placed
  | [] => []
  | p :: ps => ⟨before, p⟩ :: placed (before ++ p.text) ps

section

variable {before : List Char} {ps : List Piece}

/-- A placed piece stands behind the texts of those in front of it. -/
theorem exists_of_mem_placed {p : Placed} (h : p ∈ placed before ps) :
    ∃ qs rs, ps = qs ++ p.piece :: rs ∧ p.before = before ++ qs.flatMap Piece.text := by
  induction ps generalizing before with
  | nil => cases h
  | cons q ps ih =>
      rcases List.mem_cons.mp h with rfl | h
      · exact ⟨[], ps, rfl, (List.append_nil before).symm⟩
      · obtain ⟨qs, rs, hps, hbefore⟩ := ih h
        refine ⟨q :: qs, rs, by rw [hps]; rfl, ?_⟩
        rw [hbefore, List.flatMap_cons, List.append_assoc]

theorem prefix_before_of_mem_placed {p : Placed} (h : p ∈ placed before ps) :
    before <+: p.before := by
  obtain ⟨qs, -, -, hbefore⟩ := exists_of_mem_placed h
  exact ⟨_, hbefore.symm⟩

/-- Where a piece ends, a front part of the text ends. -/
theorem upTo_prefix_of_mem_placed {p : Placed} (h : p ∈ placed before ps) :
    p.upTo <+: before ++ ps.flatMap Piece.text := by
  obtain ⟨qs, rs, rfl, hbefore⟩ := exists_of_mem_placed h
  refine ⟨rs.flatMap Piece.text, ?_⟩
  rw [Placed.upTo, hbefore, List.flatMap_append, List.flatMap_cons]
  simp only [List.append_assoc]

/-- Each piece ends in front of the end of the next. -/
theorem pairwise_placed (before : List Char) (ps : List Piece) :
    (placed before ps).Pairwise fun p q => p.upTo <+: q.upTo := by
  induction ps generalizing before with
  | nil => exact .nil
  | cons p ps ih =>
      refine List.pairwise_cons.mpr ⟨fun q hq => ?_, ih _⟩
      exact (prefix_before_of_mem_placed hq).trans (List.prefix_append _ _)

end

/-! ## Tokens and problems at their places -/

/-- Each token is on the line on which its piece ends. -/
theorem tokens_scanPieces_placed (lexicon : Lexicon) (before : List Char) (ps : List Piece) :
    (scanPieces lexicon (lineBehind before) ps).tokens.map (fun t => (t.lexeme, t.line)) =
      ((placed before ps).filter (·.piece.isLexeme)).map
          (fun p => (String.ofList p.piece.text, lineBehind p.upTo)) ++
        [("", lineBehind (before ++ ps.flatMap Piece.text))] := by
  induction ps generalizing lexicon before with
  | nil => simp [scanPieces, placed]
  | cons p ps ih =>
      have ih := ih (p.find lexicon).2 (before ++ p.text)
      rw [lineBehind_append, List.append_assoc, ← List.flatMap_cons] at ih
      cases p with
      | string _ | number _ _ | word _ | punct _ =>
          have hline := lineBehind_append before
          simpa [scanPieces, placed, Piece.isLexeme, Piece.find, Placed.upTo, hline]
            using ih
      | _ => simpa [scanPieces, placed, Piece.isLexeme, Piece.find] using ih

/-- Each problem is on the line on which its piece ends as well. -/
theorem diagnostics_scanPieces_placed (lexicon : Lexicon) (before : List Char) (ps : List Piece) :
    (scanPieces lexicon (lineBehind before) ps).diagnostics.map (fun d => (d.problem, d.line)) =
      (placed before ps).filterMap fun p => p.piece.problem?.map (·, lineBehind p.upTo) := by
  induction ps generalizing lexicon before with
  | nil => rfl
  | cons p ps ih =>
      have ih := ih (p.find lexicon).2 (before ++ p.text)
      rw [lineBehind_append] at ih
      cases p with
      | stray _ | openString _ | openComment _ =>
          have hline := lineBehind_append before
          simpa [scanPieces, placed, Piece.problem?, Piece.find, Placed.upTo, hline]
            using ih
      | _ => simpa [scanPieces, placed, Piece.problem?, Piece.find] using ih

/-- A stray character is not a newline, and what is never closed runs to the end of the source. -/
theorem report?_eq {source : List Char} {ps : List Piece} (h : Piece.Tiling source ps) :
    ∀ p ∈ placed [] ps, p.piece.problem?.map (·, lineBehind p.upTo) = p.report? source := by
  intro p hp
  obtain ⟨qs, rs, hps, hbefore⟩ := exists_of_mem_placed hp
  have hfits : p.piece.Fits (rs.flatMap Piece.text) := Piece.Tiling.fits (hps ▸ h)
  have hsource : p.upTo ++ rs.flatMap Piece.text = source := by
    rw [← h.flatMap_text, hps, Placed.upTo, hbefore]
    simp
  obtain ⟨before, piece⟩ := p
  generalize rs.flatMap Piece.text = rest at hfits hsource
  cases hfits with
  | @stray c _ hblank =>
      have hc : c ≠ '\n' := by
        rintro rfl
        exact hblank (by decide)
      have hline : lineBehind (before ++ [c]) = lineBehind before := by
        rw [lineBehind_append, Position.behind_of_notMem (by simpa using hc.symm)]
      simp [Placed.report?, Placed.upTo, Piece.problem?, Piece.text, hline]
  | openString _ | openComment _ =>
      rw [List.append_nil] at hsource
      rw [hsource]
      rfl
  | _ => rfl

section

variable (lexicon : Lexicon) (source : String)

theorem tokens_scan_placed :
    (scan lexicon source).tokens.map (fun t => (t.lexeme, t.line)) =
      ((placed [] (pieces source.toList)).filter (·.piece.isLexeme)).map
          (fun p => (String.ofList p.piece.text, lineBehind p.upTo)) ++
        [("", lineBehind source.toList)] := by
  have htokens := tokens_scanPieces_placed lexicon [] (pieces source.toList)
  rwa [flatMap_text_pieces] at htokens

theorem diagnostics_scan_placed :
    (scan lexicon source).diagnostics.map (fun d => (d.problem, d.line)) =
      (placed [] (pieces source.toList)).filterMap
        fun p => p.piece.problem?.map (·, lineBehind p.upTo) :=
  diagnostics_scanPieces_placed lexicon [] (pieces source.toList)

/-! ## The order of lines -/

/-- No token stands on an earlier line than one in front of it. -/
def Token.Ordered (ts : List Token) : Prop := ts.Pairwise fun t t' => t.line ≤ t'.line

variable {source} (hsource : Countable source.toList)
include hsource

/-- No piece ends behind the line of the end. -/
theorem lineBehind_upTo_le {p : Placed} (hp : p ∈ placed [] (pieces source.toList)) :
    lineBehind p.upTo ≤ lineBehind source.toList := by
  have hprefix := upTo_prefix_of_mem_placed hp
  rw [flatMap_text_pieces] at hprefix
  exact lineBehind_le hsource hprefix

/-- The pieces of a source end on lines that do not go down. -/
theorem pairwise_lineBehind_upTo :
    (placed [] (pieces source.toList)).Pairwise
      fun p q => lineBehind p.upTo ≤ lineBehind q.upTo := by
  refine (pairwise_placed [] _).imp_of_mem fun _ hq hpq => lineBehind_le ?_ hpq
  have hprefix := upTo_prefix_of_mem_placed hq
  rw [flatMap_text_pieces] at hprefix
  exact hsource.of_prefix hprefix

/-- The lines of tokens do not go down. -/
theorem ordered_scan : Token.Ordered (scan lexicon source).tokens := by
  have hpairs : ((scan lexicon source).tokens.map fun t => (t.lexeme, t.line)).Pairwise
      fun x y => x.2 ≤ y.2 := by
    rw [tokens_scan_placed]
    refine List.pairwise_append.mpr ⟨?_, List.pairwise_singleton _ _, ?_⟩
    · exact List.pairwise_map.mpr (List.Pairwise.filter _ (pairwise_lineBehind_upTo hsource))
    · intro x hx y hy
      obtain ⟨p, hp, rfl⟩ := List.mem_map.mp hx
      rw [List.mem_singleton.mp hy]
      exact lineBehind_upTo_le hsource (List.mem_of_mem_filter hp)
  rwa [List.pairwise_map] at hpairs

/-- The lines of the diagnostics of a scan do not go down either. -/
theorem ordered_diagnostics_scan :
    (scan lexicon source).diagnostics.Pairwise fun d d' => d.line ≤ d'.line := by
  have hpairs : ((scan lexicon source).diagnostics.map fun d => (d.problem, d.line)).Pairwise
      fun x y => x.2 ≤ y.2 := by
    rw [diagnostics_scan_placed]
    refine List.pairwise_filterMap.mpr ((pairwise_lineBehind_upTo hsource).imp ?_)
    intro p q h x hx y hy
    obtain ⟨_, -, rfl⟩ := Option.map_eq_some_iff.mp hx
    obtain ⟨_, -, rfl⟩ := Option.map_eq_some_iff.mp hy
    exact h
  rwa [List.pairwise_map] at hpairs

/-- No token is behind the line of the end mark. -/
theorem line_le_of_mem_tokens {t : Token} (ht : t ∈ (scan lexicon source).tokens) :
    t.line ≤ lineBehind source.toList := by
  have hmem := List.mem_map_of_mem (f := fun t => (t.lexeme, t.line)) ht
  rw [tokens_scan_placed] at hmem
  rcases List.mem_append.mp hmem with hmem | hmem
  · obtain ⟨p, hp, hline⟩ := List.mem_map.mp hmem
    obtain ⟨-, hline⟩ := Prod.mk.inj hline
    exact hline ▸ lineBehind_upTo_le hsource (List.mem_of_mem_filter hp)
  · rw [(Prod.mk.inj (List.mem_singleton.mp hmem)).2]
    exact UInt32.le_refl _

/-- And no diagnostic of a scan is. -/
theorem line_le_of_mem_diagnostics {d : Diagnostic} (hd : d ∈ (scan lexicon source).diagnostics) :
    d.line ≤ lineBehind source.toList := by
  have hmem := List.mem_map_of_mem (f := fun d => (d.problem, d.line)) hd
  rw [diagnostics_scan_placed] at hmem
  obtain ⟨p, hp, hline⟩ := List.mem_filterMap.mp hmem
  obtain ⟨_, -, hline⟩ := Option.map_eq_some_iff.mp hline
  exact (Prod.mk.inj hline).2 ▸ lineBehind_upTo_le hsource hp

end

/-- The tiling of a source says which line everything is on.  A token is on the line on which its
text ends, and the end mark on that on which the source ends.  A character that fits nowhere is
reported on its own line, and what is never closed on the line of the end mark.  With fewer than
`2 ^ 32 - 1` newlines in the source, the line on which a front part of it ends is the number of its
newlines and one, and the lines go down neither from token to token nor from diagnostic to
diagnostic. -/
theorem scan_counts_lines (lexicon : Lexicon) (source : String) :
    let scanned := scan lexicon source
    ∃ ps : List Piece, Piece.Tiling source.toList ps ∧
      scanned.tokens.map (fun t => (t.lexeme, t.line)) =
        ((placed [] ps).filter (·.piece.isLexeme)).map
            (fun p => (String.ofList p.piece.text, lineBehind p.upTo)) ++
          [("", lineBehind source.toList)] ∧
      scanned.diagnostics.map (fun d => (d.problem, d.line)) =
        (placed [] ps).filterMap (·.report? source.toList) ∧
      (source.toList.count '\n' < UInt32.size - 1 →
        (∀ cs, cs <+: source.toList → (lineBehind cs).toNat = 1 + cs.count '\n') ∧
        Token.Ordered scanned.tokens ∧
        scanned.diagnostics.Pairwise fun d d' => d.line ≤ d'.line) := by
  intro scanned
  refine ⟨pieces source.toList, Piece.tiling_pieces _, tokens_scan_placed _ source, ?_,
    fun hfew => ⟨fun cs hcs => ?_, ordered_scan _ hfew, ordered_diagnostics_scan _ hfew⟩⟩
  · rw [diagnostics_scan_placed]
    exact List.filterMap_congr (report?_eq (Piece.tiling_pieces _))
  · have hsource : Countable source.toList := hfew
    exact (hsource.of_prefix hcs).toNat_lineBehind

/-- A string and a comment with a newline in each, and a string that is never closed. -/
theorem scan_counts_lines_inside :
    let source := "\"a\nb\" /*\n*/ x @\n\""
    let scanned := scan .reserved source
    source.toList.count '\n' < UInt32.size - 1 ∧ Token.Ordered scanned.tokens ∧
      (scanned.diagnostics.Pairwise fun d d' => d.line ≤ d'.line) ∧
      scanned.tokens.map Token.line = [2, 3, 4] ∧
      scanned.diagnostics =
        [⟨3, .line, .strayCharacter '@'⟩, ⟨4, .line, .unterminatedString⟩] := by
  intro source scanned
  have hfew : source.toList.count '\n' < UInt32.size - 1 := by decide
  obtain ⟨_, -, -, -, hbound⟩ := scan_counts_lines .reserved source
  obtain ⟨-, htokens, hdiagnostics⟩ := hbound hfew
  exact ⟨hfew, htokens, hdiagnostics, by decide +kernel, by decide +kernel⟩

end Lox
