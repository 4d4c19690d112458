import Lox.Proofs.Grammar.Boundary
import Lox.Proofs.Grammar.Trail
import Lox.Proofs.Scan.Lines
import Lox.Session

/-!
# The order of diagnostics

The lines of tokens never go down, and so neither do those of diagnostics that point at tokens
further and further on.  Only late problems come behind others that point further on.  When the
diagnostics of both passes are merged, those of one line stay as they were recorded.
-/

namespace Lox

/-! ## Lines of tokens -/

namespace Token

/-- The line of the end is that of a token. -/
theorem exists_stopLine {ts : List Token} (hts : ts ≠ []) : ∃ t ∈ ts, stopLine ts = t.line := by
  rw [stopLine]
  cases hfind : ts.find? isEof with
  | some t => exact ⟨t, List.mem_of_find?_eq_some hfind, rfl⟩
  | none =>
      refine ⟨ts.getLast hts, List.getLast_mem hts, ?_⟩
      rw [List.getLast?_eq_some_getLast hts]
      rfl

/-- No token in front of the end is on a later line than the end. -/
theorem Ordered.le_stopLine {ts : List Token} (h : Ordered ts) :
    ∀ t ∈ body ts, t.line ≤ stopLine ts := by
  induction ts with
  | nil => exact List.forall_mem_nil _
  | cons t ts ih =>
      obtain ⟨hle, hordered⟩ := List.pairwise_cons.mp h
      by_cases heof : t.kind = .eof
      · have hbody : body (t :: ts) = [] := by simp [body, isEof, heof]
        rw [hbody]
        exact List.forall_mem_nil _
      · have hbody : body (t :: ts) = t :: body ts := by simp [body, isEof, heof]
        rw [hbody]
        by_cases hts : ts = []
        · subst hts
          exact List.forall_mem_singleton.mpr (by simp [stopLine, isEof, heof])
        · have hstop : stopLine (t :: ts) = stopLine ts :=
            stopLine_append (List.forall_mem_singleton.mpr heof) hts
          obtain ⟨u, hu, hline⟩ := exists_stopLine hts
          rw [hstop]
          exact List.forall_mem_cons.mpr ⟨hline ▸ hle u hu, ih hordered⟩

/-- The lines go up in what is left of the tokens, too. -/
theorem Ordered.of_suffix {ts us : List Token} (h : Ordered ts) (hus : us <:+ ts) : Ordered us :=
  h.sublist hus.sublist

theorem ordered_body {ts : List Token} (h : Ordered ts) : Ordered (body ts) :=
  h.sublist (List.takeWhile_sublist _)

end Token

/-! ## Lines of diagnostics -/

/-- What is found further on does not point at an earlier line. -/
theorem Diagnostic.line_atHead_le {stop : Position} {ts us : List Token}
    {problem problem' : Problem} (hordered : Token.Ordered ts) (hstop : ∀ t ∈ ts, t.line ≤ stop)
    (hus : us <:+ ts) :
    (atHead stop ts problem).line ≤ (atHead stop us problem').line := by
  cases ts with
  | nil =>
      obtain rfl := List.suffix_nil.mp hus
      exact UInt32.le_refl _
  | cons t ts =>
      cases us with
      | nil => exact hstop t List.mem_cons_self
      | cons u us =>
          rcases List.suffix_cons_iff.mp hus with heq | hus
          · rw [List.cons.inj heq |>.1]
            exact UInt32.le_refl _
          · exact (List.pairwise_cons.mp hordered).1 u (hus.subset List.mem_cons_self)

/-- Of two sightings in a row the second is on no earlier line, or its problem is a late one. -/
theorem Sighting.Precedes.line_le {stop : Position} {ts : List Token} {s s' : Sighting}
    (h : s.Precedes s') (hordered : Token.Ordered ts) (hstop : ∀ t ∈ ts, t.line ≤ stop)
    (hs : s.tokens <:+ ts) :
    (s.diagnostic stop).line ≤ (s'.diagnostic stop).line ∨ s'.problem.isLate = true := by
  refine h.imp_left fun h => ?_
  exact Diagnostic.line_atHead_le (hordered.of_suffix hs) (fun t ht => hstop t (hs.subset ht)) h

theorem Sighting.problem_diagnostic (stop : Position) (s : Sighting) :
    (s.diagnostic stop).problem = s.problem := by
  obtain ⟨tokens, problem⟩ := s
  cases tokens <;> rfl

/-! ## Merging -/

namespace Session

theorem line_trans (a b c : Diagnostic) (hab : decide (a.line ≤ b.line) = true)
    (hbc : decide (b.line ≤ c.line) = true) : decide (a.line ≤ c.line) = true := by
  simp only [decide_eq_true_eq] at *
  exact UInt32.le_trans hab hbc

theorem line_total (a b : Diagnostic) :
    (decide (a.line ≤ b.line) || decide (b.line ≤ a.line)) = true := by
  simp only [Bool.or_eq_true, decide_eq_true_eq]
  exact UInt32.le_total _ _

/-- The lines of the merged diagnostics never go down. -/
theorem pairwise_merged (scanned parsed : List Diagnostic) :
    (merged scanned parsed).Pairwise fun d d' => d.line ≤ d'.line := by
  have hsorted := List.pairwise_mergeSort line_trans line_total (scanned ++ parsed)
  exact hsorted.imp of_decide_eq_true

/-- On each line the diagnostics of the scan come first, and both are in the order in which they
were recorded: those of one line are sorted by line as they are, and sorting leaves them so. -/
theorem filter_merged (scanned parsed : List Diagnostic) (line : Position) :
    (merged scanned parsed).filter (·.line = line) =
      scanned.filter (·.line = line) ++ parsed.filter (·.line = line) := by
  rw [← List.filter_append]
  have hpairs : ((scanned ++ parsed).filter (·.line = line)).Pairwise
      fun a b => decide (a.line ≤ b.line) = true := by
    refine List.pairwise_of_forall_mem_list fun a ha b hb => ?_
    simp only [List.mem_filter, decide_eq_true_eq] at ha hb ⊢
    rw [ha.2, hb.2]
    exact UInt32.le_refl _
  have hsub : ((scanned ++ parsed).filter (·.line = line)).Sublist
      ((merged scanned parsed).filter (·.line = line)) := by
    have hsorted : ((scanned ++ parsed).filter (·.line = line)).Sublist (merged scanned parsed) :=
      List.sublist_mergeSort line_trans line_total hpairs List.filter_sublist
    simpa using hsorted.filter (·.line = line)
  have hlength : ((scanned ++ parsed).filter (·.line = line)).length =
      ((merged scanned parsed).filter (·.line = line)).length :=
    ((List.mergeSort_perm (scanned ++ parsed) _).filter _).length_eq.symm
  exact (hsub.eq_of_length hlength).symm

end Session

/-- The diagnostics of a program point at tokens further and further on, apart from late ones: these
may come behind others that point further on.  So, with fewer than `2 ^ 32 - 1` newlines in the
source, do their lines go down nowhere else.  Merging sorts by line and leaves those of one line in
the order in which they were recorded. -/
theorem diagnostics_in_order (lexicon : Lexicon) (source : String) :
    let scanned := scan lexicon source
    let parsed := (parse scanned.tokens).diagnostics
    (∃ sightings : List Sighting,
        parsed = sightings.map (·.diagnostic (Token.stopLine scanned.tokens)) ∧
        (∀ s ∈ sightings, s.tokens <:+ Token.body scanned.tokens) ∧
        sightings.Pairwise Sighting.Precedes) ∧
      (source.toList.count '\n' < UInt32.size - 1 →
        parsed.Pairwise fun d d' => d.line ≤ d'.line ∨ d'.problem.isLate = true) ∧
      (Session.merged scanned.diagnostics parsed).Pairwise (fun d d' => d.line ≤ d'.line) ∧
      ∀ line, (Session.merged scanned.diagnostics parsed).filter (·.line = line) =
        scanned.diagnostics.filter (·.line = line) ++ parsed.filter (·.line = line) := by
  intro scanned parsed
  obtain ⟨-, sightings, hparsed, hsuffix, hpairs⟩ :=
    Grammar.trail_declarations (Token.stopLine scanned.tokens) (Token.body scanned.tokens)
  refine ⟨⟨sightings, hparsed, fun s hs => (hsuffix s hs).2, hpairs⟩, fun hfew => ?_,
    Session.pairwise_merged _ _, Session.filter_merged _ _⟩
  have hordered : Token.Ordered scanned.tokens := ordered_scan lexicon hfew
  have hlines : parsed = sightings.map (·.diagnostic (Token.stopLine scanned.tokens)) := hparsed
  rw [hlines, List.pairwise_map]
  refine hpairs.imp_of_mem fun hs _ h => ?_
  rw [Sighting.problem_diagnostic]
  exact h.line_le (Token.ordered_body hordered) hordered.le_stopLine (hsuffix _ hs).2

/-- The target of the first assignment is judged when the second one has been read, and so the
diagnostic for line 2 is recorded before that for line 1.  On a single line the order stays wrong
when the diagnostics are merged. -/
theorem diagnostics_out_of_order :
    (parse (scan Lexicon.reserved "nil =\nnil = nil;").tokens).diagnostics =
        [⟨2, .lexeme "=", .invalidTarget⟩, ⟨1, .lexeme "=", .invalidTarget⟩] ∧
      Session.merged [] (parse (scan Lexicon.reserved "+ (nil = nil);").tokens).diagnostics =
        [⟨1, .lexeme "=", .invalidTarget⟩, ⟨1, .lexeme "+", .missingLeftOperand⟩] := by
  refine ⟨by decide +kernel, ?_⟩
  have hparsed : (parse (scan Lexicon.reserved "+ (nil = nil);").tokens).diagnostics =
      [⟨1, .lexeme "=", .invalidTarget⟩, ⟨1, .lexeme "+", .missingLeftOperand⟩] := by
    decide +kernel
  rw [hparsed]
  exact List.mergeSort_of_pairwise (by decide)

end Lox
