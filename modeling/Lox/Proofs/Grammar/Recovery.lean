import Lox.Proofs.Grammar.Boundary
import Lox.Proofs.Grammar.Completeness
import Lox.Proofs.Grammar.Soundness

/-!
# Where reading resumes

After a mistake tokens are dropped, at least one of them.  If a semicolon is missing in front of a
word that starts a statement, it is this word that is dropped: the statement that it starts is not
read, although the mistake was made before it.
-/

namespace Lox

/-! ## What is dropped -/

/-- Reading may resume between the tokens: behind a semicolon, or before a word that may start a
statement. -/
def CanResume (dropped rest : List Token) : Prop :=
  (∃ t ∈ dropped.getLast?, t.kind = .punct .semicolon) ∨
    ∃ t ∈ rest.head?, t.kind.startsStatement = true

/-- The rest begins at the first place behind the first token where reading may resume, or there is
no such place and nothing is left. -/
structure ResumesBehind (dropped rest : List Token) : Prop where
  dropped_ne_nil : dropped ≠ []
  canResume : rest = [] ∨ CanResume dropped rest
  not_canResume : ∀ ts us, dropped = ts ++ us → ts ≠ [] → us ≠ [] → ¬CanResume ts (us ++ rest)

/-- Behind a single token reading resumes if it is a semicolon, or if a statement may begin at the
next one. -/
theorem canResume_singleton {t : Token} {rest : List Token} :
    CanResume [t] rest ↔
      (t.kind = .punct .semicolon ∨ rest.head?.any (·.kind.startsStatement)) := by
  simp [CanResume, Option.any_eq_true]

/-- Where reading resumes is decided by the last token that is dropped. -/
theorem canResume_cons {t : Token} {ts rest : List Token} (hts : ts ≠ []) :
    CanResume (t :: ts) rest ↔ CanResume ts rest := by
  rw [CanResume, CanResume, List.getLast?_cons_of_ne_nil hts]

theorem resumesBehind_singleton {t : Token} {rest : List Token}
    (h : rest = [] ∨ CanResume [t] rest) : ResumesBehind [t] rest where
  dropped_ne_nil := List.cons_ne_nil _ _
  canResume := h
  not_canResume ts us h hts hus := by
    rcases List.append_eq_singleton_iff.mp h.symm with ⟨rfl, -⟩ | ⟨-, rfl⟩
    · exact absurd rfl hts
    · exact absurd rfl hus

/-- A token at which reading does not resume is dropped with those behind it. -/
theorem ResumesBehind.cons {t : Token} {dropped rest : List Token}
    (h : ResumesBehind dropped rest) (ht : ¬CanResume [t] (dropped ++ rest)) :
    ResumesBehind (t :: dropped) rest where
  dropped_ne_nil := List.cons_ne_nil _ _
  canResume := h.canResume.imp_right (canResume_cons h.dropped_ne_nil).2
  not_canResume ts us hdropped hts hus := by
    obtain ⟨u, ts, rfl⟩ := List.exists_cons_of_ne_nil hts
    obtain ⟨rfl, rfl⟩ := List.cons.inj hdropped
    cases ts with
    | nil => exact ht
    | cons u ts =>
        rw [canResume_cons (List.cons_ne_nil u ts)]
        exact h.not_canResume _ us rfl (List.cons_ne_nil u ts) hus

/-- What is dropped ends at the first place where reading may resume. -/
theorem exists_resumesBehind {ts : List Token} (hts : ts ≠ []) :
    ∃ dropped, ts = dropped ++ resume ts ∧ ResumesBehind dropped (resume ts) := by
  induction ts with
  | nil => exact absurd rfl hts
  | cons t ts ih =>
      by_cases hstops : CanResume [t] ts
      · refine ⟨[t], ?_, ?_⟩ <;> rw [resume_of_stops (canResume_singleton.1 hstops)]
        · rfl
        · exact resumesBehind_singleton (.inr hstops)
      rw [resume_of_passes (mt canResume_singleton.2 hstops)]
      cases ts with
      | nil => exact ⟨[t], rfl, resumesBehind_singleton (.inl rfl)⟩
      | cons u us =>
          obtain ⟨dropped, hdropped, h⟩ := ih (List.cons_ne_nil u us)
          refine ⟨t :: dropped, by rw [List.cons_append, ← hdropped], h.cons ?_⟩
          rwa [← hdropped]

/-! ## A missing semicolon -/

/-- No expression goes on with a word that may start a statement. -/
theorem Kind.goesOn_eq_false {kind : Kind} (h : kind.startsStatement = true) :
    Tier.expression.goesOn kind = false := by
  cases kind with
  | keyword k => cases k <;> first | rfl | cases h
  | _ => cases h

/-- Only an expression statement is desugared to one. -/
theorem Surface.eq_of_desugar_eq_expr {w : Surface} {e : Expr} (h : w.desugar = .expr e) :
    w = .expr e := by
  cases w with
  | expr => simpa [desugar] using h
  | for_ init condition increment body =>
      cases init <;>
        simp [desugar_for, ForClauses.loop, ForClauses.repetition, ForInit.stmt?] at h
  | _ => simp [desugar] at h

/-- Tokens that are read, with a semicolon, as one statement that is an expression, derive it. -/
theorem derives_of_parse_singleton {ts : List Token} {e : Expr} {semicolon : Token}
    (hts : ∀ t ∈ ts, t.kind ≠ .eof) (hsemicolon : semicolon.kind = .punct .semicolon)
    (hparse : parse (ts ++ [semicolon]) = ⟨[.expr e], []⟩) : Derives .expression ts e := by
  obtain ⟨program, hd, hprogram⟩ := exists_derives_of_parse (congrArg Program.diagnostics hparse)
  have hbody : Token.body (ts ++ [semicolon]) = ts ++ [semicolon] := by
    refine Token.body_eq_self (List.forall_mem_append.mpr ⟨hts, ?_⟩)
    exact List.forall_mem_singleton.mpr (by rw [hsemicolon]; decide)
  rw [hbody] at hd
  rw [hparse] at hprogram
  obtain ⟨w, rfl, hw⟩ := List.map_eq_singleton_iff.mp hprogram.symm
  obtain rfl := Surface.eq_of_desugar_eq_expr hw
  generalize hus : ts ++ [semicolon] = us at hd
  obtain _ | ⟨⟨⟩ | ⟨⟩ | ⟨⟨he, _⟩⟩, ⟨⟩⟩ := hd
  rw [List.append_nil] at hus
  exact (List.append_inj_left' hus rfl) ▸ he

namespace Grammar

open Phrase

/-- A `print` without a semicolon behind its value is reported at the token that stands there. -/
theorem settle_print {stop : Position} (scope : Scope) {keyword t : Token} {ts rest : List Token}
    {e : Expr} {h : 0 < (keyword :: ts).length} (hkeyword : keyword.kind = .keyword .print_)
    (he : (expression stop ts).Reads e (t :: rest)) (ht : t.kind ≠ .punct .semicolon) :
    ((declaration stop scope (keyword :: ts)).settle h).value = none ∧
      ((declaration stop scope (keyword :: ts)).settle h).rest = resume (t :: rest) ∧
      ((declaration stop scope (keyword :: ts)).settle h).reports =
        [.atToken t (.expectedPunct .semicolon .afterValue)] := by
  have hfun : keyword.kind ≠ .keyword .fun_ := by rw [hkeyword]; decide
  have hvar : keyword.kind ≠ .keyword .var_ := by rw [hkeyword]; decide
  rw [declaration, if_neg hfun, if_neg hvar]
  obtain ⟨kind, lexeme, line⟩ := keyword
  subst hkeyword
  obtain ⟨hlt, he⟩ := he
  rw [statement]
  simp only [expressionBefore, he, Phrase.andThen, mark, if_neg ht]
  exact ⟨rfl, rfl, rfl⟩

end Grammar

/-- A `print` lacks the semicolon behind its value, and a word that starts a statement follows.
This is reported at the word, and the word is dropped.  Tokens are dropped up to the next place
where reading may resume, and from there on everything is read as it would be otherwise. -/
theorem parse_unterminated_print {es : List Token} (us : List Token) {e : Expr}
    {keyword semicolon t : Token} (hkeyword : keyword.kind = .keyword .print_)
    (hsemicolon : semicolon.kind = .punct .semicolon)
    (hes : ∀ t ∈ es, t.kind ≠ .eof) (hparse : parse (es ++ [semicolon]) = ⟨[.expr e], []⟩)
    (ht : t.kind.startsStatement = true) :
    ∃ dropped rest, Token.body (t :: us) = dropped ++ rest ∧ ResumesBehind dropped rest ∧
      (parse (keyword :: es ++ t :: us)).statements =
        (Grammar.declarations (Token.stopLine (t :: us)) rest).statements ∧
      (parse (keyword :: es ++ t :: us)).diagnostics =
        .atToken t (.expectedPunct .semicolon .afterValue) ::
          (Grammar.declarations (Token.stopLine (t :: us)) rest).diagnostics := by
  have hne : t.kind ≠ .eof := by
    intro heof
    rw [heof] at ht
    cases ht
  have hbehind : Token.body (t :: us) = t :: Token.body us := by
    simp [Token.body, Token.isEof, hne]
  have hfront : ∀ t ∈ keyword :: es, t.kind ≠ .eof :=
    List.forall_mem_cons.mpr ⟨by rw [hkeyword]; decide, hes⟩
  have hbody : Token.body (keyword :: es ++ t :: us) = keyword :: (es ++ Token.body (t :: us)) :=
    Token.body_append_of_ne_eof hfront
  have hread : (Grammar.expression (Token.stopLine (t :: us)) (es ++ Token.body (t :: us))).Reads e
      (t :: Token.body us) := by
    rw [hbehind]
    exact (derives_of_parse_singleton hes hsemicolon hparse).reads_expression _
      (Kind.goesOn_eq_false ht) _
  have hmark : t.kind ≠ .punct .semicolon := by
    intro hmark
    rw [hmark] at ht
    cases ht
  obtain ⟨hvalue, hrest, hreports⟩ :=
    Grammar.settle_print {} (h := Nat.succ_pos _) hkeyword hread hmark
  have hbody_ne : Token.body (t :: us) ≠ [] := hbehind ▸ List.cons_ne_nil _ _
  obtain ⟨dropped, hdropped, hresumes⟩ := exists_resumesBehind hbody_ne
  refine ⟨dropped, resume (Token.body (t :: us)), hdropped, hresumes, ?_⟩
  rw [parse, hbody, Token.stopLine_append hfront (List.cons_ne_nil t us),
    Grammar.declarations_cons, Grammar.first, hvalue, hrest, hreports, ← hbehind]
  exact ⟨rfl, rfl⟩

/-- Of `print nil print true; print false;` only the last statement is kept. -/
theorem parse_unterminated_print_resumes :
    let t : Token := ⟨.keyword .print_, "print", 1⟩
    let es : List Token := [⟨.keyword .nil_, "nil", 1⟩]
    let us : List Token := [⟨.keyword .true_, "true", 1⟩, ⟨.punct .semicolon, ";", 1⟩,
      ⟨.keyword .print_, "print", 2⟩, ⟨.keyword .false_, "false", 2⟩, ⟨.punct .semicolon, ";", 2⟩]
    parse (es ++ [⟨.punct .semicolon, ";", 1⟩]) = ⟨[.expr (.literal .nil)], []⟩ ∧
      (∃ dropped rest, Token.body (t :: us) = dropped ++ rest ∧ ResumesBehind dropped rest ∧
        (parse (t :: es ++ t :: us)).statements =
          (Grammar.declarations (Token.stopLine (t :: us)) rest).statements) ∧
      (parse (t :: es ++ t :: us)).statements.length = 1 := by
  intro t es us
  have hparse : parse (es ++ [⟨.punct .semicolon, ";", 1⟩]) = ⟨[.expr (.literal .nil)], []⟩ := by
    cbv
  refine ⟨hparse, ?_, by decide +kernel⟩
  have hprint : t.kind = .keyword .print_ := rfl
  obtain ⟨dropped, rest, hdropped, hresumes, hstatements, -⟩ :=
    parse_unterminated_print us hprint rfl (by decide) hparse (t := t) rfl
  exact ⟨dropped, rest, hdropped, hresumes, hstatements⟩

/-- Of `print nil print true;` nothing is kept, although the statement behind the mistake has none
itself. -/
theorem parse_unterminated_print_drops :
    let t : Token := ⟨.keyword .print_, "print", 1⟩
    let es : List Token := [⟨.keyword .nil_, "nil", 1⟩]
    let us : List Token := [⟨.keyword .true_, "true", 1⟩, ⟨.punct .semicolon, ";", 1⟩]
    parse (es ++ [⟨.punct .semicolon, ";", 1⟩]) = ⟨[.expr (.literal .nil)], []⟩ ∧
      parse (t :: us) = ⟨[.print (.literal (.bool true))], []⟩ ∧
      (parse (t :: es ++ t :: us)).statements.length = 0 ∧
      (parse (t :: es ++ t :: us)).diagnostics =
        [⟨1, .lexeme "print", .expectedPunct .semicolon .afterValue⟩] := by
  intro t es us
  exact ⟨by cbv, by cbv, by decide +kernel, by decide +kernel⟩

end Lox
