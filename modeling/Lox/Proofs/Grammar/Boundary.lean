import Lox.Proofs.Grammar.Independence
import Lox.Proofs.Grammar.Reads

/-!
# Programs put together

Two programs can be read as one, behind each other, if the first one is read without a report, or if
it ends with a semicolon and its statements contain no other: an expression never goes past a
semicolon, whatever is wrong with it, and behind one reading resumes.  The mistakes in one program
then have no influence on the other.
-/

namespace Lox

/-! ## What a phrase leaves -/

namespace Phrase

variable {α β : Type} {m n : Nat} {P P' Q : List Token → Prop}

/-- What remains behind a phrase that was read is one thing, and what remains where a phrase could
not be read is another. -/
def Leaves (P Q : List Token → Prop) : Phrase α n → Prop
  | read _ rest _ _ => P rest
  | failed _ rest _ _ => Q rest

namespace Leaves

theorem within {p : Phrase α m} {h : m ≤ n} (hp : p.Leaves P Q) : (p.within h).Leaves P Q := by
  cases p <;> exact hp

theorem report {p : Phrase α n} (ds : List Diagnostic) (hp : p.Leaves P Q) :
    (p.report ds).Leaves P Q := by
  cases p <;> exact hp

theorem map {p : Phrase α n} {f : α → β} (hp : p.Leaves P Q) : (p.map f).Leaves P Q := by
  cases p <;> exact hp

/-- What one phrase leaves is what the next one begins with. -/
theorem andThen {p : Phrase α n}
    {next : (v : α) → (rest : List Token) → rest.length < n → Phrase β n} (hp : p.Leaves P Q)
    (hnext : ∀ v rest h, P rest → (next v rest h).Leaves P' Q) :
    (p.andThen next).Leaves P' Q := by
  cases p with
  | read v rest ds h => exact (hnext v rest h hp).report ds
  | failed => exact hp

end Leaves

end Phrase

namespace Grammar

open Phrase

/-- The property is kept by dropping a token, unless this is a semicolon. -/
def KeptToSemicolon (P : List Token → Prop) : Prop :=
  ∀ t ts, t.kind ≠ .punct .semicolon → P (t :: ts) → P ts

section

variable {P P' Q : List Token → Prop} {stop : Position} {ts : List Token} (hP : KeptToSemicolon P)
  (hts : P ts)

include hP hts

/-- A token other than a semicolon may be taken, and what is left is still kept up to its semicolon.
-/
theorem leaves_ifNext {β : Type} {n : Nat} {kind : Kind} {h : ts.length < n}
    {yes : (t : Token) → (rest : List Token) → rest.length + 1 < n → Phrase β n} {no : Phrase β n}
    (hkind : kind ≠ .punct .semicolon) (hyes : ∀ t rest h, P rest → (yes t rest h).Leaves P' Q)
    (hno : no.Leaves P' Q) : (ifNext kind ts h yes no).Leaves P' Q := by
  cases ts with
  | nil => exact hno
  | cons t ts =>
      rw [ifNext]
      split
      · next ht => exact hyes t ts _ (hP t ts (ht ▸ hkind) hts)
      · exact hno

/-- No mark but a semicolon ends what is kept up to it. -/
theorem leaves_mark {p : Punct} {spot : Spot} (hp : Kind.punct p ≠ .punct .semicolon) :
    (mark stop p spot ts).Leaves P P := by
  cases ts with
  | nil => exact hts
  | cons t ts =>
      rw [mark]
      split
      · next ht => exact hP t ts (ht ▸ hp) hts
      · exact hts

theorem leaves_name {role : Role} : (name stop role ts).Leaves P P := by
  cases ts with
  | nil => exact hts
  | cons t ts =>
      rw [name]
      split
      · next ht => exact hP t ts (ht ▸ Kind.noConfusion) hts
      · exact hts

end

/-! ## Expressions

An expression never goes past a semicolon.
-/

section

variable {P : List Token → Prop} {stop : Position}

theorem leaves_assignment {n : Nat} {target value : Expr} {equals : Token} {rest : List Token}
    {h : rest.length < n} (hrest : P rest) :
    (assignment target equals value rest h).Leaves P P := by
  cases target <;> exact hrest

mutual

/-- An expression takes no semicolon, and so what is left behind it, or behind a mistake in it, is
still kept up to its semicolon. -/
theorem leaves_expression (hP : KeptToSemicolon P) {ts : List Token} (hts : P ts) :
    (expression stop ts).Leaves P P := by
  unfold expression
  refine (leaves_conditional hP hts).andThen fun target rest h hrest => ?_
  refine leaves_ifNext hP hrest (by decide) (fun equals rest h hrest => ?_) hrest
  refine (leaves_expression hP hrest).within.andThen fun value rest h hrest => ?_
  exact leaves_assignment hrest
termination_by ts.length * 32 + 16

theorem leaves_conditional (hP : KeptToSemicolon P) {ts : List Token} (hts : P ts) :
    (conditional stop ts).Leaves P P := by
  unfold conditional
  refine (leaves_binary hP .or hts).andThen fun condition rest h hrest => ?_
  refine leaves_ifNext hP hrest (by decide) (fun question rest h hrest => ?_) hrest
  refine (leaves_expression hP hrest).within.andThen fun yes rest h hrest => ?_
  refine (leaves_mark hP hrest (by decide)).within.andThen fun _ rest h hrest => ?_
  exact (leaves_conditional hP hrest).within.map
termination_by ts.length * 32 + 15
decreasing_by all_goals have := Level.or.rank_le; omega

theorem leaves_binary (hP : KeptToSemicolon P) (level : Level) {ts : List Token} (hts : P ts) :
    (binary stop level ts).Leaves P P := by
  unfold binary
  refine (leaves_operand hP level hts).andThen fun left rest h hrest => ?_
  exact (leaves_chain hP level left hrest).within
termination_by ts.length * 32 + 2 * level.rank + 4

theorem leaves_operand (hP : KeptToSemicolon P) (level : Level) {ts : List Token} (hts : P ts) :
    (operand stop level ts).Leaves P P := by
  cases level <;> unfold operand
  case factor => exact leaves_unary hP hts
  all_goals exact leaves_binary hP _ hts
termination_by ts.length * 32 + 2 * level.rank + 3
decreasing_by all_goals subst_vars; simp [Level.rank]

/-- Nor do the operators of a level and their operands. -/
theorem leaves_chain (hP : KeptToSemicolon P) (level : Level) (left : Expr) {ts : List Token}
    (hts : P ts) : (chain stop level left ts).Leaves P P := by
  cases ts with
  | nil =>
      unfold chain
      exact hts
  | cons t ts =>
      unfold chain
      cases hc : t.kind.connectiveAt? level with
      | none => exact hts
      | some op =>
          have ht : t.kind ≠ .punct .semicolon := by
            intro ht
            rw [ht] at hc
            cases hc
          refine .within (.andThen (leaves_operand hP level (hP t ts ht hts))
            fun right rest h hrest => ?_)
          exact (leaves_chain hP level _ hrest).within
termination_by ts.length * 32
decreasing_by all_goals have := level.rank_le; subst_vars; simp only [List.length_cons]; omega

theorem leaves_unary (hP : KeptToSemicolon P) {ts : List Token} (hts : P ts) :
    (unary stop ts).Leaves P P := by
  cases ts with
  | nil =>
      unfold unary
      exact leaves_call hP hts
  | cons t ts =>
      unfold unary
      cases hop : t.kind.unaryOp? with
      | none => exact leaves_call hP hts
      | some op =>
          have ht : t.kind ≠ .punct .semicolon := by
            intro ht
            rw [ht] at hop
            cases hop
          exact (leaves_unary hP (hP t ts ht hts)).within.map
termination_by ts.length * 32 + 2

theorem leaves_call (hP : KeptToSemicolon P) {ts : List Token} (hts : P ts) :
    (call stop ts).Leaves P P := by
  unfold call
  refine (leaves_primary hP hts).andThen fun callee rest h hrest => ?_
  exact (leaves_calls hP callee hrest).within
termination_by ts.length * 32 + 1

/-- Nor do calls. -/
theorem leaves_calls (hP : KeptToSemicolon P) (callee : Expr) {ts : List Token} (hts : P ts) :
    (calls stop callee ts).Leaves P P := by
  unfold calls
  refine leaves_ifNext hP hts (by decide) (fun opening rest h hrest => ?_) hts
  refine .within (.andThen (leaves_arguments hP hrest) fun args rest h hrest => ?_)
  exact (leaves_calls hP _ hrest).within
termination_by ts.length * 32 + 19

theorem leaves_arguments (hP : KeptToSemicolon P) {ts : List Token} (hts : P ts) :
    (arguments stop ts).Leaves P P := by
  unfold arguments
  refine leaves_ifNext hP hts (by decide) (fun closing rest h hrest => hrest) ?_
  exact (leaves_argumentList hP 0 hts).within
termination_by ts.length * 32 + 18

theorem leaves_argumentList (hP : KeptToSemicolon P) (count : Nat) {ts : List Token}
    (hts : P ts) : (argumentList stop count ts).Leaves P P := by
  unfold argumentList
  refine .report _ (.andThen (leaves_expression hP hts) fun arg rest h hrest => ?_)
  refine leaves_ifNext hP hrest (by decide) (fun comma rest h hrest => ?_) ?_
  · exact (leaves_argumentList hP (count + 1) hrest).within.map
  · exact (leaves_mark hP hrest (by decide)).within.map
termination_by ts.length * 32 + 17

theorem leaves_primary (hP : KeptToSemicolon P) {ts : List Token} (hts : P ts) :
    (primary stop ts).Leaves P P := by
  cases ts with
  | nil =>
      unfold primary
      exact hts
  | cons t ts =>
      by_cases ht : t.kind = .punct .semicolon
      · unfold primary
        rw [ht]
        exact hts
      have hrest := hP t ts ht hts
      unfold primary
      split
      · exact hrest
      split
      · exact hrest
      · refine (leaves_expression hP hrest).within.andThen fun inner rest h hrest => ?_
        exact (leaves_mark hP hrest (by decide)).within.map
      split
      · refine (leaves_binary hP _ hrest).within.andThen fun _ rest h hrest => ?_
        exact hrest
      · exact hts
termination_by ts.length * 32
decreasing_by all_goals have := Level.rank_le; subst_vars; simp only [List.length_cons]; grind

end

end

end Grammar

/-! ## Statements that end with their first semicolon -/

/-- The tokens end with a semicolon, and no block and no `for` loop begins in them, so that a
semicolon ends the statement in which it stands. -/
structure Flat (ts : List Token) : Prop where
  ends : ∃ t ∈ ts.getLast?, t.kind = .punct .semicolon
  plain : ∀ t ∈ ts, t.kind ≠ .punct .leftCurly ∧ t.kind ≠ .keyword .for_

/-- What is left when a statement has been read. -/
def Flat.Left (ts : List Token) : Prop := ts = [] ∨ Flat ts

namespace Flat

variable {t : Token} {ts : List Token}

theorem ne_nil (h : Flat ts) : ts ≠ [] := by
  rintro rfl
  obtain ⟨t, ht, -⟩ := h.ends
  cases ht

theorem left_tail (h : Flat (t :: ts)) : Left ts := by
  by_cases hts : ts = []
  · exact .inl hts
  · obtain ⟨hends, hplain⟩ := h
    rw [List.getLast?_cons_of_ne_nil hts] at hends
    exact .inr ⟨hends, fun u hu => hplain u (List.mem_cons_of_mem t hu)⟩

/-- Tokens other than the semicolon may be taken from a text that ends with its first one. -/
theorem keptToSemicolon : Grammar.KeptToSemicolon Flat := by
  intro t ts ht h
  refine h.left_tail.resolve_left ?_
  rintro rfl
  obtain ⟨_, ⟨⟩, hends⟩ := h.ends
  exact ht hends

end Flat

/-- Reading resumes behind the semicolon or in front of it. -/
theorem Flat.left_resume {ts : List Token} (h : Flat ts) : Flat.Left (resume ts) := by
  induction ts with
  | nil => exact .inl rfl
  | cons t ts ih =>
      rw [resume]
      split
      · exact h.left_tail
      · next hstops => exact ih (Flat.keptToSemicolon t ts (fun ht => hstops (.inl ht)) h)

/-- Behind the last semicolon nothing else is dropped. -/
theorem Flat.resume_tokens {ts : List Token} (h : Flat ts) (c : Elsewhere) :
    resume (c.tokens ts) = c.tokens (resume ts) := by
  refine (Lox.resume_tokens c ts).resolve_right fun ⟨_, _, hends⟩ => ?_
  obtain ⟨t, ht, hsemicolon⟩ := h.ends
  exact hends t ht hsemicolon

namespace Grammar

open Phrase

theorem leaves_parameterList {stop : Position} (count : Nat) {ts : List Token} (hts : Flat ts) :
    (parameterList stop count ts).Leaves Flat Flat := by
  unfold parameterList
  refine .report _ (.andThen (leaves_name Flat.keptToSemicolon hts) fun x rest h hrest => ?_)
  refine leaves_ifNext Flat.keptToSemicolon hrest (by decide) (fun comma rest h hrest => ?_) ?_
  · exact (leaves_parameterList (count + 1) hrest).within.map
  · exact (leaves_mark Flat.keptToSemicolon hrest (by decide)).within.map
termination_by ts.length

section

variable {stop : Position} {ts : List Token} (hts : Flat ts)

include hts

/-- Behind the semicolon nothing has to hold any more. -/
theorem leaves_semicolon {spot : Spot} : (mark stop .semicolon spot ts).Leaves Flat.Left Flat := by
  cases ts with
  | nil => exact hts
  | cons t ts =>
      rw [mark]
      split
      · exact hts.left_tail
      · exact hts

/-- There is no brace in such a text. -/
theorem leaves_leftCurly {spot : Spot} :
    (mark stop .leftCurly spot ts).Leaves (fun _ => False) Flat := by
  cases ts with
  | nil => exact hts
  | cons t ts =>
      rw [mark, if_neg (hts.plain t List.mem_cons_self).1]
      exact hts

/-- An expression and its semicolon take all of the first statement. -/
theorem leaves_expressionBeforeSemicolon {spot : Spot} :
    (expressionBefore stop .semicolon spot ts).Leaves Flat.Left Flat := by
  refine (leaves_expression Flat.keptToSemicolon hts).andThen fun e rest h hrest => ?_
  exact (leaves_semicolon hrest).within.map

theorem leaves_optionalBeforeSemicolon {spot : Spot} :
    (optionalBefore stop .semicolon spot ts).Leaves Flat.Left Flat := by
  cases ts with
  | nil => exact absurd rfl hts.ne_nil
  | cons t ts =>
      rw [optionalBefore]
      split
      · exact hts.left_tail
      · exact (leaves_expressionBeforeSemicolon hts).map

theorem leaves_parenthesized {opening closing : Spot} :
    (parenthesized stop opening closing ts).Leaves Flat Flat := by
  refine (leaves_mark Flat.keptToSemicolon hts (by decide)).andThen fun _ rest h hrest => ?_
  refine .within (.andThen (leaves_expression Flat.keptToSemicolon hrest) fun e rest h hrest => ?_)
  exact (leaves_mark Flat.keptToSemicolon hrest (by decide)).within.map

/-- The declaration of a variable ends with its first semicolon. -/
theorem leaves_variableDeclaration : (variableDeclaration stop ts).Leaves Flat.Left Flat := by
  refine (leaves_name Flat.keptToSemicolon hts).andThen fun x rest h hrest => ?_
  refine leaves_ifNext Flat.keptToSemicolon hrest (by decide) (fun equals rest h hrest => ?_) ?_
  · exact (leaves_expressionBeforeSemicolon hrest).within.map
  · exact (leaves_semicolon hrest).within.map

/-- The body of a function is not reached. -/
theorem leaves_functionHead : (functionHead stop ts).Leaves (fun _ => False) Flat := by
  refine (leaves_name Flat.keptToSemicolon hts).andThen fun f rest h hrest => ?_
  refine (leaves_mark Flat.keptToSemicolon hrest (by decide)).within.andThen ?_
  intro _ rest h hrest
  have hparameters : (parameters stop rest).Leaves Flat Flat :=
    leaves_ifNext Flat.keptToSemicolon hrest (by decide) (fun _ _ _ hrest => hrest)
      (leaves_parameterList 0 hrest).within
  refine hparameters.within.andThen fun params rest h hrest => ?_
  exact (leaves_leftCurly hrest).within.map

end

/-- A statement without braces and without `for` ends with its first semicolon, or fails in front of
it.  If the first branch of an `if` ends with the last semicolon, there is no `else`. -/
theorem leaves_statement {stop : Position} {scope : Scope} {ts : List Token} (hts : Flat ts) :
    (statement stop scope ts).Leaves Flat.Left Flat := by
  cases ts with
  | nil => exact absurd rfl hts.ne_nil
  | cons t ts =>
      obtain ⟨kind, lexeme, line⟩ := t
      have hplain := hts.plain _ List.mem_cons_self
      have hkeep := Flat.keptToSemicolon ⟨kind, lexeme, line⟩ ts
      unfold statement
      cases kind with
      | punct p =>
          cases p
          case leftCurly => exact absurd rfl hplain.1
          all_goals exact (leaves_expressionBeforeSemicolon hts).map
      | keyword k =>
          have hrest : Flat ts := hkeep Kind.noConfusion hts
          clear hkeep
          cases k
          case print_ => exact (leaves_expressionBeforeSemicolon hrest).within.map
          case if_ =>
            refine .within (.andThen (leaves_parenthesized hrest) fun condition rest h hrest => ?_)
            refine (leaves_statement hrest).within.andThen fun yes rest h hrest => ?_
            rcases hrest with rfl | hrest
            · exact .inl rfl
            refine leaves_ifNext Flat.keptToSemicolon hrest (by decide) ?_ (.inr hrest)
            intro _ rest h hrest
            exact (leaves_statement hrest).within.map
          case while_ =>
            refine .within (.andThen (leaves_parenthesized hrest) fun condition rest h hrest => ?_)
            exact (leaves_statement hrest).within.map
          case for_ => exact absurd rfl hplain.2
          case break_ => exact (leaves_semicolon hrest).within.map.report _
          case return_ => exact (leaves_optionalBeforeSemicolon hrest).within.map.report _
          all_goals exact (leaves_expressionBeforeSemicolon hts).map
      | _ => exact (leaves_expressionBeforeSemicolon hts).map
termination_by ts.length
decreasing_by all_goals subst_vars; simp only [List.length_cons]; omega

/-- And so does a declaration, for the body of a function would need a brace. -/
theorem leaves_declaration {stop : Position} {scope : Scope} {ts : List Token} (hts : Flat ts) :
    (declaration stop scope ts).Leaves Flat.Left Flat := by
  cases ts with
  | nil => exact absurd rfl hts.ne_nil
  | cons t ts =>
      have hrest (ht : t.kind ≠ .punct .semicolon) : Flat ts := Flat.keptToSemicolon t ts ht hts
      unfold declaration
      split
      · next ht =>
        exact .within (.andThen (leaves_functionHead (hrest (ht ▸ Kind.noConfusion)))
          fun _ _ _ hfalse => hfalse.elim)
      split
      · next ht =>
        exact (leaves_variableDeclaration (hrest (ht ▸ Kind.noConfusion))).within
      · exact leaves_statement hts

/-! ## Programs -/

section

variable {c : Elsewhere} {t : Token} {ts : List Token}
  (hmore : ∀ t ∈ c.more.head?, t.kind ≠ .keyword .else_)

include hmore

/-- A declaration that is read without a report is read elsewhere, too. -/
theorem carries_first_of_clean (hclean : (first c.stop t ts).reports = []) :
    (first c.stop t ts).Carries c c.stmt
      (first c.stop' (t.rename c.symbol c.line) (c.tokens ts)) := by
  refine (local_declaration c false (fun _ => hmore) {} (t :: ts)).carries_settle ?_
  intro d rest ds h heq
  rw [first, heq] at hclean
  exact absurd hclean (List.append_ne_nil_of_right_ne_nil _ (List.cons_ne_nil _ _))

/-- Where statements end with their first semicolon, declarations are settled elsewhere as they
are, whatever is wrong with them. -/
theorem carries_first_of_flat (hts : Flat (t :: ts)) :
    (first c.stop t ts).Carries c c.stmt
      (first c.stop' (t.rename c.symbol c.line) (c.tokens ts)) := by
  refine (local_declaration c false (fun _ => hmore) {} (t :: ts)).carries_settle ?_
  intro d rest ds h heq
  have hleaves := @leaves_declaration c.stop {} _ hts
  rw [heq] at hleaves
  exact ⟨hleaves.ne_nil, hleaves.resume_tokens c⟩

omit hmore in
/-- Behind the first declaration there are again such statements only. -/
theorem left_rest_first (hts : Flat (t :: ts)) : Flat.Left (first c.stop t ts).rest := by
  have hleaves := @leaves_declaration c.stop {} _ hts
  rw [first]
  generalize declaration c.stop {} (t :: ts) = p at hleaves
  cases p with
  | read => exact hleaves
  | failed => exact hleaves.left_resume

/-- What follows a program at a boundary is read where the program ended. -/
theorem declarations_boundary
    (hts : (declarations c.stop ts).diagnostics = [] ∨ Flat ts) :
    declarations c.stop' (c.tokens ts) =
      (c.program (declarations c.stop ts)).append (declarations c.stop' c.more) := by
  rcases hts with hclean | hflat
  · -- What is left of a program without a report is a program without a report.
    refine declarations_tokens c (P := fun ts => (declarations c.stop ts).diagnostics = []) ?_ ts
      hclean
    intro t ts hclean
    rw [declarations_cons] at hclean
    obtain ⟨hfirst, hothers⟩ := List.append_eq_nil_iff.mp hclean
    exact ⟨hothers, carries_first_of_clean hmore hfirst⟩
  · refine declarations_tokens c (P := Flat.Left) ?_ ts (.inr hflat)
    rintro t ts (⟨⟨⟩⟩ | hflat)
    exact ⟨left_rest_first hflat, carries_first_of_flat hmore hflat⟩

end

end Grammar

namespace Token

variable {ts us : List Token}

/-- Where more tokens follow, the line on which the tokens stop is that of these. -/
theorem stopLine_append (hts : ∀ t ∈ ts, t.kind ≠ .eof) (hus : us ≠ []) :
    stopLine (ts ++ us) = stopLine us := by
  have hfind : ts.find? isEof = none := by
    rw [List.find?_eq_none]
    intro t ht
    simpa [isEof] using hts t ht
  rw [stopLine, stopLine, List.find?_append, hfind, Option.none_or, List.getLast?_append,
    List.getLast?_eq_some_getLast hus, Option.some_or]

end Token

/-- The tokens are read in front of others. -/
def Elsewhere.before (ts us : List Token) : Elsewhere where
  symbol := id
  line := id
  more := Token.body us
  stop := Token.stopLine ts
  stop' := Token.stopLine (ts ++ us)

section

variable {ts us : List Token}

/-- Elsewhere the body of the other tokens stands behind. -/
theorem Elsewhere.tokens_before (vs : List Token) :
    (before ts us).tokens vs = vs ++ Token.body us := by
  rw [tokens, before, Token.map_rename_id]

/-- No name and no line is changed. -/
theorem Elsewhere.program_before (p : Program) : (before ts us).program p = p := by
  obtain ⟨statements, diagnostics⟩ := p
  have hstmt : (before ts us).stmt = id := funext Stmt.rename_id
  have hdiagnostic : (before ts us).diagnostic = id := rfl
  rw [program, hstmt, hdiagnostic, List.map_id, List.map_id]

theorem Token.head?_body {t : Token} (h : t ∈ (body us).head?) : t ∈ us.head? := by
  cases us with
  | nil => exact h
  | cons u us =>
      rw [body, List.takeWhile_cons] at h
      split at h
      · exact h
      · cases h

/-- What is read of the tokens that follow does not depend on those before them. -/
theorem declarations_stopLine_append (hts : ∀ t ∈ ts, t.kind ≠ .eof) :
    Grammar.declarations (Token.stopLine (ts ++ us)) (Token.body us) = parse us := by
  cases us with
  | nil =>
      rw [parse]
      simp only [Token.body, List.takeWhile_nil, Grammar.declarations]
  | cons u us => rw [Token.stopLine_append hts (List.cons_ne_nil u us), parse]

end

/-- Tokens without an end mark are followed by others that do not begin with `else`.  If the first
ones are read without a report, or if they end with a semicolon and no block and no `for` loop
begins in them, then all together are read as first the ones and then the others: the statements are
those of the first ones and then those of the others, and so are the diagnostics. -/
theorem parse_across_boundary (ts us : List Token) (hts : ∀ t ∈ ts, t.kind ≠ .eof)
    (helse : ∀ t ∈ us.head?, t.kind ≠ .keyword .else_)
    (hboundary : (parse ts).diagnostics = [] ∨
      (∃ t ∈ ts.getLast?, t.kind = .punct .semicolon) ∧
        ∀ t ∈ ts, t.kind ≠ .punct .leftCurly ∧ t.kind ≠ .keyword .for_) :
    (parse (ts ++ us)).statements = (parse ts).statements ++ (parse us).statements ∧
      (parse (ts ++ us)).diagnostics = (parse ts).diagnostics ++ (parse us).diagnostics := by
  have hparse : parse ts = Grammar.declarations (Token.stopLine ts) ts := by
    rw [parse, Token.body_eq_self hts]
  have hboundary : (Grammar.declarations (Token.stopLine ts) ts).diagnostics = [] ∨ Flat ts := by
    rw [← hparse]
    exact hboundary.imp_right fun h => ⟨h.1, h.2⟩
  have hread := Grammar.declarations_boundary (c := .before ts us)
    (fun t ht => helse t (Token.head?_body ht)) hboundary
  rw [Elsewhere.tokens_before, Elsewhere.program_before] at hread
  have happend : parse (ts ++ us) = (parse ts).append (parse us) :=
    calc parse (ts ++ us)
      _ = Grammar.declarations (Token.stopLine (ts ++ us)) (ts ++ Token.body us) := by
        rw [parse, Token.body_append_of_ne_eof hts]
      _ = (Grammar.declarations (Token.stopLine ts) ts).append
          (Grammar.declarations (Token.stopLine (ts ++ us)) (Token.body us)) := hread
      _ = (parse ts).append (parse us) := by
        rw [← hparse, declarations_stopLine_append hts]
  rw [happend]
  exact ⟨rfl, rfl⟩

/-- A `print` without a value and a `break` outside of loops: each part has its own mistake, and
both are reported, the first one first. -/
theorem parse_across_boundary_with_mistakes :
    let ts : List Token := [⟨.keyword .print_, "print", 1⟩, ⟨.punct .semicolon, ";", 1⟩]
    let us : List Token :=
      [⟨.keyword .break_, "break", 2⟩, ⟨.punct .semicolon, ";", 2⟩, ⟨.eof, "", 3⟩]
    (∀ t ∈ ts, t.kind ≠ .eof) ∧ (∀ t ∈ us.head?, t.kind ≠ .keyword .else_) ∧
      (∃ t ∈ ts.getLast?, t.kind = .punct .semicolon) ∧
      (∀ t ∈ ts, t.kind ≠ .punct .leftCurly ∧ t.kind ≠ .keyword .for_) ∧
      (parse (ts ++ us)).statements = (parse ts).statements ++ (parse us).statements ∧
      (parse (ts ++ us)).diagnostics =
        [⟨1, .lexeme ";", .expectedExpression⟩, ⟨2, .lexeme "break", .breakOutsideLoop⟩] := by
  intro ts us
  have hts : ∀ t ∈ ts, t.kind ≠ .eof := by decide
  have helse : ∀ t ∈ us.head?, t.kind ≠ .keyword .else_ := by decide
  have hends : ∃ t ∈ ts.getLast?, t.kind = .punct .semicolon := ⟨_, rfl, rfl⟩
  have hplain : ∀ t ∈ ts, t.kind ≠ .punct .leftCurly ∧ t.kind ≠ .keyword .for_ := by decide
  obtain ⟨hstatements, hdiagnostics⟩ :=
    parse_across_boundary ts us hts helse (.inr ⟨hends, hplain⟩)
  refine ⟨hts, helse, hends, hplain, hstatements, hdiagnostics.trans ?_⟩
  decide +kernel

end Lox
