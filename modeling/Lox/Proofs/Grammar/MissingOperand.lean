import Lox.Proofs.Grammar.Recovery

/-!
# Operators without a left operand

Where an expression should begin, an operator that needs an operand on its left is a mistake of its
own.  The operand on its right is read, at the level of the operator, and then the mistake is
reported and the statement given up.  So what follows in the expression is dropped and not read: it
is not reported a second time, whatever it is, and only this statement is lost.
-/

namespace Lox

/-! ## Phrases that fail -/

namespace Phrase

variable {α β : Type} {m n : Nat} {d : Diagnostic} {rest : List Token}

/-- The phrase could not be read, and nothing was reported before the mistake. -/
def Fails (p : Phrase α n) (mistake : Diagnostic) (rest : List Token) : Prop :=
  ∃ h, p = failed mistake rest [] h

namespace Fails

theorem within {p : Phrase α m} {h : m ≤ n} (hp : p.Fails d rest) : (p.within h).Fails d rest := by
  obtain ⟨hbound, rfl⟩ := hp
  exact ⟨Nat.le_trans hbound h, rfl⟩

theorem map {p : Phrase α n} {f : α → β} (hp : p.Fails d rest) : (p.map f).Fails d rest := by
  obtain ⟨hbound, rfl⟩ := hp
  exact ⟨hbound, rfl⟩

/-- Nothing is read behind a phrase that could not be read. -/
theorem andThen {p : Phrase α n}
    {next : (v : α) → (rest : List Token) → rest.length < n → Phrase β n} (hp : p.Fails d rest) :
    (p.andThen next).Fails d rest := by
  obtain ⟨hbound, rfl⟩ := hp
  exact ⟨hbound, rfl⟩

/-- A phrase that fails is settled with its mistake alone, and reading resumes behind it. -/
theorem settle {p : Phrase α n} {h : 0 < n} (hp : p.Fails d rest) :
    (p.settle h).value = none ∧ (p.settle h).rest = resume rest ∧ (p.settle h).reports = [d] := by
  obtain ⟨hbound, rfl⟩ := hp
  exact ⟨rfl, rfl, rfl⟩

end Fails

/-- What a phrase leaves, it leaves also when it is read cleanly. -/
theorem Leaves.of_reads {P Q : List Token → Prop} {p : Phrase α n} {v : α}
    (hp : p.Leaves P Q) (hread : p.Reads v rest) : P rest := by
  obtain ⟨h, rfl⟩ := hread
  exact hp

/-- A clean reading fails with what is read next. -/
theorem Reads.fails_andThen {p : Phrase α n} {v : α} {mid : List Token}
    {next : (v : α) → (rest : List Token) → rest.length < n → Phrase β n} (hp : p.Reads v mid)
    (hnext : ∀ h, (next v mid h).Fails d rest) : (p.andThen next).Fails d rest := by
  obtain ⟨h, rfl⟩ := hp
  obtain ⟨hbound, hfails⟩ := hnext h
  refine ⟨hbound, ?_⟩
  rw [Phrase.andThen, hfails]
  rfl

end Phrase

/-! ## Levels -/

namespace Grammar

open Phrase

section

variable {stop : Position} {ts rest : List Token}

/-- Operands that are joined by the operators of a level begin with one of them. -/
theorem exists_reads_operand {level : Level}
    (h : ∃ e rest, (binary stop level ts).Reads e rest) :
    ∃ e rest, (operand stop level ts).Reads e rest := by
  obtain ⟨_, _, h⟩ := h
  obtain ⟨e, rest, he, -⟩ := reads_binary.1 h
  exact ⟨e, rest, he⟩

/-- An expression begins with operands of each level. -/
theorem exists_reads_binary {e : Expr} (h : (expression stop ts).Reads e rest) (level : Level) :
    ∃ e rest, (binary stop level ts).Reads e rest := by
  cases level with
  | or =>
      obtain ⟨_, _, hconditional, -⟩ := reads_expression.1 h
      obtain ⟨e, rest, hor, -⟩ := reads_conditional.1 hconditional
      exact ⟨e, rest, hor⟩
  | and => simpa only [operand] using exists_reads_operand (exists_reads_binary h .or)
  | equality => simpa only [operand] using exists_reads_operand (exists_reads_binary h .and)
  | comparison => simpa only [operand] using exists_reads_operand (exists_reads_binary h .equality)
  | term => simpa only [operand] using exists_reads_operand (exists_reads_binary h .comparison)
  | factor => simpa only [operand] using exists_reads_operand (exists_reads_binary h .term)
termination_by 5 - level.rank
decreasing_by all_goals simp [Level.rank]

variable {d : Diagnostic}

/-- What begins with a phrase that fails fails with it, at every level. -/
theorem fails_binary (h : (unary stop ts).Fails d rest) (level : Level) :
    (binary stop level ts).Fails d rest := by
  have hoperand : (operand stop level ts).Fails d rest := by
    cases level <;> rw [operand]
    case factor => exact h
    all_goals exact fails_binary h _
  rw [binary]
  exact hoperand.andThen
termination_by level.rank
decreasing_by all_goals simp [Level.rank]

/-- The mistake is found behind the operand on the right. -/
theorem fails_primary {c : BinaryOp} {op : Token} {right : Expr}
    (hop : op.kind = (Connective.binary c).kind)
    (hright : (binary stop (Connective.binary c).level ts).Reads right rest) :
    (primary stop (op :: ts)).Fails (.atToken op .missingLeftOperand) rest := by
  have hconnective : op.kind.connective? = some (.binary c) := Kind.connective?_eq_some.mpr hop
  have hliteral : op.kind.literal? = none := by
    rw [hop]
    cases c <;> rfl
  rw [primary]
  split
  · next hl => simp [hliteral] at hl
  split
  · next hx => simp [hx, Kind.connective?] at hconnective
  · next hp => simp [hp, Kind.connective?] at hconnective
  · rw [hconnective]
    exact (reads_within.mpr hright).fails_andThen fun h => ⟨_, rfl⟩

/-- Of the operators between two operands only the minus sign may stand in front of a single one. -/
theorem fails_expression {c : BinaryOp} {op : Token} {right : Expr} (hc : c ≠ .sub)
    (hop : op.kind = (Connective.binary c).kind)
    (hright : (binary stop (Connective.binary c).level ts).Reads right rest) :
    (expression stop (op :: ts)).Fails (.atToken op .missingLeftOperand) rest := by
  have hunary : op.kind.unaryOp? = none := by
    rw [hop]
    cases c <;> first | rfl | exact absurd rfl hc
  have hfails : (unary stop (op :: ts)).Fails (.atToken op .missingLeftOperand) rest := by
    rw [unary]
    simp only [hunary]
    rw [call]
    exact (fails_primary hop hright).andThen
  rw [expression, conditional]
  exact (fails_binary hfails .or).andThen.andThen

end

end Grammar

/-! ## Statements that an expression ends -/

/-- The tokens of a statement in front of the expression with which it ends: of a statement that is
an expression, of a `print`, and of a variable that is declared with a value. -/
inductive Opens : List Token → Prop
  | expr : Opens []
  | print {keyword : Token} : keyword.kind = .keyword .print_ → Opens [keyword]
  | var {keyword name equals : Token} {x : Symbol} :
      keyword.kind = .keyword .var_ → name.kind = .identifier x → equals.kind = .punct .equal →
      Opens [keyword, name, equals]

theorem Opens.kind_ne_eof {front : List Token} (h : Opens front) :
    ∀ t ∈ front, t.kind ≠ .eof := by
  cases h <;> simp_all

namespace Grammar

open Phrase

variable {stop : Position} {scope : Scope} {ts rest : List Token} {d : Diagnostic}

/-- Without its expression, the phrase fails before the mark is looked for. -/
theorem fails_expressionBefore {p : Punct} {spot : Spot} (h : (expression stop ts).Fails d rest) :
    (expressionBefore stop p spot ts).Fails d rest := by
  rw [expressionBefore]
  exact h.andThen

/-- A declaration of a variable fails with its first value. -/
theorem fails_variableDeclaration {name equals : Token} {x : Symbol}
    (hname : name.kind = .identifier x) (hequals : equals.kind = .punct .equal)
    (h : (expression stop ts).Fails d rest) :
    (variableDeclaration stop (name :: equals :: ts)).Fails d rest := by
  have hread : (Grammar.name stop .variable_ (name :: equals :: ts)).Reads x (equals :: ts) :=
    reads_name.mpr ⟨name, rfl, hname⟩
  rw [variableDeclaration]
  refine hread.fails_andThen fun hlt => ?_
  rw [ifNext, if_pos hequals]
  exact (fails_expressionBefore h).within.map

/-- A statement fails with the expression that ends it. -/
theorem fails_declaration {front : List Token} (hfront : Opens front) {c : BinaryOp} {op : Token}
    (hop : op.kind = (Connective.binary c).kind) (h : (expression stop (op :: ts)).Fails d rest) :
    (declaration stop scope (front ++ op :: ts)).Fails d rest := by
  cases hfront with
  | expr =>
      have hfails : (statement stop scope (op :: ts)).Fails d rest := by
        have hlead : op.kind.leadsStatement = false := by
          rw [hop]
          cases c <;> rfl
        rw [statement_eq_expression hlead]
        exact (fails_expressionBefore h).map
      have hfun : op.kind ≠ .keyword .fun_ := by
        rw [hop]
        cases c <;> decide
      have hvar : op.kind ≠ .keyword .var_ := by
        rw [hop]
        cases c <;> decide
      rw [List.nil_append, declaration, if_neg hfun, if_neg hvar]
      exact hfails
  | @print keyword hkeyword =>
      have hfun : keyword.kind ≠ .keyword .fun_ := by rw [hkeyword]; decide
      have hvar : keyword.kind ≠ .keyword .var_ := by rw [hkeyword]; decide
      rw [List.singleton_append, declaration, if_neg hfun, if_neg hvar, statement]
      simp only [hkeyword]
      exact (fails_expressionBefore h).within.map
  | @var keyword name equals x hkeyword hname hequals =>
      have hfun : keyword.kind ≠ .keyword .fun_ := by rw [hkeyword]; decide
      rw [List.cons_append, declaration, if_neg hfun, if_pos hkeyword]
      exact (fails_variableDeclaration hname hequals h).within

end Grammar

/-! ## The semicolon behind an expression -/

/-- Reading never resumes behind or in front of such a token. -/
def Kind.isPassed (kind : Kind) : Bool := kind ≠ .punct .semicolon && !kind.startsStatement

theorem Kind.isPassed_iff {kind : Kind} :
    kind.isPassed = true ↔ kind ≠ .punct .semicolon ∧ kind.startsStatement = false := by
  simp [isPassed]

theorem UnaryOp.isPassed_kind (op : UnaryOp) : op.kind.isPassed = true := by
  cases op <;> rfl

theorem Connective.isPassed_kind (c : Connective) : c.kind.isPassed = true := by
  rcases c with op | op <;> cases op <;> rfl

theorem Literal.isPassed_kind (value : Literal) : value.kind.isPassed = true := by
  rcases value with _ | b | n | s
  · rfl
  · cases b <;> rfl
  · rfl
  · rfl

mutual

/-- No semicolon stands in an expression, and no word that starts a statement. -/
theorem Derives.isPassed {tier : Tier} {ts : List Token} {e : Expr} (h : Derives tier ts e) :
    ∀ t ∈ ts, t.kind.isPassed = true := by
  match h with
  | .assign hname hequals h =>
      simp only [List.forall_mem_cons, hname, hequals]
      exact ⟨rfl, rfl, h.isPassed⟩
  | .ofConditional h => exact h.isPassed
  | .conditional h hquestion h₂ hcolon h₃ =>
      simp only [List.forall_mem_append, List.forall_mem_cons, hquestion, hcolon]
      exact ⟨⟨h.isPassed, rfl, h₂.isPassed⟩, rfl, h₃.isPassed⟩
  | .ofBinary h => exact h.isPassed
  | .join (c := c) h _ hop h₂ =>
      simp only [List.forall_mem_append, List.forall_mem_cons, hop]
      exact ⟨h.isPassed, c.isPassed_kind, h₂.isPassed⟩
  | .ofOperand h => exact h.isPassed
  | @Derives.unary op _ _ _ ht h =>
      simp only [List.forall_mem_cons, ht]
      exact ⟨op.isPassed_kind, h.isPassed⟩
  | .ofCall h => exact h.isPassed
  | .call h hopening hargs _ hclosing =>
      simp only [List.forall_mem_append, List.forall_mem_cons, hopening, hclosing]
      exact ⟨⟨h.isPassed, rfl, hargs.isPassed⟩, rfl, List.forall_mem_nil _⟩
  | .callEmpty h hopening hclosing =>
      simp only [List.forall_mem_append, List.forall_mem_cons, hopening, hclosing]
      exact ⟨h.isPassed, rfl, rfl, List.forall_mem_nil _⟩
  | .ofPrimary h => exact h.isPassed
  | @Derives.literal _ value ht =>
      simp only [List.forall_mem_singleton, ht]
      exact value.isPassed_kind
  | .var ht =>
      simp only [List.forall_mem_singleton, ht]
      rfl
  | .group hopening h hclosing =>
      simp only [List.forall_mem_append, List.forall_mem_cons, hopening, hclosing]
      exact ⟨⟨rfl, h.isPassed⟩, rfl, List.forall_mem_nil _⟩
termination_by structural h

/-- Nor is any token of derived arguments. -/
theorem DerivesArguments.isPassed {ts : List Token} {args : List Expr}
    (h : DerivesArguments ts args) : ∀ t ∈ ts, t.kind.isPassed = true := by
  match h with
  | .one h => exact h.isPassed
  | .more h hcomma h₂ =>
      simp only [List.forall_mem_append, List.forall_mem_cons, hcomma]
      exact ⟨h.isPassed, rfl, h₂.isPassed⟩
termination_by structural h

end

/-- The tokens up to the first semicolon are passed over, and `us` remain behind it. -/
inductive UpToSemicolon (us : List Token) : List Token → Prop
  | semicolon {t : Token} : t.kind = .punct .semicolon → UpToSemicolon us (t :: us)
  | passed {t : Token} {ts : List Token} :
      t.kind.isPassed = true → UpToSemicolon us ts → UpToSemicolon us (t :: ts)

namespace UpToSemicolon

variable {us ts : List Token}

theorem keptToSemicolon : Grammar.KeptToSemicolon (UpToSemicolon us) := by
  intro t ts ht h
  cases h with
  | semicolon hsemicolon => exact absurd hsemicolon ht
  | passed _ h => exact h

/-- No statement begins in front of the semicolon. -/
theorem head_startsStatement (h : UpToSemicolon us ts) :
    ts.head?.any (·.kind.startsStatement) = false := by
  cases h with
  | semicolon hsemicolon => simp [hsemicolon, Kind.startsStatement]
  | passed ht _ => simpa using (Kind.isPassed_iff.mp ht).2

/-- Reading resumes behind that semicolon. -/
theorem resume_eq (h : UpToSemicolon us ts) : resume ts = us := by
  induction h with
  | semicolon hsemicolon => exact resume_of_stops (.inl hsemicolon)
  | @passed t ts ht h ih =>
      have hpasses : ¬(t.kind = .punct .semicolon ∨ ts.head?.any (·.kind.startsStatement)) := by
        rw [h.head_startsStatement]
        exact not_or.mpr ⟨(Kind.isPassed_iff.mp ht).1, Bool.false_ne_true⟩
      rw [resume_of_passes hpasses, ih]

/-- Tokens at which nothing resumes may stand in front. -/
theorem of_passed {es : List Token} (hes : ∀ t ∈ es, t.kind.isPassed = true)
    (h : UpToSemicolon us ts) : UpToSemicolon us (es ++ ts) := by
  induction es with
  | nil => exact h
  | cons e es ih =>
      obtain ⟨he, hes⟩ := List.forall_mem_cons.mp hes
      exact .passed he (ih hes)

end UpToSemicolon

/-- In an expression that a semicolon ends, operands of any level are read at the front.  What they
leave of the expression is passed over, and so is the semicolon. -/
theorem Derives.exists_reads_binary (stop : Position) {es : List Token} {e : Expr}
    (h : Derives .expression es e) (level : Level) {semicolon : Token}
    (hsemicolon : semicolon.kind = .punct .semicolon) (us : List Token) :
    ∃ left rest, (Grammar.binary stop level (es ++ semicolon :: us)).Reads left rest ∧
      resume rest = us := by
  have hgoesOn : Tier.expression.goesOn semicolon.kind = false := by
    rw [hsemicolon]
    rfl
  have hread := h.reads_expression stop hgoesOn us
  obtain ⟨left, rest, hleft⟩ := Grammar.exists_reads_binary hread level
  have hup : UpToSemicolon us (es ++ semicolon :: us) :=
    .of_passed h.isPassed (.semicolon hsemicolon)
  have hleaves : (Grammar.binary stop level (es ++ semicolon :: us)).Leaves
      (UpToSemicolon us) (UpToSemicolon us) :=
    Grammar.leaves_binary UpToSemicolon.keptToSemicolon level hup
  exact ⟨left, rest, hleft, (hleaves.of_reads hleft).resume_eq⟩

/-! ## Programs -/

namespace Grammar

open Phrase

/-- Where the first declaration fails, its mistake is reported and reading goes on behind it. -/
theorem declarations_of_fails {stop : Position} {ts rest : List Token} {d : Diagnostic}
    (hts : ts ≠ []) (h : (declaration stop {} ts).Fails d rest) :
    declarations stop ts = (Program.mk [] [d]).append (declarations stop (resume rest)) := by
  obtain ⟨t, ts, rfl⟩ := List.exists_cons_of_ne_nil hts
  obtain ⟨hvalue, hrest, hreports⟩ := h.settle (h := length_cons_pos t ts)
  rw [declarations_cons, first, hvalue, hrest, hreports]
  rfl

end Grammar

/-- An operator other than the minus sign stands where an expression should begin: at the front of a
statement, behind `print`, or behind the equals sign of a declaration.  What follows, up to the
semicolon, is an expression.  The operator is reported once, nothing is kept of the statement, and
whatever is behind the semicolon is read as it would be by itself. -/
theorem parse_missing_left_operand {front es : List Token} (us : List Token) {c : BinaryOp}
    {op semicolon : Token} {e : Expr} (hfront : Opens front) (hc : c ≠ .sub)
    (hop : op.kind = (Connective.binary c).kind) (hes : ∀ t ∈ es, t.kind ≠ .eof)
    (hsemicolon : semicolon.kind = .punct .semicolon)
    (hparse : parse (es ++ [semicolon]) = ⟨[.expr e], []⟩) :
    parse (front ++ op :: es ++ semicolon :: us) =
      ⟨(parse us).statements, .atToken op .missingLeftOperand :: (parse us).diagnostics⟩ := by
  have hderives := derives_of_parse_singleton hes hsemicolon hparse
  have hne : ∀ t ∈ front ++ op :: es ++ [semicolon], t.kind ≠ .eof := by
    simp only [List.forall_mem_append, List.forall_mem_cons, hop, hsemicolon]
    refine ⟨⟨hfront.kind_ne_eof, ?_, hes⟩, Kind.noConfusion, List.forall_mem_nil _⟩
    cases c <;> exact Kind.noConfusion
  have hsplit (vs : List Token) : front ++ op :: es ++ semicolon :: vs =
      front ++ op :: es ++ [semicolon] ++ vs := by
    simp
  have hbehind : Grammar.declarations (Token.stopLine (front ++ op :: es ++ semicolon :: us))
      (Token.body us) = parse us := by
    rw [hsplit]
    exact declarations_stopLine_append hne
  have hbody : Token.body (front ++ op :: es ++ semicolon :: us) =
      front ++ op :: (es ++ semicolon :: Token.body us) := by
    rw [hsplit, Token.body_append_of_ne_eof hne]
    simp
  rw [parse, hbody]
  generalize Token.stopLine (front ++ op :: es ++ semicolon :: us) = stop at hbehind ⊢
  obtain ⟨right, rest, hright, hresume⟩ :=
    hderives.exists_reads_binary stop (Connective.binary c).level hsemicolon (Token.body us)
  have hfails : (Grammar.declaration stop {}
      (front ++ op :: (es ++ semicolon :: Token.body us))).Fails
        (.atToken op .missingLeftOperand) rest :=
    Grammar.fails_declaration hfront hop (Grammar.fails_expression hc hop hright)
  have hcons : front ++ op :: (es ++ semicolon :: Token.body us) ≠ [] := by simp
  rw [Grammar.declarations_of_fails hcons hfails, hresume, hbehind]
  rfl

/-- Of `var x = * a = b ? c : d; print nil;` the second statement is read. -/
theorem parse_missing_left_operand_assignment :
    let name (x : String) (id : Nat) : Token := ⟨.identifier ⟨id, x⟩, x, 1⟩
    let punct (p : Punct) : Token := ⟨.punct p, p.spelling, 1⟩
    let front := [⟨.keyword .var_, "var", 1⟩, name "x" 17, punct .equal]
    let es := [name "a" 18, punct .equal, name "b" 19, punct .question, name "c" 20, punct .colon,
      name "d" 21]
    let us := [⟨.keyword .print_, "print", 2⟩, ⟨.keyword .nil_, "nil", 2⟩, punct .semicolon]
    ∃ e, parse (es ++ [punct .semicolon]) = ⟨[.expr e], []⟩ ∧
      parse (front ++ punct .star :: es ++ punct .semicolon :: us) =
        ⟨(parse us).statements, .atToken (punct .star) .missingLeftOperand ::
          (parse us).diagnostics⟩ ∧
      (parse us).statements = [.print (.literal .nil)] := by
  intro name punct front es us
  have hparse : parse (es ++ [punct .semicolon]) =
      ⟨[.expr (.assign ⟨18, "a"⟩
        (.conditional (.var ⟨19, "b"⟩ 1) (.var ⟨20, "c"⟩ 1) (.var ⟨21, "d"⟩ 1)) 1)], []⟩ := by
    cbv
  have hfront : Opens front := .var rfl rfl rfl
  refine ⟨_, hparse, ?_, by cbv⟩
  exact @parse_missing_left_operand front es us .mul (punct .star) (punct .semicolon) _ hfront
    (by decide) rfl (by decide) rfl hparse

end Lox
