import Lox.Proofs.Grammar.Derivation
import Lox.Proofs.Grammar.Reads

/-!
# What is derived is read cleanly

Tokens that derive a phrase are read as that phrase, whatever follows them, as long as the first
token behind them does not go on with the phrase.  A chain of operators and a chain of calls are
read from the left: what such a chain has read so far is handed to the rest of the loop.  So the
claim about them is that the loop is reached with the tree that was derived.
-/

namespace Lox

/-! ## What goes on with an expression -/

namespace Tier

/-- Whether a token behind an expression of the tier would be read as a part of it. -/
def goesOn : Tier → Kind → Bool
  | primary, _ => false
  | call, kind | unary, kind => kind = .punct .leftParen
  | binary level, kind =>
    kind = .punct .leftParen || kind.connective?.any (·.level.rank ≤ level.rank)
  | conditional, kind =>
    kind = .punct .leftParen || kind.connective?.isSome || kind = .punct .question
  | expression, kind =>
    kind = .punct .leftParen || kind.connective?.isSome || kind = .punct .question ||
      kind = .punct .equal

/-- The tokens do not go on with an expression of the tier. -/
def Stops (tier : Tier) (rest : List Token) : Prop := ∀ t ∈ rest.head?, tier.goesOn t.kind = false

@[simp] theorem stops_cons {tier : Tier} {t : Token} {rest : List Token} :
    tier.Stops (t :: rest) ↔ tier.goesOn t.kind = false := by
  simp [Stops]

/-- Where a tier cannot go on, neither can one that goes on with less. -/
theorem Stops.mono {tier tier' : Tier} {rest : List Token} (h : tier.Stops rest)
    (himp : ∀ kind, tier.goesOn kind = false → tier'.goesOn kind = false) : tier'.Stops rest :=
  fun t ht => himp t.kind (h t ht)

/-- What does not go on with a level does not go on with its operands either. -/
theorem Stops.operands {level : Level} {rest : List Token} (h : (binary level).Stops rest) :
    level.operands.Stops rest := by
  refine h.mono fun kind hkind => ?_
  simp only [goesOn, Bool.or_eq_false_iff, Option.any_eq_false, decide_eq_false_iff_not] at hkind
  obtain ⟨hparen, hconn⟩ := hkind
  cases level with
  | factor => simpa [Level.operands, goesOn] using hparen
  | _ =>
      simp only [Level.operands, goesOn, Bool.or_eq_false_iff, Option.any_eq_false,
        decide_eq_false_iff_not]
      refine ⟨hparen, fun c hc => ?_⟩
      have := hconn c hc
      simp only [Level.rank] at this ⊢
      omega

/-- Where a level cannot go on, none of its connectives is next. -/
theorem Stops.connectiveAt? {level : Level} {rest : List Token} (h : (binary level).Stops rest) :
    ∀ t ∈ rest.head?, t.kind.connectiveAt? level = none := by
  intro t ht
  have hkind := h t ht
  simp only [goesOn, Bool.or_eq_false_iff, Option.any_eq_false, decide_eq_false_iff_not] at hkind
  rw [Kind.connectiveAt?, Option.filter_eq_none_iff]
  intro c hc hlevel
  exact hkind.2 c hc (by simp [of_decide_eq_true hlevel])

/-- An operator of a level does not go on with an operand of the level. -/
theorem stops_connective {level : Level} {c : Connective} {op : Token} {rest : List Token}
    (hc : c ∈ level.connectives) (hop : op.kind = c.kind) : level.operands.Stops (op :: rest) := by
  rw [stops_cons, hop]
  obtain rfl := Connective.mem_connectives.1 hc
  rcases c with op | op <;> cases op <;> rfl

/-- The function of the grammar that reads expressions of the tier. -/
def read (stop : Position) (tier : Tier) (ts : List Token) : Phrase Expr ts.length :=
  match tier with
  | expression => Grammar.expression stop ts
  | conditional => Grammar.conditional stop ts
  | binary level => Grammar.binary stop level ts
  | unary => Grammar.unary stop ts
  | call => Grammar.call stop ts
  | primary => Grammar.primary stop ts

/-- The operands of a level are read as the tier below it. -/
theorem operand_eq_read (stop : Position) (level : Level) (ts : List Token) :
    Grammar.operand stop level ts = level.operands.read stop ts := by
  cases level <;> rw [Grammar.operand] <;> rfl

/-- The tokens are read as the expression.  Where a loop reads the expression, the tokens bring the
loop to the expression. -/
def Completes (stop : Position) (ts : List Token) (e : Expr) : Tier → Prop
  | binary level => ∀ ⦃rest e' rest'⦄, level.operands.Stops rest →
      (Grammar.chain stop level e rest).Reads e' rest' →
        (Grammar.binary stop level (ts ++ rest)).Reads e' rest'
  | call => ∀ ⦃rest e' rest'⦄, (Grammar.calls stop e rest).Reads e' rest' →
      (Grammar.call stop (ts ++ rest)).Reads e' rest'
  | tier => ∀ ⦃rest⦄, tier.Stops rest → (tier.read stop (ts ++ rest)).Reads e rest

namespace Completes

open Grammar

variable {stop : Position} {ts ts₁ ts₂ ts₃ : List Token} {e : Expr}

/-- What is completed is read, whatever may follow that the tier does not go on with. -/
theorem reads {tier : Tier} (h : tier.Completes stop ts e) {rest : List Token}
    (hrest : tier.Stops rest) : (tier.read stop (ts ++ rest)).Reads e rest := by
  match tier with
  | .binary level =>
      exact h hrest.operands (reads_chain.2 (.inr ⟨hrest.connectiveAt?, rfl, rfl⟩))
  | .call =>
      refine h (reads_calls.2 (.inr ⟨fun t ht => ?_, rfl, rfl⟩))
      simpa [goesOn] using hrest t ht
  | .expression | .conditional | .unary | .primary => exact h hrest

/-! One lemma for each production. -/

theorem literal {t : Token} {value : Literal} (ht : t.kind = value.kind) :
    primary.Completes stop [t] (.literal value) := fun rest _ =>
  reads_primary.2 ⟨t, rest, rfl, .inl ⟨value, Kind.literal?_eq_some.2 ht, rfl, rfl⟩⟩

theorem var {t : Token} {x : Symbol} (ht : t.kind = .identifier x) :
    primary.Completes stop [t] (.var x t.line) := fun rest _ =>
  reads_primary.2 ⟨t, rest, rfl, .inr (.inl ⟨x, ht, rfl, rfl⟩)⟩

/-- Any expression is primary in parentheses. -/
theorem group {opening closing : Token} (hopening : opening.kind = .punct .leftParen)
    (h : expression.Completes stop ts e) (hclosing : closing.kind = .punct .rightParen) :
    primary.Completes stop (opening :: ts ++ [closing]) (.group e) := by
  intro rest _
  have hinner : (Grammar.expression stop (ts ++ closing :: rest)).Reads e (closing :: rest) :=
    h (stops_cons.2 (by rw [hclosing]; rfl))
  exact reads_primary.2 ⟨opening, ts ++ closing :: rest, by simp, .inr (.inr ⟨hopening, e, _,
    hinner, closing, ⟨rfl, hclosing⟩, rfl⟩)⟩

theorem ofPrimary (h : primary.Completes stop ts e) : call.Completes stop ts e :=
  fun rest _ _ hcalls => reads_call.2 ⟨e, rest, h fun _ _ => rfl, hcalls⟩

/-- A call with no arguments records the line of its closing parenthesis. -/
theorem callEmpty {opening closing : Token} {callee : Expr} (h : call.Completes stop ts callee)
    (hopening : opening.kind = .punct .leftParen) (hclosing : closing.kind = .punct .rightParen) :
    call.Completes stop (ts ++ [opening, closing]) (.call callee [] closing.line) := by
  intro rest e' rest' hcalls
  rw [List.append_assoc]
  refine h (reads_calls.2 (.inl ⟨opening, closing :: rest, rfl, hopening, ([], closing.line), rest,
    ?_, hcalls⟩))
  exact reads_arguments.2 (.inl ⟨closing, rest, rfl, hclosing, rfl, rfl⟩)

/-- A call goes on with the arguments that are read up to its closing parenthesis. -/
theorem call {opening closing : Token} {callee : Expr} {args : List Expr}
    (h : call.Completes stop ts₁ callee) (hopening : opening.kind = .punct .leftParen)
    (hargs : ∀ rest, (arguments stop (ts₂ ++ closing :: rest)).Reads (args, closing.line) rest) :
    call.Completes stop (ts₁ ++ opening :: ts₂ ++ [closing]) (.call callee args closing.line) := by
  intro rest e' rest' hcalls
  rw [List.append_assoc, List.append_assoc]
  exact h (reads_calls.2 (.inl ⟨opening, ts₂ ++ closing :: rest, rfl, hopening,
    (args, closing.line), rest, hargs rest, hcalls⟩))

/-- A call begins with no operator. -/
theorem unaryOp?_eq_none {ts rest : List Token} {e : Expr}
    (h : (Grammar.call stop ts).Reads e rest) : ∀ t ∈ ts.head?, t.kind.unaryOp? = none := by
  obtain ⟨callee, _, hprimary, -⟩ := reads_call.1 h
  obtain ⟨t, ts₁, rfl, hkind⟩ := reads_primary.1 hprimary
  rintro _ ⟨⟩
  rcases hkind with ⟨value, hvalue, -⟩ | ⟨x, hx, -⟩ | ⟨hparen, -⟩
  · rw [Kind.literal?_eq_some.1 hvalue]
    rcases value with _ | b | n | s
    · rfl
    · cases b <;> rfl
    · rfl
    · rfl
  · rw [hx]
    rfl
  · rw [hparen]
    rfl

/-- A call is no operator, and so the unary tier hands it on. -/
theorem ofCall (h : Tier.call.Completes stop ts e) : unary.Completes stop ts e := by
  intro rest hrest
  have hcall : (Grammar.call stop (ts ++ rest)).Reads e rest := h.reads hrest
  exact reads_unary.2 (.inr ⟨unaryOp?_eq_none hcall, hcall⟩)

theorem unary {op : UnaryOp} {t : Token} (ht : t.kind = op.kind)
    (h : unary.Completes stop ts e) : unary.Completes stop (t :: ts) (.unary op e t.line) :=
  fun rest hrest => reads_unary.2 (.inl ⟨t, ts ++ rest, rfl, op, Kind.unaryOp?_eq_some.2 ht, e,
    h hrest, rfl⟩)

/-- An operand is a chain of no operators yet, and goes on as whatever chain it begins. -/
theorem ofOperand {level : Level} (h : level.operands.Completes stop ts e) :
    (binary level).Completes stop ts e := fun rest _ _ hrest hchain =>
  reads_binary.2 ⟨e, rest, operand_eq_read stop level _ ▸ h.reads hrest, hchain⟩

/-- A connective joins what stands in front of it, whole, with one operand behind it. -/
theorem join {level : Level} {c : Connective} {op : Token} {left right : Expr}
    (hleft : (binary level).Completes stop ts₁ left) (hc : c ∈ level.connectives)
    (hop : op.kind = c.kind) (hright : level.operands.Completes stop ts₂ right) :
    (binary level).Completes stop (ts₁ ++ op :: ts₂) (c.join left right op.line) := by
  intro rest e' rest' hrest hchain
  rw [List.append_assoc]
  refine hleft (stops_connective hc hop) (reads_chain.2 (.inl ⟨op, ts₂ ++ rest, rfl, c,
    Kind.connectiveAt?_eq_some.2 ⟨hc, hop⟩, right, rest, ?_, hchain⟩))
  exact operand_eq_read stop level _ ▸ hright.reads hrest

theorem ofBinary (h : (binary .or).Completes stop ts e) : conditional.Completes stop ts e := by
  intro rest hrest
  have hor : (binary .or).Stops rest := by
    refine hrest.mono fun kind hkind => ?_
    simp only [goesOn, Bool.or_eq_false_iff, Option.any_eq_false, Option.isSome_eq_false_iff,
      Option.isNone_iff_eq_none] at hkind ⊢
    exact ⟨hkind.1.1, by simp [hkind.1.2]⟩
  refine reads_conditional.2 ⟨e, rest, h.reads hor, .inr ⟨fun t ht => ?_, rfl, rfl⟩⟩
  have hkind := hrest t ht
  simp only [goesOn, Bool.or_eq_false_iff, decide_eq_false_iff_not] at hkind
  exact hkind.2

/-- The middle branch may be any expression, and the last one goes on with as many conditionals as
there are. -/
theorem conditional {question colon : Token} {condition yes no : Expr}
    (hcondition : (binary .or).Completes stop ts₁ condition)
    (hquestion : question.kind = .punct .question) (hyes : expression.Completes stop ts₂ yes)
    (hcolon : colon.kind = .punct .colon) (hno : conditional.Completes stop ts₃ no) :
    conditional.Completes stop (ts₁ ++ question :: ts₂ ++ colon :: ts₃)
      (.conditional condition yes no) := by
  intro rest hrest
  rw [List.append_assoc, List.append_assoc]
  refine reads_conditional.2 ⟨condition, _, hcondition.reads (stops_cons.2 ?_), .inl ⟨question,
    ts₂ ++ colon :: (ts₃ ++ rest), rfl, hquestion, yes, _, hyes (stops_cons.2 ?_), colon,
    ts₃ ++ rest, ⟨rfl, hcolon⟩, no, hno hrest, rfl⟩⟩
  · rw [hquestion]
    rfl
  · rw [hcolon]
    rfl

theorem ofConditional (h : Tier.conditional.Completes stop ts e) :
    expression.Completes stop ts e := by
  intro rest hrest
  have hcond : Tier.conditional.Stops rest := by
    refine hrest.mono fun kind hkind => ?_
    simp only [goesOn, Bool.or_eq_false_iff] at hkind ⊢
    exact hkind.1
  refine reads_expression.2 ⟨e, rest, h hcond, .inr ⟨fun t ht => ?_, rfl, rfl⟩⟩
  have hkind := hrest t ht
  simp only [goesOn, Bool.or_eq_false_iff, decide_eq_false_iff_not] at hkind
  exact hkind.2

/-- A name alone passes through all tiers. -/
theorem conditional_var {t : Token} {x : Symbol} (ht : t.kind = .identifier x) :
    Tier.conditional.Completes stop [t] (.var x t.line) :=
  have factor : Level.factor.operands.Completes stop [t] (.var x t.line) :=
    (var ht).ofPrimary.ofCall
  have term : Level.term.operands.Completes stop [t] (.var x t.line) := factor.ofOperand
  have comparison : Level.comparison.operands.Completes stop [t] (.var x t.line) := term.ofOperand
  have equality : Level.equality.operands.Completes stop [t] (.var x t.line) := comparison.ofOperand
  have and : Level.and.operands.Completes stop [t] (.var x t.line) := equality.ofOperand
  have or : Level.or.operands.Completes stop [t] (.var x t.line) := and.ofOperand
  or.ofOperand.ofBinary

/-- The target is read as an expression first, and then found to be a variable. -/
theorem assign {name equals : Token} {x : Symbol} (hname : name.kind = .identifier x)
    (hequals : equals.kind = .punct .equal) (h : expression.Completes stop ts e) :
    expression.Completes stop (name :: equals :: ts) (.assign x e name.line) := by
  intro rest hrest
  refine reads_expression.2 ⟨.var x name.line, equals :: (ts ++ rest), ?_, .inl ⟨equals, ts ++ rest,
    rfl, hequals, e, rest, h hrest, x, name.line, rfl, rfl, rfl⟩⟩
  exact (conditional_var hname) (stops_cons.2 (by rw [hequals]; rfl))

end Completes

end Tier

/-! ## How phrases begin -/

/-- Whether an expression can begin with a token of the kind. -/
def Kind.startsExpression : Kind → Bool
  | .identifier _ | .punct .leftParen => true
  | kind => kind.literal?.isSome || kind.unaryOp?.isSome

/-- Whether a declaration can begin with a token of the kind. -/
def Kind.startsDeclaration : Kind → Bool
  | .keyword .fun_ | .keyword .var_ | .keyword .print_ | .punct .leftCurly | .keyword .if_
  | .keyword .while_ | .keyword .for_ | .keyword .break_ | .keyword .return_ => true
  | kind => kind.startsExpression

/-- There is a first token, and its kind has the property. -/
def Begins (p : Kind → Bool) (ts : List Token) : Prop := ∃ t rest, ts = t :: rest ∧ p t.kind = true

namespace Begins

variable {p : Kind → Bool} {ts : List Token}

/-- What follows does not change how a text begins. -/
theorem append (h : Begins p ts) (rest : List Token) : Begins p (ts ++ rest) := by
  obtain ⟨t, ts, rfl, ht⟩ := h
  exact ⟨t, ts ++ rest, rfl, ht⟩

/-- A text does not begin with a token of a kind that it may not begin with. -/
theorem head_ne (h : Begins p ts) {kind : Kind} (hkind : p kind = false) :
    ∀ t ∈ ts.head?, t.kind ≠ kind := by
  obtain ⟨t, ts, rfl, ht⟩ := h
  rintro _ ⟨⟩ rfl
  rw [ht] at hkind
  cases hkind

theorem of_kind {t : Token} {rest : List Token} {kind : Kind} (ht : t.kind = kind)
    (hkind : p kind = true) : Begins p (t :: rest) := ⟨t, rest, rfl, ht ▸ hkind⟩

/-- What begins an expression also begins a declaration. -/
theorem declaration (h : Begins Kind.startsExpression ts) : Begins Kind.startsDeclaration ts := by
  obtain ⟨t, ts, rfl, ht⟩ := h
  refine ⟨t, ts, rfl, ?_⟩
  unfold Kind.startsDeclaration
  split <;> first | rfl | exact ht

end Begins

theorem Literal.startsExpression_kind (value : Literal) : value.kind.startsExpression = true := by
  rcases value with _ | b | n | s
  · rfl
  · cases b <;> rfl
  · rfl
  · rfl

theorem UnaryOp.startsExpression_kind (op : UnaryOp) : op.kind.startsExpression = true := by
  cases op <;> rfl

/-- A derived expression is not empty, and begins with a token that may begin one. -/
theorem Derives.begins {tier : Tier} {ts : List Token} {e : Expr} (h : Derives tier ts e) :
    Begins Kind.startsExpression ts := by
  match h with
  | .ofConditional h => exact h.begins
  | .ofBinary h => exact h.begins
  | .ofOperand h => exact h.begins
  | .ofCall h => exact h.begins
  | .ofPrimary h => exact h.begins
  | .conditional h .. => simpa using h.begins.append _
  | .join h .. => exact h.begins.append _
  | .call h .. => simpa using h.begins.append _
  | .callEmpty h .. => exact h.begins.append _
  | .assign hname .. => exact .of_kind hname rfl
  | .unary ht _ => exact .of_kind ht (UnaryOp.startsExpression_kind _)
  | .literal ht => exact .of_kind ht (Literal.startsExpression_kind _)
  | .var ht => exact .of_kind ht rfl
  | .group hopening .. => exact .of_kind hopening rfl
termination_by structural h

theorem DerivesArguments.begins {ts : List Token} {args : List Expr}
    (h : DerivesArguments ts args) : Begins Kind.startsExpression ts := by
  cases h with
  | one h => exact h.begins
  | more h => exact h.begins.append _

/-! ## Expressions -/

mutual

/-- Each production is completed by the tier it is for, and a derivation by induction. -/
theorem Derives.completes (stop : Position) {tier : Tier} {ts : List Token} {e : Expr}
    (h : Derives tier ts e) : tier.Completes stop ts e := by
  match h with
  | .assign hname hequals h => exact .assign hname hequals (h.completes stop)
  | .ofConditional h => exact .ofConditional (h.completes stop)
  | .conditional h hquestion h₂ hcolon h₃ =>
      exact .conditional (h.completes stop) hquestion (h₂.completes stop) hcolon (h₃.completes stop)
  | .ofBinary h => exact .ofBinary (h.completes stop)
  | .join h hc hop h₂ => exact .join (h.completes stop) hc hop (h₂.completes stop)
  | .ofOperand h => exact .ofOperand (h.completes stop)
  | .unary ht h => exact .unary ht (h.completes stop)
  | .ofCall h => exact .ofCall (h.completes stop)
  | .call h hopening hargs harity hclosing =>
      refine .call (h.completes stop) hopening fun rest => Grammar.reads_arguments.2 (.inr ⟨?_, ?_⟩)
      · exact (hargs.begins.append _).head_ne rfl
      · exact hargs.reads stop 0 (by omega) hclosing rest
  | .callEmpty h hopening hclosing => exact .callEmpty (h.completes stop) hopening hclosing
  | .ofPrimary h => exact .ofPrimary (h.completes stop)
  | .literal ht => exact .literal ht
  | .var ht => exact .var ht
  | .group hopening h hclosing => exact .group hopening (h.completes stop) hclosing
termination_by structural h

/-- Derived arguments are read up to the parenthesis behind them, if they are not too many. -/
theorem DerivesArguments.reads (stop : Position) (count : Nat) {ts : List Token} {args : List Expr}
    (h : DerivesArguments ts args) (harity : count + args.length ≤ maxArity) {closing : Token}
    (hclosing : closing.kind = .punct .rightParen) (rest : List Token) :
    (Grammar.argumentList stop count (ts ++ closing :: rest)).Reads (args, closing.line) rest := by
  match h with
  | .one h =>
      refine Grammar.reads_argumentList.2 ⟨harity, _, closing :: rest,
        (h.completes stop).reads (Tier.stops_cons.2 ?_), .inr ⟨?_, closing, ⟨rfl, hclosing⟩, rfl⟩⟩
      · rw [hclosing]
        rfl
      · rintro _ ⟨⟩
        simp [hclosing]
  | .more h hcomma h₂ =>
      rw [List.length_cons] at harity
      rw [List.append_assoc]
      refine Grammar.reads_argumentList.2 ⟨by omega, _, _,
        (h.completes stop).reads (Tier.stops_cons.2 ?_), .inl ⟨_, _, rfl, hcomma, (_, closing.line),
        ?_, rfl⟩⟩
      · rw [hcomma]
        rfl
      · exact h₂.reads stop (count + 1) (by omega) hclosing rest
termination_by structural h

end

/-- Tokens that derive an expression are read as it, up to a token that does not go on with it. -/
theorem Derives.reads_expression (stop : Position) {ts : List Token} {e : Expr}
    (h : Derives .expression ts e) {t : Token} (ht : Tier.expression.goesOn t.kind = false)
    (rest : List Token) : (Grammar.expression stop (ts ++ t :: rest)).Reads e (t :: rest) :=
  h.completes stop (Tier.stops_cons.2 ht)

/-! ## Parts of statements -/

/-- A derived expression is read up to a mark that goes on with none. -/
theorem Derives.reads_expressionBefore (stop : Position) {p : Punct} (spot : Spot) {ts : List Token}
    {e : Expr} (h : Derives .expression ts e) {closing : Token} (hclosing : closing.kind = .punct p)
    (hp : Tier.expression.goesOn (.punct p) = false) (rest : List Token) :
    (Grammar.expressionBefore stop p spot (ts ++ closing :: rest)).Reads e rest :=
  Grammar.reads_expressionBefore.2
    ⟨closing, h.reads_expression stop (by rw [hclosing]; exact hp) rest, hclosing⟩

theorem Derives.reads_parenthesized (stop : Position) {left right : Spot} {ts : List Token}
    {e : Expr} (h : Derives .expression ts e) {opening closing : Token}
    (hopening : opening.kind = .punct .leftParen) (hclosing : closing.kind = .punct .rightParen)
    (rest : List Token) :
    (Grammar.parenthesized stop left right (opening :: (ts ++ closing :: rest))).Reads e rest :=
  Grammar.reads_parenthesized.2
    ⟨opening, _, ⟨rfl, hopening⟩, h.reads_expressionBefore stop right hclosing rfl rest⟩

/-- A clause that may be left out is read up to the mark behind it. -/
theorem DerivesOption.reads (stop : Position) {p : Punct} {spot : Spot} {ts : List Token}
    {e : Option Expr} (h : DerivesOption ts e) {closing : Token}
    (hclosing : closing.kind = .punct p) (hp : Tier.expression.goesOn (.punct p) = false)
    (hp' : (Kind.punct p).startsExpression = false) (rest : List Token) :
    (Grammar.optionalBefore stop p spot (ts ++ closing :: rest)).Reads e rest := by
  cases h with
  | none => exact Grammar.reads_optionalBefore.2 (.inl ⟨closing, rfl, hclosing, rfl⟩)
  | some h =>
      exact Grammar.reads_optionalBefore.2 (.inr ⟨(h.begins.append _).head_ne hp', _,
        h.reads_expressionBefore stop spot hclosing hp rest, rfl⟩)

/-- A derived declaration of a variable is read with its semicolon. -/
theorem DerivesVariable.reads (stop : Position) {ts : List Token} {x : Symbol} {init : Option Expr}
    (h : DerivesVariable ts x init) (rest : List Token) :
    (Grammar.variableDeclaration stop (ts ++ rest)).Reads (.var x init) rest := by
  cases h with
  | bare hname hsemicolon =>
      refine Grammar.reads_variableDeclaration.2 ⟨x, _, ⟨_, rfl, hname⟩, .inr ⟨?_, _,
        ⟨rfl, hsemicolon⟩, rfl⟩⟩
      rintro _ ⟨⟩
      simp [hsemicolon]
  | init hname hequals h hsemicolon =>
      rw [List.append_assoc]
      exact Grammar.reads_variableDeclaration.2 ⟨x, _, ⟨_, rfl, hname⟩, .inl ⟨_, _, rfl, hequals, _,
        h.reads_expressionBefore stop _ hsemicolon rfl rest, rfl⟩⟩

theorem DerivesForInit.reads (stop : Position) {ts : List Token} {init : ForInit}
    (h : DerivesForInit ts init) (rest : List Token) :
    (Grammar.forInit stop (ts ++ rest)).Reads init.stmt? rest := by
  cases h with
  | none hsemicolon =>
      exact Grammar.reads_forInit.2 ⟨_, _, rfl, .inl ⟨hsemicolon, rfl, rfl⟩⟩
  | var hkeyword h =>
      exact Grammar.reads_forInit.2 ⟨_, _, rfl, .inr (.inl ⟨hkeyword, _, h.reads stop rest, rfl⟩)⟩
  | expr h hsemicolon =>
      rw [List.append_assoc]
      have hread := h.reads_expressionBefore stop .afterLoopInitializer hsemicolon rfl rest
      have hbegins := h.begins
      obtain ⟨t, ts₁, rfl, -⟩ := h.begins
      exact Grammar.reads_forInit.2 ⟨t, _, rfl, .inr (.inr ⟨⟨hbegins.head_ne rfl t rfl,
        hbegins.head_ne rfl t rfl⟩, _, hread, rfl⟩)⟩

/-- Derived parameters are read up to the parenthesis behind them, if they are not too many. -/
theorem DerivesNames.reads (stop : Position) (count : Nat) {ts : List Token} {xs : List Symbol}
    (h : DerivesNames ts xs) (harity : count + xs.length ≤ maxArity) {closing : Token}
    (hclosing : closing.kind = .punct .rightParen) (rest : List Token) :
    (Grammar.parameterList stop count (ts ++ closing :: rest)).Reads xs rest := by
  induction h generalizing count with
  | one hname =>
      refine Grammar.reads_parameterList.2 ⟨harity, _, _, ⟨_, rfl, hname⟩, .inr ⟨?_, _,
        ⟨rfl, hclosing⟩, rfl⟩⟩
      rintro _ ⟨⟩
      simp [hclosing]
  | more hname hcomma _ ih =>
      rw [List.length_cons] at harity
      exact Grammar.reads_parameterList.2 ⟨by omega, _, _, ⟨_, rfl, hname⟩, .inl ⟨_, _, rfl, hcomma,
        _, ih (count + 1) (by omega), rfl⟩⟩

theorem DerivesParameters.reads (stop : Position) {ts : List Token} {xs : List Symbol}
    (h : DerivesParameters ts xs) {closing : Token} (hclosing : closing.kind = .punct .rightParen)
    (rest : List Token) : (Grammar.parameters stop (ts ++ closing :: rest)).Reads xs rest := by
  cases h with
  | none => exact Grammar.reads_parameters.2 (.inl ⟨closing, rest, rfl, hclosing, rfl, rfl⟩)
  | some h harity =>
      refine Grammar.reads_parameters.2 (.inr ⟨?_, h.reads stop 0 (by omega) hclosing rest⟩)
      cases h with
      | one hname | more hname =>
          rintro _ ⟨⟩
          simp [hname]

/-! ## Statements -/

/-- A derived statement begins with a token that may begin a declaration, and with none that begins
another kind of declaration. -/
theorem DerivesStatement.begins {scope : Scope} {ts : List Token} {s : Surface}
    (h : DerivesStatement scope ts s) :
    Begins Kind.startsDeclaration ts ∧
      ∀ t ∈ ts.head?, t.kind ≠ .keyword .fun_ ∧ t.kind ≠ .keyword .var_ := by
  cases h with
  | expr h =>
      have hbegins := h.begins
      exact ⟨(hbegins.append _).declaration, fun t ht =>
        ⟨(hbegins.append _).head_ne rfl t ht, (hbegins.append _).head_ne rfl t ht⟩⟩
  | print hk | block hk | ifThen hk | ifElse hk | while_ hk | for_ hk | break_ hk | return_ hk =>
      refine ⟨.of_kind hk rfl, ?_⟩
      rintro _ ⟨⟩
      simp [hk]

theorem DerivesDeclaration.begins {scope : Scope} {ts : List Token} {s : Surface}
    (h : DerivesDeclaration scope ts s) : Begins Kind.startsDeclaration ts := by
  cases h with
  | function hk | var hk => exact .of_kind hk rfl
  | ofStatement h => exact h.begins.1

/-- A declaration behind a statement does not begin with `else`. -/
theorem DerivesDeclarations.head_ne_else {scope : Scope} {ts : List Token} {ss : List Surface}
    (h : DerivesDeclarations scope ts ss) (rest : List Token)
    (hrest : ∀ t ∈ rest.head?, t.kind ≠ .keyword .else_) :
    ∀ t ∈ (ts ++ rest).head?, t.kind ≠ .keyword .else_ := by
  cases h with
  | nil => exact hrest
  | cons h _ => exact ((h.begins.append _).append _).head_ne rfl

/-- No token that begins an expression leads another statement. -/
theorem Kind.leadsStatement_of_startsExpression {kind : Kind}
    (h : kind.startsExpression = true) : kind.leadsStatement = false := by
  rw [Bool.eq_false_iff, Ne, leadsStatement_iff]
  rintro (rfl | rfl | rfl | rfl | rfl | rfl | rfl) <;> cases h

/-- Tokens that begin like an expression are read as an expression statement. -/
theorem Begins.reads_statement {stop : Position} {scope : Scope} {ts rest : List Token} {e : Expr}
    (h : Begins Kind.startsExpression ts)
    (he : (Grammar.expressionBefore stop .semicolon .afterExpression ts).Reads e rest) :
    (Grammar.statement stop scope ts).Reads (.expr e) rest := by
  obtain ⟨t, ts, rfl, ht⟩ := h
  rw [Grammar.statement_eq_expression (Kind.leadsStatement_of_startsExpression ht)]
  exact Phrase.reads_map.2 ⟨e, he, rfl⟩

mutual

/-- A derived statement is read and desugared, wherever what follows leaves its last `if` as it is.
-/
theorem DerivesStatement.reads (stop : Position) {scope : Scope} {ts : List Token} {s : Surface}
    (h : DerivesStatement scope ts s) {rest : List Token} (hrest : s.LeavesElse rest) :
    (Grammar.statement stop scope (ts ++ rest)).Reads s.desugar rest := by
  match h with
  | .expr h hsemicolon =>
      rw [List.append_assoc, Surface.desugar]
      exact (h.begins.append _).reads_statement
        (h.reads_expressionBefore stop _ hsemicolon rfl rest)
  | .print hk h hsemicolon =>
      rw [List.append_assoc, Surface.desugar]
      refine Grammar.reads_statement.2 ⟨_, _, rfl, ?_⟩
      rw [hk]
      exact ⟨_, h.reads_expressionBefore stop _ hsemicolon rfl rest, rfl⟩
  | .block hk h hclosing =>
      rw [List.append_assoc, Surface.desugar]
      refine Grammar.reads_statement.2 ⟨_, _, rfl, ?_⟩
      rw [hk]
      exact ⟨_, h.reads_block stop hclosing rest, rfl⟩
  | .ifThen hk hopening he hclosing h =>
      rw [List.append_assoc, Surface.desugar]
      refine Grammar.reads_statement.2 ⟨_, _, rfl, ?_⟩
      rw [hk]
      have helse := hrest rfl
      exact ⟨_, _, he.reads_parenthesized stop hopening hclosing _, _, rest,
        h.reads stop fun _ => helse, .inr ⟨helse, rfl, rfl⟩⟩
  | .ifElse hk hopening he hclosing h htakes helse h₂ =>
      rw [List.append_assoc, List.append_assoc, Surface.desugar]
      refine Grammar.reads_statement.2 ⟨_, _, rfl, ?_⟩
      rw [hk]
      refine ⟨_, _, he.reads_parenthesized stop hopening hclosing _, _, _, h.reads stop ?_,
        .inl ⟨_, _, rfl, helse, _, h₂.reads stop hrest, rfl⟩⟩
      intro hyes
      rw [htakes] at hyes
      cases hyes
  | .while_ hk hopening he hclosing h =>
      rw [List.append_assoc, Surface.desugar]
      refine Grammar.reads_statement.2 ⟨_, _, rfl, ?_⟩
      rw [hk]
      exact ⟨_, _, he.reads_parenthesized stop hopening hclosing _, _, h.reads stop hrest, rfl⟩
  | .for_ hk hopening hinit hcondition hsemicolon hincrement hclosing h =>
      rw [List.append_assoc, List.append_assoc, List.append_assoc, Surface.desugar_for]
      refine Grammar.reads_statement.2 ⟨_, _, rfl, ?_⟩
      rw [hk]
      refine ⟨_, _, Grammar.reads_forClauses.2 ⟨_, _, ⟨rfl, hopening⟩, _, _, hinit.reads stop _,
        _, _, hcondition.reads stop hsemicolon rfl rfl _, _,
        hincrement.reads stop hclosing rfl rfl _, rfl⟩, _, h.reads stop hrest, rfl⟩
  | .break_ hk hsemicolon hscope =>
      rw [Surface.desugar]
      refine Grammar.reads_statement.2 ⟨_, _, rfl, ?_⟩
      rw [hk]
      exact ⟨hscope, _, ⟨rfl, hsemicolon⟩, rfl⟩
  | .return_ hk h hsemicolon hscope =>
      rw [List.append_assoc, Surface.desugar]
      refine Grammar.reads_statement.2 ⟨_, _, rfl, ?_⟩
      rw [hk]
      exact ⟨hscope, _, h.reads stop hsemicolon rfl rfl rest, rfl⟩
termination_by structural h

/-- A derived declaration is read and desugared as well. -/
theorem DerivesDeclaration.reads (stop : Position) {scope : Scope} {ts : List Token} {s : Surface}
    (h : DerivesDeclaration scope ts s) {rest : List Token} (hrest : s.LeavesElse rest) :
    (Grammar.declaration stop scope (ts ++ rest)).Reads s.desugar rest := by
  match h with
  | .function hk hname hopening hparams hclosing hleft h hright =>
      rw [List.append_assoc, List.append_assoc, Surface.desugar]
      refine Grammar.reads_declaration.2 ⟨_, _, rfl, .inl ⟨hk, (_, _), _,
        Grammar.reads_functionHead.2 ⟨_, _, ⟨_, rfl, hname⟩, _, _, ⟨rfl, hopening⟩, _, _,
          hparams.reads stop hclosing _, _, ⟨rfl, hleft⟩, rfl⟩, _, h.reads_block stop hright rest,
        rfl⟩⟩
  | .var hk h =>
      rw [Surface.desugar]
      exact Grammar.reads_declaration.2 ⟨_, _, rfl, .inr (.inl ⟨hk, h.reads stop rest⟩)⟩
  | .ofStatement h =>
      have hread := h.reads stop hrest
      obtain ⟨⟨t, ts₁, rfl, -⟩, hne⟩ := h.begins
      exact Grammar.reads_declaration.2 ⟨t, _, rfl, .inr (.inr ⟨hne t rfl, hread⟩)⟩
termination_by structural h

/-- Derived declarations are read up to the brace that closes them. -/
theorem DerivesDeclarations.reads_block (stop : Position) {scope : Scope} {ts : List Token}
    {ss : List Surface} (h : DerivesDeclarations scope ts ss) {closing : Token}
    (hclosing : closing.kind = .punct .rightCurly) (rest : List Token) :
    (Grammar.block stop scope (ts ++ closing :: rest)).Reads (ss.map Surface.desugar) rest := by
  match h with
  | .nil => exact Grammar.reads_block.2 ⟨closing, rest, rfl, .inl ⟨hclosing, rfl, rfl⟩⟩
  | .cons h h₂ =>
      rw [List.append_assoc]
      have hothers := h₂.reads_block stop hclosing rest
      have helse := h₂.head_ne_else (closing :: rest) (by simp [hclosing])
      have hfirst := h.reads stop fun _ => helse
      have hbegins := h.begins
      obtain ⟨t, ts₁, rfl, -⟩ := h.begins
      exact Grammar.reads_block.2 ⟨t, _, rfl, .inr ⟨hbegins.head_ne rfl t rfl, _, _, hfirst, _,
        hothers, rfl⟩⟩
termination_by structural h

end

/-- Tokens that derive declarations are read as a program without diagnostics. -/
theorem DerivesDeclarations.declarations_eq (stop : Position) {ts : List Token} {ss : List Surface}
    (h : DerivesDeclarations {} ts ss) :
    Grammar.declarations stop ts = ⟨ss.map Surface.desugar, []⟩ := by
  generalize hscope : ({} : Scope) = scope at h
  match h with
  | .nil => exact Grammar.declarations_eq_iff.2 (.inl ⟨rfl, rfl⟩)
  | .cons h h₂ =>
      subst hscope
      refine Grammar.declarations_eq_iff.2 (.inr ⟨_, _, h.reads stop ?_, _,
        h₂.declarations_eq stop, rfl⟩)
      intro _
      simpa using h₂.head_ne_else [] nofun

end Lox
