import Lox.Grammar.Program

/-!
# Clean readings

A phrase is read cleanly when it is read and nothing is reported on the way.  For every function of
the grammar there is one lemma that says what a clean reading of it is made of.  The bounds on what
remains, which the functions carry for the sake of their termination, do not appear in these lemmas.
-/

namespace Lox

namespace Phrase

variable {α β : Type} {m n : Nat}

/-- The phrase was read and nothing was reported. -/
def Reads (p : Phrase α n) (value : α) (rest : List Token) : Prop :=
  ∃ h, p = read value rest [] h

theorem Reads.length_lt {p : Phrase α n} {v : α} {rest : List Token} (h : p.Reads v rest) :
    rest.length < n := h.1

@[simp] theorem reads_read {v w : α} {rest rest' : List Token} {ds : List Diagnostic}
    {h : rest.length < n} :
    (read v rest ds h).Reads w rest' ↔ v = w ∧ rest = rest' ∧ ds = [] := by
  constructor
  · rintro ⟨_, ⟨⟩⟩
    exact ⟨rfl, rfl, rfl⟩
  · rintro ⟨rfl, rfl, rfl⟩
    exact ⟨h, rfl⟩

@[simp] theorem not_reads_failed {d : Diagnostic} {v : α} {rest rest' : List Token}
    {ds : List Diagnostic} {h : rest.length ≤ n} : ¬(failed d rest ds h).Reads v rest' := by
  rintro ⟨_, ⟨⟩⟩

@[simp] theorem not_reads_failHere {stop : Position} {problem : Problem} {ts rest : List Token}
    {v : α} :
    ¬(failHere stop problem ts).Reads v rest := not_reads_failed

@[simp] theorem reads_within {p : Phrase α m} {h : m ≤ n} {v : α} {rest : List Token} :
    (p.within h).Reads v rest ↔ p.Reads v rest := by
  cases p <;> simp [within]

/-- What reports something itself was not read cleanly. -/
@[simp] theorem reads_report {p : Phrase α n} {ds : List Diagnostic} {v : α} {rest : List Token} :
    (p.report ds).Reads v rest ↔ ds = [] ∧ p.Reads v rest := by
  cases p with
  | read =>
      simp only [report, reads_read, List.append_eq_nil_iff]
      constructor
      · rintro ⟨rfl, rfl, rfl, rfl⟩
        exact ⟨rfl, rfl, rfl, rfl⟩
      · rintro ⟨rfl, rfl, rfl, rfl⟩
        exact ⟨rfl, rfl, rfl, rfl⟩
  | failed => simp [report]

@[simp] theorem reads_map {p : Phrase α n} {f : α → β} {w : β} {rest : List Token} :
    (p.map f).Reads w rest ↔ ∃ v, p.Reads v rest ∧ f v = w := by
  cases p with
  | read v mid ds h =>
      simp only [map, reads_read]
      constructor
      · rintro ⟨hw, hrest⟩
        exact ⟨v, ⟨rfl, hrest⟩, hw⟩
      · rintro ⟨_, ⟨rfl, hrest⟩, hw⟩
        exact ⟨hw, hrest⟩
  | failed => simp [map]

/-- Two phrases are read cleanly if both are, one where the other leaves off. -/
@[simp] theorem reads_andThen {p : Phrase α n}
    {next : (v : α) → (rest : List Token) → rest.length < n → Phrase β n} {w : β}
    {rest : List Token} :
    (p.andThen next).Reads w rest ↔
      ∃ v mid, ∃ h : p.Reads v mid, (next v mid h.length_lt).Reads w rest := by
  cases p with
  | read v mid ds h =>
      simp only [andThen, reads_report, reads_read]
      constructor
      · rintro ⟨rfl, hw⟩
        exact ⟨v, mid, ⟨rfl, rfl, rfl⟩, hw⟩
      · rintro ⟨_, _, ⟨rfl, rfl, rfl⟩, hw⟩
        exact ⟨rfl, hw⟩
  | failed => simp [andThen]

end Phrase

namespace Grammar

open Phrase

variable {stop : Position}

/-- Which side of a choice is read is seen at the first token. -/
@[simp] theorem reads_ifNext {β : Type} {n : Nat} {kind : Kind} {ts rest : List Token}
    {h : ts.length < n} {yes : (t : Token) → (rest : List Token) → rest.length + 1 < n → Phrase β n}
    {no : Phrase β n} {v : β} :
    (ifNext kind ts h yes no).Reads v rest ↔
      (∃ t mid, ∃ hts : ts = t :: mid, t.kind = kind ∧
          (yes t mid (by subst hts; exact h)).Reads v rest) ∨
        (∀ t ∈ ts.head?, t.kind ≠ kind) ∧ no.Reads v rest := by
  cases ts with
  | nil => simp [ifNext]
  | cons t mid =>
      by_cases hk : t.kind = kind
      · simp only [ifNext, if_pos hk]
        constructor
        · exact fun hv => .inl ⟨t, mid, rfl, hk, hv⟩
        · rintro (⟨_, _, ⟨⟩, _, hv⟩ | ⟨hne, _⟩)
          · exact hv
          · exact absurd hk (hne t rfl)
      · simp only [ifNext, if_neg hk]
        constructor
        · exact fun hv => .inr ⟨by simpa using hk, hv⟩
        · rintro (⟨_, _, ⟨⟩, hk', _⟩ | ⟨_, hv⟩)
          · exact absurd hk' hk
          · exact hv

/-- The mark that is expected is read whole and nothing else. -/
@[simp] theorem reads_mark {p : Punct} {spot : Spot} {ts rest : List Token} {t : Token} :
    (mark stop p spot ts).Reads t rest ↔ ts = t :: rest ∧ t.kind = .punct p := by
  cases ts with
  | nil => simp [mark]
  | cons u mid =>
      rw [mark]
      split
      · simp only [reads_read, List.cons.injEq]
        grind
      · simp only [not_reads_failHere, List.cons.injEq]
        grind

/-- A name is read from one token. -/
@[simp] theorem reads_name {role : Role} {ts rest : List Token} {x : Symbol} :
    (name stop role ts).Reads x rest ↔ ∃ t, ts = t :: rest ∧ t.kind = .identifier x := by
  cases ts with
  | nil => simp [name]
  | cons u mid =>
      rw [name]
      split
      · simp only [reads_read, List.cons.injEq]
        grind
      · simp only [not_reads_failHere, List.cons.injEq]
        grind

/-- A text that has a first token has no other one. -/
theorem exists_eq_cons {t : Token} {ts : List Token} {P : Token → List Token → Prop} :
    (∃ u us, t :: ts = u :: us ∧ P u us) ↔ P t ts := by
  constructor
  · rintro ⟨_, _, ⟨⟩, h⟩
    exact h
  · exact fun h => ⟨t, ts, rfl, h⟩

/-! ## Expressions -/

/-- Only a variable can be assigned to. -/
theorem reads_assignment {n : Nat} {target e value : Expr} {equals : Token}
    {rest rest' : List Token} {h : rest.length < n} :
    (assignment target equals value rest h).Reads e rest' ↔
      ∃ x line, target = .var x line ∧ .assign x value line = e ∧ rest = rest' := by
  cases target with
  | var x line =>
      rw [assignment, reads_read]
      constructor
      · rintro ⟨rfl, rfl, -⟩
        exact ⟨x, line, rfl, rfl, rfl⟩
      · rintro ⟨_, _, ⟨⟩, rfl, rfl⟩
        exact ⟨rfl, rfl, rfl⟩
  | _ => simp [assignment, reads_read]

/-- An expression is a conditional one, or an assignment to one that is a variable. -/
theorem reads_expression {ts rest : List Token} {e : Expr} :
    (expression stop ts).Reads e rest ↔
      ∃ target ts₁, (conditional stop ts).Reads target ts₁ ∧
        ((∃ equals ts₂, ts₁ = equals :: ts₂ ∧ equals.kind = .punct .equal ∧
            ∃ value ts₃, (expression stop ts₂).Reads value ts₃ ∧
              ∃ x line, target = .var x line ∧ .assign x value line = e ∧ ts₃ = rest) ∨
          (∀ t ∈ ts₁.head?, t.kind ≠ .punct .equal) ∧ target = e ∧ ts₁ = rest) := by
  rw [expression]
  simp only [reads_andThen, reads_ifNext, reads_within, reads_assignment, reads_read, exists_prop,
    and_true]

/-- A conditional expression is a disjunction, and may go on with both of its branches. -/
theorem reads_conditional {ts rest : List Token} {e : Expr} :
    (conditional stop ts).Reads e rest ↔
      ∃ condition ts₁, (binary stop .or ts).Reads condition ts₁ ∧
        ((∃ question ts₂, ts₁ = question :: ts₂ ∧ question.kind = .punct .question ∧
            ∃ yes ts₃, (expression stop ts₂).Reads yes ts₃ ∧
              ∃ colon ts₄, (ts₃ = colon :: ts₄ ∧ colon.kind = .punct .colon) ∧
                ∃ no, (conditional stop ts₄).Reads no rest ∧ .conditional condition yes no = e) ∨
          (∀ t ∈ ts₁.head?, t.kind ≠ .punct .question) ∧ condition = e ∧ ts₁ = rest) := by
  rw [conditional]
  simp only [reads_andThen, reads_ifNext, reads_within, reads_map, reads_mark, reads_read,
    exists_prop, and_true]

/-- The operators of a level are read behind an operand of it. -/
theorem reads_binary {level : Level} {ts rest : List Token} {e : Expr} :
    (binary stop level ts).Reads e rest ↔
      ∃ left ts₁, (operand stop level ts).Reads left ts₁ ∧
        (chain stop level left ts₁).Reads e rest := by
  rw [binary]
  simp only [reads_andThen, reads_within, exists_prop]

/-- One operator more is joined to what was read so far, or none of the level is next. -/
theorem reads_chain {level : Level} {left : Expr} {ts rest : List Token} {e : Expr} :
    (chain stop level left ts).Reads e rest ↔
      (∃ t ts₁, ts = t :: ts₁ ∧ ∃ c, t.kind.connectiveAt? level = some c ∧
        ∃ right ts₂, (operand stop level ts₁).Reads right ts₂ ∧
          (chain stop level (c.join left right t.line) ts₂).Reads e rest) ∨
        (∀ t ∈ ts.head?, t.kind.connectiveAt? level = none) ∧ left = e ∧ ts = rest := by
  cases ts with
  | nil => rw [chain]; simp
  | cons t ts₁ =>
      rw [chain, exists_eq_cons]
      cases hc : t.kind.connectiveAt? level with
      | none => simp [hc]
      | some c => simp [hc]

/-- A prefix operator and its operand are read, or a call. -/
theorem reads_unary {ts rest : List Token} {e : Expr} :
    (unary stop ts).Reads e rest ↔
      (∃ t ts₁, ts = t :: ts₁ ∧ ∃ op, t.kind.unaryOp? = some op ∧
        ∃ inner, (unary stop ts₁).Reads inner rest ∧ .unary op inner t.line = e) ∨
        (∀ t ∈ ts.head?, t.kind.unaryOp? = none) ∧ (call stop ts).Reads e rest := by
  cases ts with
  | nil => rw [unary]; simp
  | cons t ts₁ =>
      rw [unary, exists_eq_cons]
      cases hop : t.kind.unaryOp? with
      | none => simp [hop]
      | some op => simp [hop]

theorem reads_call {ts rest : List Token} {e : Expr} :
    (call stop ts).Reads e rest ↔
      ∃ callee ts₁, (primary stop ts).Reads callee ts₁ ∧ (calls stop callee ts₁).Reads e rest := by
  rw [call]
  simp only [reads_andThen, reads_within, exists_prop]

/-- One more pair of parentheses calls what was read so far, or none is next. -/
theorem reads_calls {callee : Expr} {ts rest : List Token} {e : Expr} :
    (calls stop callee ts).Reads e rest ↔
      (∃ t ts₁, ts = t :: ts₁ ∧ t.kind = .punct .leftParen ∧
        ∃ args ts₂, (arguments stop ts₁).Reads args ts₂ ∧
          (calls stop (.call callee args.1 args.2) ts₂).Reads e rest) ∨
        (∀ t ∈ ts.head?, t.kind ≠ .punct .leftParen) ∧ callee = e ∧ ts = rest := by
  rw [calls]
  simp only [reads_andThen, reads_ifNext, reads_within, reads_read, exists_prop, and_true]

/-- There are no arguments in front of a closing parenthesis, or else at least one. -/
theorem reads_arguments {ts rest : List Token} {args : List Expr × Position} :
    (arguments stop ts).Reads args rest ↔
      (∃ t ts₁, ts = t :: ts₁ ∧ t.kind = .punct .rightParen ∧ ([], t.line) = args ∧ ts₁ = rest) ∨
        (∀ t ∈ ts.head?, t.kind ≠ .punct .rightParen) ∧
          (argumentList stop 0 ts).Reads args rest := by
  rw [arguments]
  simp only [reads_ifNext, reads_within, reads_read, exists_prop, and_true]

/-- There is no report about the number of items as long as there may be one more. -/
theorem arity_reports_eq_nil {count : Nat} {d : Diagnostic} :
    (if maxArity ≤ count then [d] else []) = [] ↔ count < maxArity := by
  split <;> simp <;> omega

/-- An argument is read only if so many are not yet the most that there may be. -/
theorem reads_argumentList {count : Nat} {ts rest : List Token} {args : List Expr × Position} :
    (argumentList stop count ts).Reads args rest ↔
      count < maxArity ∧ ∃ arg ts₁, (expression stop ts).Reads arg ts₁ ∧
        ((∃ comma ts₂, ts₁ = comma :: ts₂ ∧ comma.kind = .punct .comma ∧
            ∃ others, (argumentList stop (count + 1) ts₂).Reads others rest ∧
              (arg :: others.1, others.2) = args) ∨
          (∀ t ∈ ts₁.head?, t.kind ≠ .punct .comma) ∧
            ∃ closing, (ts₁ = closing :: rest ∧ closing.kind = .punct .rightParen) ∧
              ([arg], closing.line) = args) := by
  rw [argumentList]
  simp only [reads_report, arity_reports_eq_nil, reads_andThen, reads_ifNext, reads_within,
    reads_map, reads_mark, exists_prop]

/-- A literal, a name or an expression in parentheses is read.  At an operator without its left
operand, and at any other token, nothing is read. -/
theorem reads_primary {ts rest : List Token} {e : Expr} :
    (primary stop ts).Reads e rest ↔
      ∃ t ts₁, ts = t :: ts₁ ∧
        ((∃ value, t.kind.literal? = some value ∧ .literal value = e ∧ ts₁ = rest) ∨
          (∃ x, t.kind = .identifier x ∧ .var x t.line = e ∧ ts₁ = rest) ∨
          t.kind = .punct .leftParen ∧ ∃ inner ts₂, (expression stop ts₁).Reads inner ts₂ ∧
            ∃ closing, (ts₂ = closing :: rest ∧ closing.kind = .punct .rightParen) ∧
              .group inner = e) := by
  cases ts with
  | nil => rw [primary]; simp
  | cons t ts₁ =>
      rw [primary, exists_eq_cons]
      split
      · next value hl =>
        have hx : ∀ x, t.kind ≠ .identifier x := by
          intro x hx
          simp [hx, Kind.literal?] at hl
        have hp : t.kind ≠ .punct .leftParen := by
          intro hp
          simp [hp, Kind.literal?] at hl
        simp [hl, hx, hp]
      · next hl =>
        split
        · next x hx => simp [hx, Kind.literal?]
        · next hp =>
          simp only [reads_andThen, reads_within, reads_map, reads_mark, exists_prop]
          simp [hp, Kind.literal?]
        · next hx hp =>
          have hx : ∀ x, t.kind ≠ .identifier x := hx
          have hp : t.kind ≠ .punct .leftParen := hp
          split <;> simp [hl, hx, hp]

/-! ## Parts of statements -/

/-- The mark behind the expression is read with it. -/
theorem reads_expressionBefore {p : Punct} {spot : Spot} {ts rest : List Token} {e : Expr} :
    (expressionBefore stop p spot ts).Reads e rest ↔
      ∃ closing, (expression stop ts).Reads e (closing :: rest) ∧ closing.kind = .punct p := by
  unfold expressionBefore
  simp only [reads_andThen, reads_within, reads_map, reads_mark, exists_prop]
  constructor
  · rintro ⟨_, _, h, closing, ⟨rfl, hk⟩, rfl⟩
    exact ⟨closing, h, hk⟩
  · rintro ⟨closing, h, hk⟩
    exact ⟨e, _, h, closing, ⟨rfl, hk⟩, rfl⟩

/-- There is no expression if the mark comes first. -/
theorem reads_optionalBefore {p : Punct} {spot : Spot} {ts rest : List Token} {e : Option Expr} :
    (optionalBefore stop p spot ts).Reads e rest ↔
      (∃ t, ts = t :: rest ∧ t.kind = .punct p ∧ none = e) ∨
        (∀ t ∈ ts.head?, t.kind ≠ .punct p) ∧
          ∃ value, (expressionBefore stop p spot ts).Reads value rest ∧ some value = e := by
  cases ts with
  | nil => simp [optionalBefore]
  | cons t ts₁ =>
      rw [optionalBefore]
      split
      · next hk => simp [hk]; grind
      · next hk => simp [hk]

theorem reads_parenthesized {opening closing : Spot} {ts rest : List Token} {e : Expr} :
    (parenthesized stop opening closing ts).Reads e rest ↔
      ∃ t ts₁, (ts = t :: ts₁ ∧ t.kind = .punct .leftParen) ∧
        (expressionBefore stop .rightParen closing ts₁).Reads e rest := by
  unfold parenthesized
  simp only [reads_andThen, reads_within, reads_mark, exists_prop]

/-- The name of a variable is read, and its first value if there is one. -/
theorem reads_variableDeclaration {ts rest : List Token} {s : Stmt} :
    (variableDeclaration stop ts).Reads s rest ↔
      ∃ x ts₁, (∃ t, ts = t :: ts₁ ∧ t.kind = .identifier x) ∧
        ((∃ equals ts₂, ts₁ = equals :: ts₂ ∧ equals.kind = .punct .equal ∧
            ∃ init,
              (expressionBefore stop .semicolon .afterVariableDeclaration ts₂).Reads init rest ∧
                .var x (some init) = s) ∨
          (∀ t ∈ ts₁.head?, t.kind ≠ .punct .equal) ∧
            ∃ t, (ts₁ = t :: rest ∧ t.kind = .punct .semicolon) ∧ .var x none = s) := by
  unfold variableDeclaration
  simp only [reads_andThen, reads_ifNext, reads_within, reads_map, reads_mark, reads_name,
    exists_prop]

/-- What a loop does first is read with its semicolon. -/
theorem reads_forInit {ts rest : List Token} {init : Option Stmt} :
    (forInit stop ts).Reads init rest ↔
      ∃ t ts₁, ts = t :: ts₁ ∧
        (t.kind = .punct .semicolon ∧ none = init ∧ ts₁ = rest ∨
          t.kind = .keyword .var_ ∧
            (∃ s, (variableDeclaration stop ts₁).Reads s rest ∧ some s = init) ∨
          (t.kind ≠ .punct .semicolon ∧ t.kind ≠ .keyword .var_) ∧
            ∃ e, (expressionBefore stop .semicolon .afterLoopInitializer (t :: ts₁)).Reads e rest ∧
              some (.expr e) = init) := by
  cases ts with
  | nil => simp [forInit]
  | cons t ts₁ =>
      rw [forInit, exists_eq_cons]
      split
      · next hk => simp [hk]
      · next hk =>
        split
        · next hv => simp [hv]
        · next hv => simp [hk, hv]

/-- The clauses of a loop are read with the parentheses around them. -/
theorem reads_forClauses {ts rest : List Token} {clauses : ForClauses} :
    (forClauses stop ts).Reads clauses rest ↔
      ∃ t ts₁, (ts = t :: ts₁ ∧ t.kind = .punct .leftParen) ∧
        ∃ init ts₂, (forInit stop ts₁).Reads init ts₂ ∧
          ∃ condition ts₃,
            (optionalBefore stop .semicolon .afterLoopCondition ts₂).Reads condition ts₃ ∧
              ∃ increment,
                (optionalBefore stop .rightParen .afterForClauses ts₃).Reads increment rest ∧
                  ForClauses.mk init condition increment = clauses := by
  unfold forClauses
  simp only [reads_andThen, reads_within, reads_map, reads_mark, exists_prop]

/-- A parameter is read only if so many are not yet the most that there may be. -/
theorem reads_parameterList {count : Nat} {ts rest : List Token} {params : List Symbol} :
    (parameterList stop count ts).Reads params rest ↔
      count < maxArity ∧ ∃ x ts₁, (∃ t, ts = t :: ts₁ ∧ t.kind = .identifier x) ∧
        ((∃ comma ts₂, ts₁ = comma :: ts₂ ∧ comma.kind = .punct .comma ∧
            ∃ others, (parameterList stop (count + 1) ts₂).Reads others rest ∧
              x :: others = params) ∨
          (∀ t ∈ ts₁.head?, t.kind ≠ .punct .comma) ∧
            ∃ closing, (ts₁ = closing :: rest ∧ closing.kind = .punct .rightParen) ∧
              [x] = params) := by
  rw [parameterList]
  simp only [reads_report, arity_reports_eq_nil, reads_andThen, reads_ifNext, reads_within,
    reads_map, reads_mark, reads_name, exists_prop]

theorem reads_parameters {ts rest : List Token} {params : List Symbol} :
    (parameters stop ts).Reads params rest ↔
      (∃ t ts₁, ts = t :: ts₁ ∧ t.kind = .punct .rightParen ∧ [] = params ∧ ts₁ = rest) ∨
        (∀ t ∈ ts.head?, t.kind ≠ .punct .rightParen) ∧
          (parameterList stop 0 ts).Reads params rest := by
  unfold parameters
  simp only [reads_ifNext, reads_within, reads_read, exists_prop, and_true]

/-- The head of a function is read with the brace that opens its body. -/
theorem reads_functionHead {ts rest : List Token} {head : Symbol × List Symbol} :
    (functionHead stop ts).Reads head rest ↔
      ∃ f ts₁, (∃ t, ts = t :: ts₁ ∧ t.kind = .identifier f) ∧
        ∃ opening ts₂, (ts₁ = opening :: ts₂ ∧ opening.kind = .punct .leftParen) ∧
          ∃ params ts₃, (parameters stop ts₂).Reads params ts₃ ∧
            ∃ brace, (ts₃ = brace :: rest ∧ brace.kind = .punct .leftCurly) ∧
              (f, params) = head := by
  unfold functionHead
  simp only [reads_andThen, reads_within, reads_map, reads_mark, reads_name, exists_prop]

@[simp] theorem reportUnless_eq_nil {ok : Bool} {t : Token} {problem : Problem} :
    reportUnless ok t problem = [] ↔ ok = true := by
  cases ok <;> simp [reportUnless]

/-! ## Statements -/

/-- Which declaration is read is seen at the first token. -/
theorem reads_declaration {scope : Scope} {ts rest : List Token} {s : Stmt} :
    (declaration stop scope ts).Reads s rest ↔
      ∃ t ts₁, ts = t :: ts₁ ∧
        (t.kind = .keyword .fun_ ∧
            (∃ head ts₂, (functionHead stop ts₁).Reads head ts₂ ∧
              ∃ body, (block stop scope.function ts₂).Reads body rest ∧
                .function head.1 head.2 body = s) ∨
          t.kind = .keyword .var_ ∧ (variableDeclaration stop ts₁).Reads s rest ∨
          (t.kind ≠ .keyword .fun_ ∧ t.kind ≠ .keyword .var_) ∧
            (statement stop scope (t :: ts₁)).Reads s rest) := by
  cases ts with
  | nil => rw [declaration, statement]; simp
  | cons t ts₁ =>
      rw [declaration, exists_eq_cons]
      split
      · next hk =>
        simp only [reads_andThen, reads_within, reads_map, exists_prop]
        simp [hk]
      · next hk =>
        split
        · next hv => simp [hv]
        · next hv => simp [hk, hv]

/-- Which statement is read is seen at the first token, and one that no word begins is an
expression. -/
theorem reads_statement {scope : Scope} {ts rest : List Token} {s : Stmt} :
    (statement stop scope ts).Reads s rest ↔
      ∃ t ts₁, ts = t :: ts₁ ∧
        match t.kind with
        | .punct .leftCurly => ∃ body, (block stop scope ts₁).Reads body rest ∧ .block body = s
        | .keyword .print_ =>
          ∃ e, (expressionBefore stop .semicolon .afterValue ts₁).Reads e rest ∧ .print e = s
        | .keyword .if_ =>
          ∃ condition ts₂, (parenthesized stop .afterIf .afterIfCondition ts₁).Reads condition ts₂ ∧
            ∃ yes ts₃, (statement stop scope ts₂).Reads yes ts₃ ∧
              ((∃ t ts₄, ts₃ = t :: ts₄ ∧ t.kind = .keyword .else_ ∧
                  ∃ no, (statement stop scope ts₄).Reads no rest ∧ .ifElse condition yes no = s) ∨
                (∀ t ∈ ts₃.head?, t.kind ≠ .keyword .else_) ∧ .ifThen condition yes = s ∧
                  ts₃ = rest)
        | .keyword .while_ =>
          ∃ condition ts₂,
            (parenthesized stop .afterWhile .afterCondition ts₁).Reads condition ts₂ ∧
              ∃ body, (statement stop scope.loop ts₂).Reads body rest ∧ .while_ condition body = s
        | .keyword .for_ =>
          ∃ clauses ts₂, (forClauses stop ts₁).Reads clauses ts₂ ∧
            ∃ body, (statement stop scope.loop ts₂).Reads body rest ∧ clauses.loop body = s
        | .keyword .break_ =>
          scope.inLoop = true ∧ ∃ t, (ts₁ = t :: rest ∧ t.kind = .punct .semicolon) ∧ .break_ = s
        | .keyword .return_ =>
          scope.inFunction = true ∧
            ∃ e, (optionalBefore stop .semicolon .afterReturnValue ts₁).Reads e rest ∧
              .return_ e = s
        | _ =>
          ∃ e, (expressionBefore stop .semicolon .afterExpression (t :: ts₁)).Reads e rest ∧
            .expr e = s := by
  cases ts with
  | nil => rw [statement]; simp
  | cons t ts₁ =>
      rw [exists_eq_cons]
      cases hlead : t.kind.leadsStatement with
      | true =>
          rcases Kind.leadsStatement_iff.mp hlead with hk | hk | hk | hk | hk | hk | hk <;>
            (rw [statement, hk]
             simp only [reads_andThen, reads_ifNext, reads_within, reads_map, reads_mark,
               reads_report, reads_read, reportUnless_eq_nil, exists_prop, and_true])
      | false =>
          rw [statement_eq_expression hlead, reads_map]
          split <;> first | rfl | simp_all [Kind.leadsStatement]

/-- A phrase is settled without reports exactly if it was read cleanly. -/
theorem settle_reports_eq_nil {α : Type} {n : Nat} {p : Phrase α n} {h : 0 < n} :
    (p.settle h).reports = [] ↔ ∃ v, (p.settle h).value = some v ∧ p.Reads v (p.settle h).rest := by
  cases p <;> simp [settle]

/-- A phrase that was read cleanly is settled with its value, where it leaves off. -/
theorem settle_of_reads {α : Type} {n : Nat} {p : Phrase α n} {h : 0 < n} {v : α}
    {rest : List Token} (hp : p.Reads v rest) :
    (p.settle h).value = some v ∧ (p.settle h).rest = rest ∧ (p.settle h).reports = [] := by
  obtain ⟨_, rfl⟩ := hp
  exact ⟨rfl, rfl, rfl⟩

/-- A block is read up to its closing brace, declaration by declaration. -/
theorem reads_block {scope : Scope} {ts rest : List Token} {body : List Stmt} :
    (block stop scope ts).Reads body rest ↔
      ∃ t ts₁, ts = t :: ts₁ ∧
        (t.kind = .punct .rightCurly ∧ [] = body ∧ ts₁ = rest ∨
          t.kind ≠ .punct .rightCurly ∧
            ∃ first ts₂, (declaration stop scope (t :: ts₁)).Reads first ts₂ ∧
              ∃ others, (block stop scope ts₂).Reads others rest ∧ first :: others = body) := by
  cases ts with
  | nil => rw [block]; simp
  | cons t ts₁ =>
      rw [block, exists_eq_cons]
      split
      · next hk => simp [hk]
      · next hk =>
        simp only [reads_report, reads_map, reads_within, settle_reports_eq_nil]
        simp only [hk, false_and, false_or, not_false_eq_true, true_and, ne_eq]
        constructor
        · rintro ⟨⟨first, hfirst, hread⟩, others, hothers, rfl⟩
          exact ⟨first, _, hread, others, hothers, by simp [hfirst]⟩
        · rintro ⟨first, ts₂, hread, others, hothers, rfl⟩
          obtain ⟨hvalue, hrest, -⟩ := settle_of_reads (h := by simp) hread
          exact ⟨⟨first, hvalue, hrest ▸ hread⟩, others, hrest ▸ hothers, by simp [hvalue]⟩

theorem eq_of_diagnostics_eq_nil {p : Program} (h : p.diagnostics = []) :
    p = ⟨p.statements, []⟩ := by
  rw [← h]

/-- A program without diagnostics is a sequence of declarations that were read cleanly. -/
theorem declarations_eq_iff {ts : List Token} {ss : List Stmt} :
    declarations stop ts = ⟨ss, []⟩ ↔
      ts = [] ∧ [] = ss ∨
        ∃ first ts₁, (declaration stop {} ts).Reads first ts₁ ∧
          ∃ others, declarations stop ts₁ = ⟨others, []⟩ ∧ first :: others = ss := by
  cases ts with
  | nil => rw [declarations]; simp [reads_declaration]
  | cons t ts₁ =>
      rw [declarations]
      simp only [Program.mk.injEq, List.append_eq_nil_iff, settle_reports_eq_nil]
      constructor
      · rintro ⟨rfl, ⟨first, hfirst, hread⟩, hclean⟩
        refine .inr ⟨first, _, hread, _, eq_of_diagnostics_eq_nil hclean, ?_⟩
        rw [hfirst]
        rfl
      · rintro (⟨⟨⟩, _⟩ | ⟨first, ts₂, hread, others, hothers, rfl⟩)
        obtain ⟨hvalue, hrest, -⟩ := settle_of_reads (h := by simp) hread
        rw [hvalue, hrest, hothers]
        exact ⟨rfl, ⟨first, rfl, hread⟩, rfl⟩

end Grammar

/-! ## In front of the end mark -/

namespace Token

variable {ts us : List Token}

/-- Tokens in front of the end mark stand in front of the body of what follows. -/
theorem body_append_of_ne_eof (hts : ∀ t ∈ ts, t.kind ≠ .eof) :
    body (ts ++ us) = ts ++ body us := by
  rw [body, List.takeWhile_append_of_pos]
  · rfl
  · intro t ht
    simpa [isEof] using hts t ht

theorem body_eq_self (hts : ∀ t ∈ ts, t.kind ≠ .eof) : body ts = ts := by
  have happend : body (ts ++ []) = ts ++ [] := body_append_of_ne_eof hts
  rwa [List.append_nil] at happend

/-- Reading stops at the end mark. -/
theorem body_append {tail : List Token} (hts : ∀ t ∈ ts, t.kind ≠ .eof)
    (htail : ∀ t ∈ tail.head?, t.kind = .eof) : body (ts ++ tail) = ts := by
  rw [body_append_of_ne_eof hts]
  cases tail with
  | nil => exact List.append_nil ts
  | cons t tail => simp [body, isEof, htail t rfl]

end Token

end Lox
