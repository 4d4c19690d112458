import Lox.Proofs.Grammar.Completeness
import Mathlib.Data.List.Forall2

/-!
# Printing

A tree is printed as a list of marks: the kind of a token, and its line where the tree records one.
Tokens spell marks when they agree with them one by one, so that texts and all other lines are left
open.  Printing puts no parentheses of its own, and a tree is canonical if none are needed: each
operand stands at the tier that its place asks for, and each statement where it may be written.
A spelling of a canonical program derives it, and so reading undoes printing.
-/

namespace Lox

/-! ## Marks -/

/-- What a token is to be, and on which line it is to stand if that matters. -/
structure Mark where
  kind : Kind
  line? : Option Position := none
  kind_ne_eof : kind ≠ .eof

theorem Kind.punct_ne_eof (p : Punct) : punct p ≠ eof := nofun

theorem Kind.keyword_ne_eof (k : Keyword) : keyword k ≠ eof := nofun

theorem Kind.identifier_ne_eof (x : Symbol) : identifier x ≠ eof := nofun

theorem Literal.kind_ne_eof (value : Literal) : value.kind ≠ .eof := by
  rcases value with _ | b | n | s
  · nofun
  · cases b <;> nofun
  · nofun
  · nofun

theorem UnaryOp.kind_ne_eof (op : UnaryOp) : op.kind ≠ .eof := by
  cases op <;> nofun

theorem Connective.kind_ne_eof (c : Connective) : c.kind ≠ .eof := by
  rcases c with op | op <;> cases op <;> nofun

namespace Mark

def punct (p : Punct) : Mark where
  kind := .punct p
  kind_ne_eof := Kind.punct_ne_eof p

def keyword (k : Keyword) : Mark where
  kind := .keyword k
  kind_ne_eof := Kind.keyword_ne_eof k

/-- A name that is declared, whose line nothing records. -/
def name (x : Symbol) : Mark where
  kind := .identifier x
  kind_ne_eof := Kind.identifier_ne_eof x

/-- A name that is used. -/
def nameAt (x : Symbol) (line : Position) : Mark where
  kind := .identifier x
  line? := some line
  kind_ne_eof := Kind.identifier_ne_eof x

/-- The parenthesis that closes a call. -/
def closing (line : Position) : Mark where
  kind := .punct .rightParen
  line? := some line
  kind_ne_eof := Kind.punct_ne_eof _

def literal (value : Literal) : Mark where
  kind := value.kind
  kind_ne_eof := value.kind_ne_eof

def unary (op : UnaryOp) (line : Position) : Mark where
  kind := op.kind
  line? := some line
  kind_ne_eof := op.kind_ne_eof

def binary (op : BinaryOp) (line : Position) : Mark where
  kind := (Connective.binary op).kind
  line? := some line
  kind_ne_eof := Connective.kind_ne_eof _

def logical (op : LogicalOp) : Mark where
  kind := (Connective.logical op).kind
  kind_ne_eof := Connective.kind_ne_eof _

end Mark

/-- A token of the kind of the mark, and on its line. -/
def Token.Spells (t : Token) (m : Mark) : Prop := t.kind = m.kind ∧ ∀ n ∈ m.line?, t.line = n

/-- The tokens spell the marks one by one. -/
def Spells (ts : List Token) (ms : List Mark) : Prop := List.Forall₂ Token.Spells ts ms

section

variable {ts : List Token} {ms ms' : List Mark} {m : Mark}

@[simp]
theorem spells_nil : Spells ts [] ↔ ts = [] := List.forall₂_nil_right_iff

@[simp]
theorem spells_cons :
    Spells ts (m :: ms) ↔ ∃ t ts', t.Spells m ∧ Spells ts' ms ∧ ts = t :: ts' :=
  List.forall₂_cons_right_iff

/-- Tokens spell two texts one behind the other if they are cut at the right place. -/
@[simp]
theorem spells_append :
    Spells ts (ms ++ ms') ↔ ∃ ts₁ ts₂, Spells ts₁ ms ∧ Spells ts₂ ms' ∧ ts = ts₁ ++ ts₂ := by
  constructor
  · intro h
    refine ⟨ts.take ms.length, ts.drop ms.length, List.forall₂_take_append ts ms ms' h,
      List.forall₂_drop_append ts ms ms' h, (List.take_append_drop ms.length ts).symm⟩
  · rintro ⟨ts₁, ts₂, h₁, h₂, rfl⟩
    exact List.rel_append h₁ h₂

/-- A token for the mark, on the given line if any will do. -/
def Mark.token (line : Position) (m : Mark) : Token := ⟨m.kind, m.kind.text, m.line?.getD line⟩

/-- The marks themselves, all on one line, spell the text. -/
theorem spells_map_token (line : Position) (ms : List Mark) :
    Spells (ms.map (Mark.token line)) ms := by
  refine List.forall₂_map_left_iff.mpr (List.forall₂_same.mpr ?_)
  rintro m -
  refine ⟨rfl, ?_⟩
  intro n hn
  simp [Mark.token, Option.mem_def.mp hn]

/-- No mark stands for the end of the source. -/
theorem Spells.kind_ne_eof (h : Spells ts ms) : ∀ t ∈ ts, t.kind ≠ .eof := by
  induction h with
  | nil => nofun
  | cons ht _ ih =>
      rintro t (_ | ⟨_, hmem⟩)
      · exact ht.1 ▸ Mark.kind_ne_eof _
      · exact ih t hmem

end

/-! ## Expressions -/

def Expr.marks : Expr → List Mark
  | literal value => [.literal value]
  | group e => .punct .leftParen :: e.marks ++ [.punct .rightParen]
  | unary op e line => .unary op line :: e.marks
  | binary op left right line => left.marks ++ .binary op line :: right.marks
  | logical op left right => left.marks ++ .logical op :: right.marks
  | conditional condition yes no =>
    condition.marks ++ .punct .question :: yes.marks ++ .punct .colon :: no.marks
  | var x line => [.nameAt x line]
  | assign x value line => .nameAt x line :: .punct .equal :: value.marks
  | call callee args line =>
    callee.marks ++ .punct .leftParen :: [Mark.punct .comma].intercalate (args.map marks) ++
      [.closing line]

/-- How loosely the expressions of a tier hold together. -/
def Tier.looseness : Tier → Nat
  | primary => 0
  | call => 1
  | unary => 2
  | binary .factor => 3
  | binary .term => 4
  | binary .comparison => 5
  | binary .equality => 6
  | binary .and => 7
  | binary .or => 8
  | conditional => 9
  | expression => 10

/-- An expression that can be written as it is where an expression of the tier is asked for. -/
inductive Expr.Canonical : Tier → Expr → Prop
  | literal {tier : Tier} {value : Literal} : Canonical tier (.literal value)
  | var {tier : Tier} {x : Symbol} {line : Position} : Canonical tier (.var x line)
  | group {tier : Tier} {e : Expr} : Canonical .expression e → Canonical tier (.group e)
  | call {tier : Tier} {callee : Expr} {args : List Expr} {line : Position} :
      Tier.call.looseness ≤ tier.looseness → Canonical .call callee →
      (∀ arg ∈ args, Canonical .expression arg) → args.length ≤ maxArity →
      Canonical tier (.call callee args line)
  | unary {tier : Tier} {op : UnaryOp} {e : Expr} {line : Position} :
      Tier.unary.looseness ≤ tier.looseness → Canonical .unary e → Canonical tier (.unary op e line)
  | binary {tier : Tier} {level : Level} {op : BinaryOp} {left right : Expr} {line : Position} :
      (Tier.binary level).looseness ≤ tier.looseness → .binary op ∈ level.connectives →
      Canonical (.binary level) left → Canonical level.operands right →
      Canonical tier (.binary op left right line)
  | logical {tier : Tier} {level : Level} {op : LogicalOp} {left right : Expr} :
      (Tier.binary level).looseness ≤ tier.looseness → .logical op ∈ level.connectives →
      Canonical (.binary level) left → Canonical level.operands right →
      Canonical tier (.logical op left right)
  | conditional {tier : Tier} {condition yes no : Expr} :
      Tier.conditional.looseness ≤ tier.looseness → Canonical (.binary .or) condition →
      Canonical .expression yes → Canonical .conditional no →
      Canonical tier (.conditional condition yes no)
  | assign {tier : Tier} {x : Symbol} {value : Expr} {line : Position} :
      Tier.expression.looseness ≤ tier.looseness → Canonical .expression value →
      Canonical tier (.assign x value line)

/-- The tier of a looseness. -/
def Tier.ofLooseness : Nat → Tier
  | 0 => primary
  | 1 => call
  | 2 => unary
  | 3 => binary .factor
  | 4 => binary .term
  | 5 => binary .comparison
  | 6 => binary .equality
  | 7 => binary .and
  | 8 => binary .or
  | 9 => conditional
  | _ => expression

/-- A tier is told by how loosely it binds. -/
theorem Tier.ofLooseness_looseness (tier : Tier) : ofLooseness tier.looseness = tier := by
  cases tier with
  | binary level => cases level <;> rfl
  | _ => rfl

namespace Derives

variable {ts : List Token} {e : Expr}

/-- One step up the ladder. -/
theorem ofLooseness_succ :
    ∀ {n : Nat}, Derives (.ofLooseness n) ts e → Derives (.ofLooseness (n + 1)) ts e
  | 0, h => .ofPrimary h
  | 1, h => .ofCall h
  | 2, h => @ofOperand .factor _ _ h
  | 3, h => @ofOperand .term _ _ h
  | 4, h => @ofOperand .comparison _ _ h
  | 5, h => @ofOperand .equality _ _ h
  | 6, h => @ofOperand .and _ _ h
  | 7, h => @ofOperand .or _ _ h
  | 8, h => .ofBinary h
  | 9, h => .ofConditional h
  | _ + 10, h => h

/-- An expression of a tier can stand where a looser one is asked for. -/
theorem loosen {tier tier' : Tier} (hle : tier.looseness ≤ tier'.looseness)
    (h : Derives tier ts e) : Derives tier' ts e := by
  rw [← tier.ofLooseness_looseness] at h
  rw [← tier'.ofLooseness_looseness]
  generalize tier'.looseness = n at hle
  induction hle with
  | refl => exact h
  | step _ ih => exact ih.ofLooseness_succ

end Derives

/-- A list with commas in it is spelled by its first entry, a comma and the other ones. -/
theorem spells_commas {α : Type} {marks : α → List Mark} {ts : List Token} {a b : α}
    {as : List α} :
    Spells ts ([Mark.punct .comma].intercalate ((a :: b :: as).map marks)) ↔
      ∃ ts₁ comma ts₂, Spells ts₁ (marks a) ∧ comma.kind = .punct .comma ∧
        Spells ts₂ ([Mark.punct .comma].intercalate ((b :: as).map marks)) ∧
        ts = ts₁ ++ comma :: ts₂ := by
  simp only [List.intercalate, List.map_cons, List.intersperse_cons_cons, List.flatten_cons,
    spells_append, spells_cons, spells_nil]
  constructor
  · rintro ⟨ts₁, _, h₁, ⟨_, ts₂, ⟨comma, _, hcomma, rfl, rfl⟩, h₂, rfl⟩, rfl⟩
    exact ⟨ts₁, comma, ts₂, h₁, hcomma.1, h₂, rfl⟩
  · rintro ⟨ts₁, comma, ts₂, h₁, hcomma, h₂, rfl⟩
    exact ⟨ts₁, _, h₁, ⟨_, ts₂, ⟨comma, _, ⟨hcomma, nofun⟩, rfl, rfl⟩, h₂, rfl⟩, rfl⟩

/-- Arguments are derived from what spells them with commas, if each of them is. -/
theorem derivesArguments_of_spells {arg : Expr} {args : List Expr} {ts : List Token}
    (ih : ∀ e ∈ arg :: args, ∀ {ts : List Token}, Spells ts e.marks → Derives .expression ts e)
    (h : Spells ts ([Mark.punct .comma].intercalate ((arg :: args).map Expr.marks))) :
    DerivesArguments ts (arg :: args) := by
  induction args generalizing arg ts with
  | nil =>
      have h : Spells ts arg.marks := by simpa [List.intercalate] using h
      exact .one (ih arg (by simp) h)
  | cons arg' args ih' =>
      obtain ⟨ts₁, comma, ts₂, h₁, hcomma, h₂, rfl⟩ := spells_commas.mp h
      refine .more (ih arg (by simp) h₁) hcomma (ih' ?_ h₂)
      intro e he
      exact ih e (List.mem_cons_of_mem _ he)

/-- A spelling of a canonical expression derives it. -/
theorem Expr.Canonical.derives {tier : Tier} {e : Expr} (he : e.Canonical tier) {ts : List Token}
    (h : Spells ts e.marks) : Derives tier ts e := by
  induction he generalizing ts with
  | literal =>
      simp only [marks, spells_cons, spells_nil] at h
      obtain ⟨t, _, ht, rfl, rfl⟩ := h
      exact (Derives.literal ht.1).loosen (Nat.zero_le _)
  | var =>
      simp only [marks, spells_cons, spells_nil] at h
      obtain ⟨t, _, ht, rfl, rfl⟩ := h
      obtain rfl := ht.2 _ rfl
      exact (Derives.var ht.1).loosen (Nat.zero_le _)
  | group _ ih =>
      simp only [marks, spells_append, spells_cons, spells_nil] at h
      obtain ⟨_, _, ⟨opening, ts, hopening, h, rfl⟩, ⟨closing, _, hclosing, rfl, rfl⟩, rfl⟩ := h
      exact (Derives.group hopening.1 (ih h) hclosing.1).loosen (Nat.zero_le _)
  | @call _ callee args _ hle _ _ harity ih ihs =>
      simp only [marks, spells_append, spells_cons, spells_nil] at h
      obtain ⟨_, _, ⟨ts₁, _, h₁, ⟨opening, ts₂, hopening, h₂, rfl⟩, rfl⟩,
        ⟨closing, _, hclosing, rfl, rfl⟩, rfl⟩ := h
      obtain rfl := hclosing.2 _ rfl
      refine Derives.loosen hle ?_
      cases args with
      | nil =>
          obtain rfl : ts₂ = [] := by simpa [List.intercalate] using h₂
          simpa using Derives.callEmpty (ih h₁) hopening.1 hclosing.1
      | cons arg args =>
          have hargs := derivesArguments_of_spells ihs h₂
          exact .call (ih h₁) hopening.1 hargs harity hclosing.1
  | unary hle _ ih =>
      simp only [marks, spells_cons] at h
      obtain ⟨t, ts, ht, h, rfl⟩ := h
      obtain rfl := ht.2 _ rfl
      exact (Derives.unary ht.1 (ih h)).loosen hle
  | binary hle hop _ _ ih₁ ih₂ =>
      simp only [marks, spells_append, spells_cons] at h
      obtain ⟨ts₁, _, h₁, ⟨t, ts₂, ht, h₂, rfl⟩, rfl⟩ := h
      obtain rfl := ht.2 _ rfl
      exact (Derives.join (ih₁ h₁) hop ht.1 (ih₂ h₂)).loosen hle
  | logical hle hop _ _ ih₁ ih₂ =>
      simp only [marks, spells_append, spells_cons] at h
      obtain ⟨ts₁, _, h₁, ⟨t, ts₂, ht, h₂, rfl⟩, rfl⟩ := h
      exact (Derives.join (ih₁ h₁) hop ht.1 (ih₂ h₂)).loosen hle
  | conditional hle _ _ _ ih₁ ih₂ ih₃ =>
      simp only [marks, spells_append, spells_cons] at h
      obtain ⟨_, _, ⟨ts₁, _, h₁, ⟨question, ts₂, hquestion, h₂, rfl⟩, rfl⟩,
        ⟨colon, ts₃, hcolon, h₃, rfl⟩, rfl⟩ := h
      exact (Derives.conditional (ih₁ h₁) hquestion.1 (ih₂ h₂) hcolon.1 (ih₃ h₃)).loosen hle
  | assign hle _ ih =>
      simp only [marks, spells_cons] at h
      obtain ⟨name, _, hname, ⟨equals, ts, hequals, h, rfl⟩, rfl⟩ := h
      obtain rfl := hname.2 _ rfl
      exact (Derives.assign hname.1 hequals.1 (ih h)).loosen hle

/-! ## Statements -/

/-- What an expression prints that may be left out. -/
def optionMarks : Option Expr → List Mark
  | none => []
  | some e => e.marks

/-- The declaration of a variable, from its name on. -/
def variableMarks (x : Symbol) : Option Expr → List Mark
  | none => [.name x, .punct .semicolon]
  | some e => .name x :: .punct .equal :: e.marks ++ [.punct .semicolon]

def ForInit.marks : ForInit → List Mark
  | none => [.punct .semicolon]
  | var x init => .keyword .var_ :: variableMarks x init
  | expr e => e.marks ++ [.punct .semicolon]

def Surface.marks : Surface → List Mark
  | expr e => e.marks ++ [.punct .semicolon]
  | print e => .keyword .print_ :: e.marks ++ [.punct .semicolon]
  | var x init => .keyword .var_ :: variableMarks x init
  | block body => .punct .leftCurly :: body.flatMap marks ++ [.punct .rightCurly]
  | ifThen condition yes =>
    .keyword .if_ :: .punct .leftParen :: condition.marks ++ .punct .rightParen :: yes.marks
  | ifElse condition yes no =>
    .keyword .if_ :: .punct .leftParen :: condition.marks ++ .punct .rightParen :: yes.marks ++
      .keyword .else_ :: no.marks
  | while_ condition body =>
    .keyword .while_ :: .punct .leftParen :: condition.marks ++ .punct .rightParen :: body.marks
  | for_ init condition increment body =>
    .keyword .for_ :: .punct .leftParen :: init.marks ++ optionMarks condition ++
      .punct .semicolon :: optionMarks increment ++ .punct .rightParen :: body.marks
  | break_ => [.keyword .break_, .punct .semicolon]
  | function f params body =>
    .keyword .fun_ :: .name f :: .punct .leftParen ::
      [Mark.punct .comma].intercalate (params.map fun x => [Mark.name x]) ++
      .punct .rightParen :: .punct .leftCurly :: body.flatMap marks ++ [.punct .rightCurly]
  | return_ e => .keyword .return_ :: optionMarks e ++ [.punct .semicolon]

/-- Whether the statement can only stand in a block or at the top, and not as a body. -/
def Surface.isDeclaration : Surface → Bool
  | var _ _ => true
  | function _ _ _ => true
  | _ => false

inductive ForInit.Canonical : ForInit → Prop
  | none : Canonical .none
  | var {x : Symbol} {init : Option Expr} :
      (∀ e ∈ init, e.Canonical .expression) → Canonical (.var x init)
  | expr {e : Expr} : e.Canonical .expression → Canonical (.expr e)

/-- A statement that can be written as it is inside the scope. -/
inductive Surface.Canonical : Scope → Surface → Prop
  | expr {scope : Scope} {e : Expr} : e.Canonical .expression → Canonical scope (.expr e)
  | print {scope : Scope} {e : Expr} : e.Canonical .expression → Canonical scope (.print e)
  | var {scope : Scope} {x : Symbol} {init : Option Expr} :
      (∀ e ∈ init, e.Canonical .expression) → Canonical scope (.var x init)
  | block {scope : Scope} {body : List Surface} :
      (∀ s ∈ body, Canonical scope s) → Canonical scope (.block body)
  | ifThen {scope : Scope} {condition : Expr} {yes : Surface} :
      condition.Canonical .expression → Canonical scope yes → yes.isDeclaration = false →
      Canonical scope (.ifThen condition yes)
  | ifElse {scope : Scope} {condition : Expr} {yes no : Surface} :
      condition.Canonical .expression → Canonical scope yes → yes.isDeclaration = false →
      yes.takesElse = false → Canonical scope no → no.isDeclaration = false →
      Canonical scope (.ifElse condition yes no)
  | while_ {scope : Scope} {condition : Expr} {body : Surface} :
      condition.Canonical .expression → Canonical { scope with inLoop := true } body →
      body.isDeclaration = false → Canonical scope (.while_ condition body)
  | for_ {scope : Scope} {init : ForInit} {condition increment : Option Expr} {body : Surface} :
      init.Canonical → (∀ e ∈ condition, e.Canonical .expression) →
      (∀ e ∈ increment, e.Canonical .expression) → Canonical { scope with inLoop := true } body →
      body.isDeclaration = false → Canonical scope (.for_ init condition increment body)
  | break_ {scope : Scope} : scope.inLoop = true → Canonical scope .break_
  | function {scope : Scope} {f : Symbol} {params : List Symbol} {body : List Surface} :
      params.length ≤ maxArity →
      (∀ s ∈ body, Canonical { inLoop := false, inFunction := true } s) →
      Canonical scope (.function f params body)
  | return_ {scope : Scope} {e : Option Expr} :
      (∀ e' ∈ e, e'.Canonical .expression) → scope.inFunction = true → Canonical scope (.return_ e)

theorem derivesOption_of_spells {e : Option Expr} (he : ∀ e' ∈ e, e'.Canonical .expression)
    {ts : List Token} (h : Spells ts (optionMarks e)) : DerivesOption ts e := by
  cases e with
  | none =>
      obtain rfl := spells_nil.mp h
      exact .none
  | some e => exact .some ((he e rfl).derives h)

/-- A declaration of a variable is derived from what spells it. -/
theorem derivesVariable_of_spells {x : Symbol} {init : Option Expr}
    (hinit : ∀ e ∈ init, e.Canonical .expression) {ts : List Token}
    (h : Spells ts (variableMarks x init)) : DerivesVariable ts x init := by
  cases init with
  | none =>
      simp only [variableMarks, spells_cons, spells_nil] at h
      obtain ⟨name, _, hname, ⟨semicolon, _, hsemicolon, rfl, rfl⟩, rfl⟩ := h
      exact .bare hname.1 hsemicolon.1
  | some e =>
      simp only [variableMarks, spells_append, spells_cons, spells_nil] at h
      obtain ⟨_, _, ⟨name, _, hname, ⟨equals, ts, hequals, h, rfl⟩, rfl⟩,
        ⟨semicolon, _, hsemicolon, rfl, rfl⟩, rfl⟩ := h
      exact .init hname.1 hequals.1 ((hinit e rfl).derives h) hsemicolon.1

/-- What a loop does first is derived from what spells it. -/
theorem ForInit.Canonical.derives {init : ForInit} (hinit : init.Canonical) {ts : List Token}
    (h : Spells ts init.marks) : DerivesForInit ts init := by
  cases hinit with
  | none =>
      simp only [marks, spells_cons, spells_nil] at h
      obtain ⟨semicolon, _, hsemicolon, rfl, rfl⟩ := h
      exact .none hsemicolon.1
  | var hinit =>
      simp only [marks, spells_cons] at h
      obtain ⟨keyword, ts, hkeyword, h, rfl⟩ := h
      exact .var hkeyword.1 (derivesVariable_of_spells hinit h)
  | expr he =>
      simp only [marks, spells_append, spells_cons, spells_nil] at h
      obtain ⟨ts, _, h, ⟨semicolon, _, hsemicolon, rfl, rfl⟩, rfl⟩ := h
      exact .expr (he.derives h) hsemicolon.1

/-- Parameters are derived from what spells them with commas. -/
theorem derivesNames_of_spells {x : Symbol} {xs : List Symbol} {ts : List Token}
    (h : Spells ts ([Mark.punct .comma].intercalate ((x :: xs).map fun x => [Mark.name x]))) :
    DerivesNames ts (x :: xs) := by
  induction xs generalizing x ts with
  | nil =>
      simp only [List.intercalate, List.map_cons, List.map_nil, List.intersperse_singleton,
        List.flatten_cons, List.flatten_nil, List.append_nil, spells_cons, spells_nil] at h
      obtain ⟨name, _, hname, rfl, rfl⟩ := h
      exact .one hname.1
  | cons x' xs ih =>
      obtain ⟨ts₁, comma, ts₂, h₁, hcomma, h₂, rfl⟩ := spells_commas.mp h
      obtain ⟨name, _, hname, hnil, rfl⟩ := spells_cons.mp h₁
      obtain rfl := spells_nil.mp hnil
      exact .more hname.1 hcomma (ih h₂)

theorem derivesParameters_of_spells {params : List Symbol} (harity : params.length ≤ maxArity)
    {ts : List Token}
    (h : Spells ts ([Mark.punct .comma].intercalate (params.map fun x => [Mark.name x]))) :
    DerivesParameters ts params := by
  cases params with
  | nil =>
      obtain rfl : ts = [] := by simpa [List.intercalate] using h
      exact .none
  | cons x xs => exact .some (derivesNames_of_spells h) harity

/-- Declarations are derived from what spells them one behind the other, if each of them is. -/
theorem derivesDeclarations_of_spells {scope : Scope} {ss : List Surface} {ts : List Token}
    (ih : ∀ s ∈ ss, ∀ {ts : List Token}, Spells ts s.marks → DerivesDeclaration scope ts s)
    (h : Spells ts (ss.flatMap Surface.marks)) : DerivesDeclarations scope ts ss := by
  induction ss generalizing ts with
  | nil =>
      obtain rfl := spells_nil.mp h
      exact .nil
  | cons s ss ih' =>
      rw [List.flatMap_cons, spells_append] at h
      obtain ⟨ts₁, ts₂, h₁, h₂, rfl⟩ := h
      refine .cons (ih s (by simp) h₁) (ih' ?_ h₂)
      intro s' hs'
      exact ih s' (List.mem_cons_of_mem _ hs')

/-- What is not a declaration is a statement. -/
theorem DerivesDeclaration.statement {scope : Scope} {ts : List Token} {s : Surface}
    (h : DerivesDeclaration scope ts s) (hs : s.isDeclaration = false) :
    DerivesStatement scope ts s := by
  cases h with
  | function => cases hs
  | var => cases hs
  | ofStatement h => exact h

/-- A spelling of a canonical statement derives it. -/
theorem Surface.Canonical.derives {scope : Scope} {s : Surface} (hs : s.Canonical scope)
    {ts : List Token} (h : Spells ts s.marks) : DerivesDeclaration scope ts s := by
  induction hs generalizing ts with
  | expr he =>
      simp only [marks, spells_append, spells_cons, spells_nil] at h
      obtain ⟨ts, _, h, ⟨semicolon, _, hsemicolon, rfl, rfl⟩, rfl⟩ := h
      exact .ofStatement (.expr (he.derives h) hsemicolon.1)
  | print he =>
      simp only [marks, spells_append, spells_cons, spells_nil] at h
      obtain ⟨_, _, ⟨keyword, ts, hkeyword, h, rfl⟩, ⟨semicolon, _, hsemicolon, rfl, rfl⟩, rfl⟩ := h
      exact .ofStatement (.print hkeyword.1 (he.derives h) hsemicolon.1)
  | var hinit =>
      simp only [marks, spells_cons] at h
      obtain ⟨keyword, ts, hkeyword, h, rfl⟩ := h
      exact .var hkeyword.1 (derivesVariable_of_spells hinit h)
  | block _ ih =>
      simp only [marks, spells_append, spells_cons, spells_nil] at h
      obtain ⟨_, _, ⟨opening, ts, hopening, h, rfl⟩, ⟨closing, _, hclosing, rfl, rfl⟩, rfl⟩ := h
      exact .ofStatement (.block hopening.1 (derivesDeclarations_of_spells ih h) hclosing.1)
  | ifThen he _ hyes ih =>
      simp only [marks, spells_append, spells_cons] at h
      obtain ⟨_, _, ⟨keyword, _, hkeyword, ⟨opening, ts₁, hopening, h₁, rfl⟩, rfl⟩,
        ⟨closing, ts₂, hclosing, h₂, rfl⟩, rfl⟩ := h
      exact .ofStatement
        (.ifThen hkeyword.1 hopening.1 (he.derives h₁) hclosing.1 ((ih h₂).statement hyes))
  | ifElse he _ hyes htakes _ hno ih₁ ih₂ =>
      simp only [marks, spells_append, spells_cons] at h
      obtain ⟨_, _, ⟨_, _, ⟨keyword, _, hkeyword, ⟨opening, ts₁, hopening, h₁, rfl⟩, rfl⟩,
        ⟨closing, ts₂, hclosing, h₂, rfl⟩, rfl⟩, ⟨else_, ts₃, helse, h₃, rfl⟩, rfl⟩ := h
      exact .ofStatement
        (.ifElse hkeyword.1 hopening.1 (he.derives h₁) hclosing.1 ((ih₁ h₂).statement hyes) htakes
          helse.1 ((ih₂ h₃).statement hno))
  | while_ he _ hbody ih =>
      simp only [marks, spells_append, spells_cons] at h
      obtain ⟨_, _, ⟨keyword, _, hkeyword, ⟨opening, ts₁, hopening, h₁, rfl⟩, rfl⟩,
        ⟨closing, ts₂, hclosing, h₂, rfl⟩, rfl⟩ := h
      exact .ofStatement
        (.while_ hkeyword.1 hopening.1 (he.derives h₁) hclosing.1 ((ih h₂).statement hbody))
  | for_ hinit hcondition hincrement _ hbody ih =>
      simp only [marks, spells_append, spells_cons] at h
      obtain ⟨_, _, ⟨_, _, ⟨_, _, ⟨keyword, _, hkeyword, ⟨opening, ts₁, hopening, h₁, rfl⟩, rfl⟩,
        h₂, rfl⟩, ⟨semicolon, ts₃, hsemicolon, h₃, rfl⟩, rfl⟩,
        ⟨closing, ts₄, hclosing, h₄, rfl⟩, rfl⟩ := h
      exact .ofStatement
        (.for_ hkeyword.1 hopening.1 (hinit.derives h₁) (derivesOption_of_spells hcondition h₂)
          hsemicolon.1 (derivesOption_of_spells hincrement h₃) hclosing.1
          ((ih h₄).statement hbody))
  | break_ hloop =>
      simp only [marks, spells_cons, spells_nil] at h
      obtain ⟨keyword, _, hkeyword, ⟨semicolon, _, hsemicolon, rfl, rfl⟩, rfl⟩ := h
      exact .ofStatement (.break_ hkeyword.1 hsemicolon.1 hloop)
  | function harity _ ih =>
      simp only [marks, spells_append, spells_cons, spells_nil] at h
      obtain ⟨_, _, ⟨_, _, ⟨keyword, _, hkeyword, ⟨name, _, hname,
        ⟨opening, ts₁, hopening, h₁, rfl⟩, rfl⟩, rfl⟩, ⟨closing, _, hclosing,
        ⟨leftBrace, ts₂, hleft, h₂, rfl⟩, rfl⟩, rfl⟩, ⟨rightBrace, _, hright, rfl, rfl⟩, rfl⟩ := h
      exact .function hkeyword.1 hname.1 hopening.1 (derivesParameters_of_spells harity h₁)
        hclosing.1 hleft.1 (derivesDeclarations_of_spells ih h₂) hright.1
  | return_ he hfunction =>
      simp only [marks, spells_append, spells_cons, spells_nil] at h
      obtain ⟨_, _, ⟨keyword, ts, hkeyword, h, rfl⟩, ⟨semicolon, _, hsemicolon, rfl, rfl⟩, rfl⟩ := h
      exact .ofStatement
        (.return_ hkeyword.1 (derivesOption_of_spells he h) hsemicolon.1 hfunction)

/-! ## Reading undoes printing -/

/-- A spelling of a canonical program, up to the end mark if there is one, is read without
diagnostics as the rewriting of the program.  What it records as lines are the lines of the tokens,
because the marks of the program ask for them. -/
theorem parse_of_spells {program : List Surface} (hprogram : ∀ s ∈ program, s.Canonical {})
    {ts : List Token} (h : Spells ts (program.flatMap Surface.marks)) {tail : List Token}
    (htail : ∀ t ∈ tail.head?, t.kind = .eof) :
    parse (ts ++ tail) = ⟨program.map Surface.desugar, []⟩ := by
  have hd : DerivesDeclarations {} ts program :=
    derivesDeclarations_of_spells (fun s hs => (hprogram s hs).derives) h
  have hbody : Token.body (ts ++ tail) = ts := Token.body_append h.kind_ne_eof htail
  rw [parse, hbody]
  exact hd.declarations_eq _

/-- The program `fun f(a) { for (; a < nil;) if (a) break; else return -f(a); }`, with the uses of
names, the operators and the end of the call on lines of their own. -/
theorem parse_of_spells_function :
    let f : Symbol := ⟨0, "f"⟩
    let a : Symbol := ⟨1, "a"⟩
    let condition : Expr := .binary .less (.var a 1) (.literal .nil) 2
    let result : Expr := .unary .neg (.call (.var f 4) [.var a 5] 6) 3
    let program : List Surface := [.function f [a] [.for_ .none (some condition) none
      (.ifElse (.var a 8) .break_ (.return_ (some result)))]]
    parse ((program.flatMap Surface.marks).map (Mark.token 7) ++ [⟨.eof, "", 9⟩]) =
      ⟨[.function f [a] [.while_ condition
        (.ifElse (.var a 8) .break_ (.return_ (some result)))]], []⟩ := by
  intro f a condition result program
  have hcondition : condition.Canonical .expression :=
    @Expr.Canonical.binary _ .comparison _ _ _ _ (by decide) (by decide) .var .literal
  have hresult : result.Canonical .expression :=
    .unary (by decide) (.call (by decide) .var (by simpa using .var) (by decide))
  have hprogram : ∀ s ∈ program, s.Canonical {} := by
    refine List.forall_mem_singleton.mpr (.function (by decide) (List.forall_mem_singleton.mpr ?_))
    refine .for_ .none (by simpa using hcondition) nofun ?_ rfl
    exact .ifElse .var (.break_ rfl) rfl rfl (.return_ (by simpa using hresult) rfl) rfl
  have htail : ∀ t ∈ [Token.mk .eof "" 9].head?, t.kind = .eof := by simp
  have h := parse_of_spells hprogram (spells_map_token 7 _) htail
  simpa [program, Surface.desugar, ForInit.stmt?] using h

end Lox
