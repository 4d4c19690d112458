import Lox.Proofs.Grammar.Derivation
import Mathlib.Data.Set.Basic

/-!
# What the grammar makes sure of

A tree is legal with respect to a set of tokens if every line it records is that of a token to
blame, if no call and no function has more than `maxArity` arguments or parameters, and if each
`break` and each `return` stands in a scope that allows it.  Every tree that tokens derive is legal
with respect to them, and rewriting the `for` loops keeps it so.
-/

namespace Lox

/-- A token of the kind stands on the line. -/
def Kind.StandsOn (kind : Kind) (T : Set Token) (line : Position) : Prop :=
  ∃ t ∈ T, t.kind = kind ∧ t.line = line

/-- Further tokens take nothing away from those that are there. -/
theorem Kind.StandsOn.mono {kind : Kind} {T T' : Set Token} {line : Position}
    (h : kind.StandsOn T line) (hT : T ⊆ T') : kind.StandsOn T' line := by
  obtain ⟨t, ht, hkind⟩ := h
  exact ⟨t, hT ht, hkind⟩

/-! ## Expressions -/

inductive Expr.Legal (T : Set Token) : Expr → Prop
  | literal {value : Literal} : Legal T (.literal value)
  | group {e : Expr} : Legal T e → Legal T (.group e)
  | unary {op : UnaryOp} {e : Expr} {line : Position} :
      op.kind.StandsOn T line → Legal T e → Legal T (.unary op e line)
  | binary {op : BinaryOp} {left right : Expr} {line : Position} :
      (Connective.binary op).kind.StandsOn T line → Legal T left → Legal T right →
      Legal T (.binary op left right line)
  | logical {op : LogicalOp} {left right : Expr} :
      Legal T left → Legal T right → Legal T (.logical op left right)
  | conditional {condition yes no : Expr} :
      Legal T condition → Legal T yes → Legal T no → Legal T (.conditional condition yes no)
  | var {x : Symbol} {line : Position} : (Kind.identifier x).StandsOn T line → Legal T (.var x line)
  | assign {x : Symbol} {value : Expr} {line : Position} :
      (Kind.identifier x).StandsOn T line → Legal T value → Legal T (.assign x value line)
  | call {callee : Expr} {args : List Expr} {line : Position} :
      (Kind.punct .rightParen).StandsOn T line → Legal T callee → (∀ arg ∈ args, Legal T arg) →
      args.length ≤ maxArity → Legal T (.call callee args line)

theorem Expr.Legal.mono {T T' : Set Token} {e : Expr} (h : e.Legal T) (hT : T ⊆ T') :
    e.Legal T' := by
  induction h with
  | literal => exact .literal
  | group _ ih => exact .group ih
  | unary hop _ ih => exact .unary (hop.mono hT) ih
  | binary hop _ _ ih₁ ih₂ => exact .binary (hop.mono hT) ih₁ ih₂
  | logical _ _ ih₁ ih₂ => exact .logical ih₁ ih₂
  | conditional _ _ _ ih₁ ih₂ ih₃ => exact .conditional ih₁ ih₂ ih₃
  | var hx => exact .var (hx.mono hT)
  | assign hx _ ih => exact .assign (hx.mono hT) ih
  | call hparen _ _ harity ih ihs => exact .call (hparen.mono hT) ih ihs harity

/-- A connective joins legal expressions to a legal one, if its token is there on the line. -/
theorem Expr.Legal.join {T : Set Token} {c : Connective} {left right : Expr} {line : Position}
    (hc : c.kind.StandsOn T line) (hleft : left.Legal T) (hright : right.Legal T) :
    (c.join left right line).Legal T := by
  cases c with
  | binary op => exact .binary hc hleft hright
  | logical op => exact .logical hleft hright

mutual

/-- A derived expression is legal for the tokens that it was derived from: each line recorded in it
is that of a token which can fail there. -/
theorem Derives.legal {T : Set Token} {tier : Tier} {ts : List Token} {e : Expr}
    (h : Derives tier ts e) (hT : ∀ t ∈ ts, t ∈ T) : e.Legal T := by
  match h with
  | .assign hname _ hvalue =>
      simp only [List.forall_mem_cons] at hT
      exact .assign ⟨_, hT.1, hname, rfl⟩ (hvalue.legal hT.2.2)
  | .ofConditional h => exact h.legal hT
  | .conditional hcondition _ hyes _ hno =>
      simp only [List.forall_mem_append, List.forall_mem_cons] at hT
      exact .conditional (hcondition.legal hT.1.1) (hyes.legal hT.1.2.2) (hno.legal hT.2.2)
  | .ofBinary h => exact h.legal hT
  | .join hleft _ hop hright =>
      simp only [List.forall_mem_append, List.forall_mem_cons] at hT
      exact .join ⟨_, hT.2.1, hop, rfl⟩ (hleft.legal hT.1) (hright.legal hT.2.2)
  | .ofOperand h => exact h.legal hT
  | .unary ht h =>
      simp only [List.forall_mem_cons] at hT
      exact .unary ⟨_, hT.1, ht, rfl⟩ (h.legal hT.2)
  | .ofCall h => exact h.legal hT
  | .call hcallee _ hargs harity hclosing =>
      simp only [List.forall_mem_append, List.forall_mem_cons] at hT
      exact .call ⟨_, hT.2.1, hclosing, rfl⟩ (hcallee.legal hT.1.1) (hargs.legal hT.1.2.2) harity
  | .callEmpty hcallee _ hclosing =>
      simp only [List.forall_mem_append, List.forall_mem_cons] at hT
      exact .call ⟨_, hT.2.2.1, hclosing, rfl⟩ (hcallee.legal hT.1) nofun (Nat.zero_le _)
  | .ofPrimary h => exact h.legal hT
  | .literal _ => exact .literal
  | .var ht => exact .var ⟨_, hT _ (List.mem_singleton_self _), ht, rfl⟩
  | .group _ h _ =>
      simp only [List.forall_mem_append, List.forall_mem_cons] at hT
      exact .group (h.legal hT.1.2)
termination_by structural h

theorem DerivesArguments.legal {T : Set Token} {ts : List Token} {args : List Expr}
    (h : DerivesArguments ts args) (hT : ∀ t ∈ ts, t ∈ T) : ∀ arg ∈ args, arg.Legal T := by
  match h with
  | .one h =>
      refine List.forall_mem_singleton.mpr ?_
      exact h.legal hT
  | .more h _ hs =>
      simp only [List.forall_mem_append, List.forall_mem_cons] at hT
      refine List.forall_mem_cons.mpr ⟨?_, ?_⟩
      · exact h.legal hT.1
      · exact hs.legal hT.2.2
termination_by structural h

end

/-! ## Statements -/

inductive Stmt.Legal (T : Set Token) : Scope → Stmt → Prop
  | expr {scope : Scope} {e : Expr} : e.Legal T → Legal T scope (.expr e)
  | print {scope : Scope} {e : Expr} : e.Legal T → Legal T scope (.print e)
  | var {scope : Scope} {x : Symbol} {init : Option Expr} :
      (∀ e ∈ init, e.Legal T) → Legal T scope (.var x init)
  | block {scope : Scope} {body : List Stmt} :
      (∀ s ∈ body, Legal T scope s) → Legal T scope (.block body)
  | ifThen {scope : Scope} {condition : Expr} {yes : Stmt} :
      condition.Legal T → Legal T scope yes → Legal T scope (.ifThen condition yes)
  | ifElse {scope : Scope} {condition : Expr} {yes no : Stmt} :
      condition.Legal T → Legal T scope yes → Legal T scope no →
      Legal T scope (.ifElse condition yes no)
  | while_ {scope : Scope} {condition : Expr} {body : Stmt} :
      condition.Legal T → Legal T { scope with inLoop := true } body →
      Legal T scope (.while_ condition body)
  | break_ {scope : Scope} : scope.inLoop = true → Legal T scope .break_
  | function {scope : Scope} {f : Symbol} {params : List Symbol} {body : List Stmt} :
      params.length ≤ maxArity →
      (∀ s ∈ body, Legal T { inLoop := false, inFunction := true } s) →
      Legal T scope (.function f params body)
  | return_ {scope : Scope} {value : Option Expr} :
      (∀ e ∈ value, e.Legal T) → scope.inFunction = true → Legal T scope (.return_ value)

theorem Stmt.Legal.mono {T T' : Set Token} {scope : Scope} {s : Stmt} (h : s.Legal T scope)
    (hT : T ⊆ T') : s.Legal T' scope := by
  induction h with
  | expr he => exact .expr (he.mono hT)
  | print he => exact .print (he.mono hT)
  | var hinit => exact .var fun e he => (hinit e he).mono hT
  | block _ ih => exact .block ih
  | ifThen he _ ih => exact .ifThen (he.mono hT) ih
  | ifElse he _ _ ih₁ ih₂ => exact .ifElse (he.mono hT) ih₁ ih₂
  | while_ he _ ih => exact .while_ (he.mono hT) ih
  | break_ hloop => exact .break_ hloop
  | function harity _ ih => exact .function harity ih
  | return_ hvalue hfunction => exact .return_ (fun e he => (hvalue e he).mono hT) hfunction

/-- The loop that a `for` stands for is legal if its parts are. -/
theorem ForClauses.legal_loop {T : Set Token} {scope : Scope} {clauses : ForClauses} {body : Stmt}
    (hinit : ∀ s ∈ clauses.init, s.Legal T scope)
    (hcondition : ∀ e ∈ clauses.condition, e.Legal T)
    (hincrement : ∀ e ∈ clauses.increment, e.Legal T)
    (hbody : body.Legal T { scope with inLoop := true }) : (clauses.loop body).Legal T scope := by
  obtain ⟨init, condition, increment⟩ := clauses
  have hround :
      (round ⟨init, condition, increment⟩ body).Legal T { scope with inLoop := true } := by
    cases increment with
    | none => exact hbody
    | some e =>
        have he := hincrement e rfl
        exact .block (List.forall_mem_cons.mpr ⟨hbody, List.forall_mem_singleton.mpr (.expr he)⟩)
  have hrepetition : (repetition ⟨init, condition, increment⟩ body).Legal T scope := by
    cases condition with
    | none => exact .while_ .literal hround
    | some e => exact .while_ (hcondition e rfl) hround
  cases init with
  | none => exact hrepetition
  | some s =>
      have hs := hinit s rfl
      exact .block (List.forall_mem_cons.mpr ⟨hs, List.forall_mem_singleton.mpr hrepetition⟩)

section

variable {T : Set Token} {ts : List Token}

theorem DerivesOption.legal {e : Option Expr} (h : DerivesOption ts e) (hT : ∀ t ∈ ts, t ∈ T) :
    ∀ e' ∈ e, e'.Legal T := by
  cases h with
  | none => nofun
  | some h =>
      rintro e' ⟨⟩
      exact h.legal hT

theorem DerivesVariable.legal {x : Symbol} {init : Option Expr} (h : DerivesVariable ts x init)
    (hT : ∀ t ∈ ts, t ∈ T) : ∀ e ∈ init, e.Legal T := by
  cases h with
  | bare => nofun
  | init _ _ h _ =>
      simp only [List.forall_mem_append, List.forall_mem_cons] at hT
      rintro e ⟨⟩
      exact h.legal hT.1.2.2

/-- What a loop does first is legal in any scope. -/
theorem DerivesForInit.legal {init : ForInit} (h : DerivesForInit ts init)
    (hT : ∀ t ∈ ts, t ∈ T) (scope : Scope) : ∀ s ∈ init.stmt?, s.Legal T scope := by
  cases h with
  | none => nofun
  | var _ h =>
      simp only [List.forall_mem_cons] at hT
      rintro s ⟨⟩
      exact .var (h.legal hT.2)
  | expr h _ =>
      simp only [List.forall_mem_append] at hT
      rintro s ⟨⟩
      exact .expr (h.legal hT.1)

theorem DerivesParameters.length_le {params : List Symbol} (h : DerivesParameters ts params) :
    params.length ≤ maxArity := by
  cases h with
  | none => exact Nat.zero_le _
  | some _ harity => exact harity

end

mutual

/-- A derived statement is legal in its scope once it is desugared, so a jump in it has somewhere to
go. -/
theorem DerivesStatement.legal {T : Set Token} {scope : Scope} {ts : List Token} {s : Surface}
    (h : DerivesStatement scope ts s) (hT : ∀ t ∈ ts, t ∈ T) : s.desugar.Legal T scope := by
  match h with
  | .expr he _ =>
      simp only [List.forall_mem_append] at hT
      rw [Surface.desugar]
      exact .expr (he.legal hT.1)
  | .print _ he _ =>
      simp only [List.forall_mem_append, List.forall_mem_cons] at hT
      rw [Surface.desugar]
      exact .print (he.legal hT.1.2)
  | .block _ hbody _ =>
      simp only [List.forall_mem_append, List.forall_mem_cons] at hT
      rw [Surface.desugar]
      exact .block (List.forall_mem_map.mpr (hbody.legal hT.1.2))
  | .ifThen _ _ he _ hyes =>
      simp only [List.forall_mem_append, List.forall_mem_cons] at hT
      rw [Surface.desugar]
      exact .ifThen (he.legal hT.1.2.2) (hyes.legal hT.2.2)
  | .ifElse _ _ he _ hyes _ _ hno =>
      simp only [List.forall_mem_append, List.forall_mem_cons] at hT
      rw [Surface.desugar]
      exact .ifElse (he.legal hT.1.1.2.2) (hyes.legal hT.1.2.2) (hno.legal hT.2.2)
  | .while_ _ _ he _ hbody =>
      simp only [List.forall_mem_append, List.forall_mem_cons] at hT
      rw [Surface.desugar]
      exact .while_ (he.legal hT.1.2.2) (hbody.legal hT.2.2)
  | .for_ _ _ hinit hcondition _ hincrement _ hbody =>
      simp only [List.forall_mem_append, List.forall_mem_cons] at hT
      rw [Surface.desugar_for]
      exact ForClauses.legal_loop (hinit.legal hT.1.1.1.2.2 scope) (hcondition.legal hT.1.1.2)
        (hincrement.legal hT.1.2.2) (hbody.legal hT.2.2)
  | .break_ _ _ hloop =>
      rw [Surface.desugar]
      exact .break_ hloop
  | .return_ _ he _ hfunction =>
      simp only [List.forall_mem_append, List.forall_mem_cons] at hT
      rw [Surface.desugar]
      exact .return_ (he.legal hT.1.2) hfunction
termination_by structural h

theorem DerivesDeclaration.legal {T : Set Token} {scope : Scope} {ts : List Token} {s : Surface}
    (h : DerivesDeclaration scope ts s) (hT : ∀ t ∈ ts, t ∈ T) : s.desugar.Legal T scope := by
  match h with
  | .function _ _ _ hparams _ _ hbody _ =>
      simp only [List.forall_mem_append, List.forall_mem_cons] at hT
      rw [Surface.desugar]
      exact .function hparams.length_le (List.forall_mem_map.mpr (hbody.legal hT.1.2.2.2))
  | .var _ h =>
      simp only [List.forall_mem_cons] at hT
      rw [Surface.desugar]
      exact .var (h.legal hT.2)
  | .ofStatement h => exact h.legal hT
termination_by structural h

/-- And so are declarations, one by one. -/
theorem DerivesDeclarations.legal {T : Set Token} {scope : Scope} {ts : List Token}
    {ss : List Surface} (h : DerivesDeclarations scope ts ss) (hT : ∀ t ∈ ts, t ∈ T) :
    ∀ s ∈ ss, s.desugar.Legal T scope := by
  match h with
  | .nil => nofun
  | .cons h hs =>
      simp only [List.forall_mem_append] at hT
      refine List.forall_mem_cons.mpr ⟨?_, ?_⟩
      · exact h.legal hT.1
      · exact hs.legal hT.2
termination_by structural h

end

end Lox
