import Lox.Proofs.Grammar.Renaming
import Mathlib.Data.List.Forall2

/-!
# Programs part by part

The programs of two runs can be compared part by part.  A `Translation` says how they may differ, in
names and in lines.  A program corresponds to itself, and to what it is with other names and lines.
-/

namespace Lox

/-- The statements that a statement is made of. -/
def Stmt.parts : Stmt → List Stmt
  | block body => body
  | ifThen _ yes => [yes]
  | ifElse _ yes no => [yes, no]
  | while_ _ body => [body]
  | function _ _ body => body
  | _ => []

/-! ## Correspondence -/

section

variable (symbol : Symbol → Symbol → Prop) (line : Position → Position → Prop)
  (expr : Expr → Expr → Prop) (stmt : Stmt → Stmt → Prop) (body : List Stmt → List Stmt → Prop)

/-- The expressions are of one shape, and their parts correspond. -/
inductive Expr.Corresponds : Expr → Expr → Prop
  | literal {value : Literal} : Corresponds (.literal value) (.literal value)
  | group {e e' : Expr} : expr e e' → Corresponds (.group e) (.group e')
  | unary {op : UnaryOp} {e e' : Expr} {l l' : Position} :
      expr e e' → line l l' → Corresponds (.unary op e l) (.unary op e' l')
  | binary {op : BinaryOp} {left left' right right' : Expr} {l l' : Position} :
      expr left left' → expr right right' → line l l' →
      Corresponds (.binary op left right l) (.binary op left' right' l')
  | logical {op : LogicalOp} {left left' right right' : Expr} :
      expr left left' → expr right right' →
      Corresponds (.logical op left right) (.logical op left' right')
  | conditional {condition condition' yes yes' no no' : Expr} :
      expr condition condition' → expr yes yes' → expr no no' →
      Corresponds (.conditional condition yes no) (.conditional condition' yes' no')
  | var {x x' : Symbol} {l l' : Position} :
      symbol x x' → line l l' → Corresponds (.var x l) (.var x' l')
  | assign {x x' : Symbol} {e e' : Expr} {l l' : Position} :
      symbol x x' → expr e e' → line l l' → Corresponds (.assign x e l) (.assign x' e' l')
  | call {callee callee' : Expr} {args args' : List Expr} {l l' : Position} :
      expr callee callee' → List.Forall₂ expr args args' → line l l' →
      Corresponds (.call callee args l) (.call callee' args' l')

/-- The statements are of one shape, and their parts correspond.  A function keeps the spelling of
its name, because it shows when the function is printed. -/
inductive Stmt.Corresponds : Stmt → Stmt → Prop
  | expr {e e' : Expr} : expr e e' → Corresponds (.expr e) (.expr e')
  | print {e e' : Expr} : expr e e' → Corresponds (.print e) (.print e')
  | var {x x' : Symbol} {init init' : Option Expr} :
      symbol x x' → Option.Rel expr init init' → Corresponds (.var x init) (.var x' init')
  | block {ss ss' : List Stmt} : List.Forall₂ stmt ss ss' → Corresponds (.block ss) (.block ss')
  | ifThen {e e' : Expr} {yes yes' : Stmt} :
      expr e e' → stmt yes yes' → Corresponds (.ifThen e yes) (.ifThen e' yes')
  | ifElse {e e' : Expr} {yes yes' no no' : Stmt} :
      expr e e' → stmt yes yes' → stmt no no' →
      Corresponds (.ifElse e yes no) (.ifElse e' yes' no')
  | while_ {e e' : Expr} {inner inner' : Stmt} :
      expr e e' → stmt inner inner' → Corresponds (.while_ e inner) (.while_ e' inner')
  | break_ : Corresponds .break_ .break_
  | function {f f' : Symbol} {params params' : List Symbol} {ss ss' : List Stmt} :
      symbol f f' → f.name = f'.name → List.Forall₂ symbol params params' → body ss ss' →
      Corresponds (.function f params ss) (.function f' params' ss')
  | return_ {e e' : Option Expr} : Option.Rel expr e e' → Corresponds (.return_ e) (.return_ e')

end

/-- How the programs of two runs correspond: names one to one, and trees part by part. -/
structure Translation where
  symbol : Symbol → Symbol → Prop
  line : Position → Position → Prop
  expr : Expr → Expr → Prop
  stmt : Stmt → Stmt → Prop
  /-- Between the bodies of functions. -/
  body : List Stmt → List Stmt → Prop
  symbol_iff {x x' y y' : Symbol} : symbol x x' → symbol y y' → (x = y ↔ x' = y')
  expr_cases {e e' : Expr} : expr e e' → Expr.Corresponds symbol line expr e e'
  stmt_cases {s s' : Stmt} : stmt s s' → Stmt.Corresponds symbol expr stmt body s s'
  body_cases {ss ss' : List Stmt} : body ss ss' → List.Forall₂ stmt ss ss'

/-! ## Other names and other lines -/

section

variable {f f' : Symbol → Symbol} {g g' : Position → Position} {symbol : Symbol → Symbol → Prop}
  {line : Position → Position → Prop} {expr : Expr → Expr → Prop}

/-- An expression with one exchange made corresponds to the expression with another one made.  What
is not in the expression does not matter. -/
theorem Expr.Corresponds.renames {e : Expr} (hsymbol : ∀ x ∈ e.symbols, symbol (f x) (f' x))
    (hline : ∀ l, line (g l) (g' l))
    (hexpr : ∀ part : Expr, part.symbols ⊆ e.symbols →
      expr (part.rename f g) (part.rename f' g')) :
    Expr.Corresponds symbol line expr (e.rename f g) (e.rename f' g') := by
  cases e with
  | literal _ =>
      rw [Expr.rename, Expr.rename]
      exact .literal
  | group _ =>
      rw [Expr.symbols] at hexpr
      rw [Expr.rename, Expr.rename]
      exact .group (hexpr _ (List.Subset.refl _))
  | unary _ _ _ =>
      rw [Expr.symbols] at hexpr
      rw [Expr.rename, Expr.rename]
      exact .unary (hexpr _ (List.Subset.refl _)) (hline _)
  | binary _ _ _ _ =>
      rw [Expr.symbols] at hexpr
      rw [Expr.rename, Expr.rename]
      exact .binary (hexpr _ (List.subset_append_left _ _)) (hexpr _ (List.subset_append_right _ _))
        (hline _)
  | logical _ _ _ =>
      rw [Expr.symbols] at hexpr
      rw [Expr.rename, Expr.rename]
      exact .logical (hexpr _ (List.subset_append_left _ _))
        (hexpr _ (List.subset_append_right _ _))
  | conditional _ _ _ =>
      rw [Expr.symbols, List.append_assoc] at hexpr
      rw [Expr.rename, Expr.rename]
      refine .conditional (hexpr _ (List.subset_append_left _ _)) (hexpr _ ?_) (hexpr _ ?_)
      · exact List.subset_append_of_subset_right _ (List.subset_append_left _ _)
      · exact List.subset_append_of_subset_right _ (List.subset_append_right _ _)
  | var _ _ =>
      rw [Expr.symbols] at hsymbol
      rw [Expr.rename, Expr.rename]
      exact .var (hsymbol _ List.mem_cons_self) (hline _)
  | assign _ _ _ =>
      rw [Expr.symbols] at hsymbol hexpr
      rw [Expr.rename, Expr.rename]
      exact .assign (hsymbol _ List.mem_cons_self) (hexpr _ (List.subset_cons_self _ _)) (hline _)
  | call _ args _ =>
      rw [Expr.symbols] at hexpr
      rw [Expr.rename, Expr.rename]
      refine .call (hexpr _ (List.subset_append_left _ _)) ?_ (hline _)
      refine List.forall₂_map_left_iff.mpr (List.forall₂_map_right_iff.mpr ?_)
      refine List.forall₂_same.mpr fun e he => hexpr e ?_
      exact List.subset_append_of_subset_right _ fun _ hx => List.mem_flatMap.mpr ⟨e, he, hx⟩

/-- The names of a part are among those of the whole. -/
theorem Stmt.symbols_part_subset {s part : Stmt} (hpart : part ∈ s.parts) :
    part.symbols ⊆ s.symbols := by
  cases s with
  | block _ =>
      rw [Stmt.symbols]
      exact fun _ hx => List.mem_flatMap.mpr ⟨part, hpart, hx⟩
  | ifThen _ _ =>
      cases List.mem_singleton.mp hpart
      rw [Stmt.symbols]
      exact List.subset_append_right _ _
  | ifElse _ _ _ =>
      rw [Stmt.symbols, List.append_assoc]
      refine List.subset_append_of_subset_right _ ?_
      rcases List.mem_pair.mp hpart with rfl | rfl
      · exact List.subset_append_left _ _
      · exact List.subset_append_right _ _
  | while_ _ _ =>
      cases List.mem_singleton.mp hpart
      rw [Stmt.symbols]
      exact List.subset_append_right _ _
  | function _ _ _ =>
      rw [Stmt.symbols]
      exact List.subset_append_of_subset_right _ fun _ hx => List.mem_flatMap.mpr ⟨part, hpart, hx⟩
  | expr _ | print _ | var _ _ | break_ | return_ _ => cases hpart

/-- A statement with one exchange made corresponds to the statement with another one made.  Only the
names of functions have to be spelled alike. -/
theorem Stmt.Corresponds.renames {stmt : Stmt → Stmt → Prop} {body : List Stmt → List Stmt → Prop}
    {s : Stmt} (hsymbol : ∀ x ∈ s.symbols, symbol (f x) (f' x))
    (hname : ∀ name params ss, s = .function name params ss → (f name).name = (f' name).name)
    (hexpr : ∀ part : Expr, part.symbols ⊆ s.symbols →
      expr (part.rename f g) (part.rename f' g'))
    (hparts : ∀ part ∈ s.parts, stmt (part.rename f g) (part.rename f' g'))
    (hbody : ∀ name params ss, s = .function name params ss →
      body (ss.map (Stmt.rename f g)) (ss.map (Stmt.rename f' g'))) :
    Stmt.Corresponds symbol expr stmt body (s.rename f g) (s.rename f' g') := by
  have hoption (e : Option Expr) (he : e.toList.flatMap Expr.symbols ⊆ s.symbols) :
      Option.Rel expr (e.map (Expr.rename f g)) (e.map (Expr.rename f' g')) := by
    cases e with
    | none => exact .none
    | some e => exact .some (hexpr e (by simpa using he))
  cases s with
  | expr _ =>
      rw [Stmt.symbols] at hexpr
      rw [Stmt.rename, Stmt.rename]
      exact .expr (hexpr _ (List.Subset.refl _))
  | print _ =>
      rw [Stmt.symbols] at hexpr
      rw [Stmt.rename, Stmt.rename]
      exact .print (hexpr _ (List.Subset.refl _))
  | var _ _ =>
      rw [Stmt.symbols] at hsymbol hoption
      rw [Stmt.rename, Stmt.rename]
      exact .var (hsymbol _ List.mem_cons_self) (hoption _ (List.subset_cons_self _ _))
  | block _ =>
      rw [Stmt.rename, Stmt.rename]
      refine .block (List.forall₂_map_left_iff.mpr (List.forall₂_map_right_iff.mpr ?_))
      exact List.forall₂_same.mpr hparts
  | ifThen _ _ =>
      rw [Stmt.symbols] at hexpr
      rw [Stmt.rename, Stmt.rename]
      exact .ifThen (hexpr _ (List.subset_append_left _ _)) (hparts _ List.mem_cons_self)
  | ifElse _ _ _ =>
      rw [Stmt.symbols, List.append_assoc] at hexpr
      rw [Stmt.rename, Stmt.rename]
      exact .ifElse (hexpr _ (List.subset_append_left _ _)) (hparts _ List.mem_cons_self)
        (hparts _ (List.mem_cons_of_mem _ List.mem_cons_self))
  | while_ _ _ =>
      rw [Stmt.symbols] at hexpr
      rw [Stmt.rename, Stmt.rename]
      exact .while_ (hexpr _ (List.subset_append_left _ _)) (hparts _ List.mem_cons_self)
  | break_ =>
      rw [Stmt.rename, Stmt.rename]
      exact .break_
  | function _ params _ =>
      rw [Stmt.symbols] at hsymbol
      rw [Stmt.rename, Stmt.rename]
      refine .function (hsymbol _ List.mem_cons_self) (hname _ _ _ rfl) ?_ (hbody _ _ _ rfl)
      refine List.forall₂_map_left_iff.mpr (List.forall₂_map_right_iff.mpr ?_)
      refine List.forall₂_same.mpr fun x hx => hsymbol x ?_
      exact List.mem_append_left _ (List.mem_cons_of_mem _ hx)
  | return_ _ =>
      rw [Stmt.symbols] at hoption
      rw [Stmt.rename, Stmt.rename]
      exact .return_ (hoption _ (List.Subset.refl _))

/-- An expression corresponds to itself with other names and lines. -/
theorem Expr.Corresponds.rename {e : Expr} (hsymbol : ∀ x ∈ e.symbols, symbol x (f x))
    (hline : ∀ l, line l (g l))
    (hexpr : ∀ part : Expr, part.symbols ⊆ e.symbols → expr part (part.rename f g)) :
    Expr.Corresponds symbol line expr e (e.rename f g) := by
  have hexpr (part : Expr) (hpart : part.symbols ⊆ e.symbols) :
      expr (part.rename id id) (part.rename f g) := part.rename_id.symm ▸ hexpr part hpart
  have h := Expr.Corresponds.renames (f := id) (g := id) hsymbol hline hexpr
  rwa [e.rename_id] at h

/-- And so does a statement. -/
theorem Stmt.Corresponds.rename {stmt : Stmt → Stmt → Prop} {body : List Stmt → List Stmt → Prop}
    {s : Stmt} (hsymbol : ∀ x ∈ s.symbols, symbol x (f x))
    (hname : ∀ name params ss, s = .function name params ss → name.name = (f name).name)
    (hexpr : ∀ part : Expr, part.symbols ⊆ s.symbols → expr part (part.rename f g))
    (hparts : ∀ part ∈ s.parts, stmt part (part.rename f g))
    (hbody : ∀ name params ss, s = .function name params ss →
      body ss (ss.map (Stmt.rename f g))) :
    Stmt.Corresponds symbol expr stmt body s (s.rename f g) := by
  have hexpr (part : Expr) (hpart : part.symbols ⊆ s.symbols) :
      expr (part.rename id id) (part.rename f g) := part.rename_id.symm ▸ hexpr part hpart
  have hparts (part : Stmt) (hpart : part ∈ s.parts) :
      stmt (part.rename id id) (part.rename f g) := part.rename_id.symm ▸ hparts part hpart
  have hbody (name : Symbol) (params : List Symbol) (ss : List Stmt)
      (hs : s = .function name params ss) :
      body (ss.map (Stmt.rename id id)) (ss.map (Stmt.rename f g)) := by
    rw [Stmt.map_rename_id]
    exact hbody name params ss hs
  have h := Stmt.Corresponds.renames (f := id) (g := id) hsymbol hname hexpr hparts hbody
  rwa [s.rename_id] at h

/-- An expression corresponds to itself as it is. -/
theorem Expr.Corresponds.refl (hsymbol : ∀ x, symbol x x) (hline : ∀ l, line l l)
    (hexpr : ∀ e, expr e e) (e : Expr) : Expr.Corresponds symbol line expr e e := by
  have hexpr (part : Expr) (_ : part.symbols ⊆ e.symbols) : expr part (part.rename id id) :=
    part.rename_id.symm ▸ hexpr part
  have h := Expr.Corresponds.rename (f := id) (g := id) (fun x _ => hsymbol x) hline hexpr
  rwa [e.rename_id] at h

theorem Stmt.Corresponds.refl {stmt : Stmt → Stmt → Prop} {body : List Stmt → List Stmt → Prop}
    (hsymbol : ∀ x, symbol x x) (hexpr : ∀ e, expr e e) (hstmt : ∀ s, stmt s s)
    (hbody : ∀ ss, body ss ss) (s : Stmt) : Stmt.Corresponds symbol expr stmt body s s := by
  have hexpr (part : Expr) (_ : part.symbols ⊆ s.symbols) : expr part (part.rename id id) :=
    part.rename_id.symm ▸ hexpr part
  have hparts (part : Stmt) (_ : part ∈ s.parts) : stmt part (part.rename id id) :=
    part.rename_id.symm ▸ hstmt part
  have hbody (name : Symbol) (params : List Symbol) (ss : List Stmt)
      (_ : s = .function name params ss) : body ss (ss.map (Stmt.rename id id)) := by
    rw [Stmt.map_rename_id]
    exact hbody ss
  have h := Stmt.Corresponds.rename (f := id) (g := id) (fun x _ => hsymbol x)
    (fun _ _ _ _ => rfl) hexpr hparts hbody
  rwa [s.rename_id] at h

end

end Lox
