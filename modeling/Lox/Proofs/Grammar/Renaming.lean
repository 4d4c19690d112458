import Lox.Grammar.Program

/-!
# Other names and other lines

Names may be exchanged for others, and lines for others, in tokens as well as in trees.  What the
grammar asks of a token depends on neither.
-/

namespace Lox

variable (f : Symbol → Symbol) (g : Position → Position)

/-! ## Tokens -/

/-- A name is exchanged, and any other kind stays. -/
def Kind.rename : Kind → Kind
  | identifier x => identifier (f x)
  | kind => kind

/-- The token with its name and its line exchanged. -/
def Token.rename (t : Token) : Token := ⟨t.kind.rename f, t.lexeme, g t.line⟩

/-! What the grammar asks of a token does not change. -/

section

variable {f} {g}

/-- Only names are renamed, and so punctuation stays what it is. -/
theorem Token.kind_rename_punct_iff {t : Token} {p : Punct} :
    (t.rename f g).kind = .punct p ↔ t.kind = .punct p := by
  obtain ⟨kind, lexeme, line⟩ := t
  cases kind <;> simp [Token.rename, Kind.rename]

/-- Words stay what they are as well. -/
theorem Token.kind_rename_keyword_iff {t : Token} {k : Keyword} :
    (t.rename f g).kind = .keyword k ↔ t.kind = .keyword k := by
  obtain ⟨kind, lexeme, line⟩ := t
  cases kind <;> simp [Token.rename, Kind.rename]

end

theorem Kind.connectiveAt?_rename (kind : Kind) (level : Level) :
    (kind.rename f).connectiveAt? level = kind.connectiveAt? level := by
  cases kind <;> rfl

theorem Kind.unaryOp?_rename (kind : Kind) : (kind.rename f).unaryOp? = kind.unaryOp? := by
  cases kind <;> rfl

theorem Kind.startsStatement_rename (kind : Kind) :
    (kind.rename f).startsStatement = kind.startsStatement := by
  cases kind <;> rfl

namespace Token

section

variable {f} {g}

theorem isEof_rename (t : Token) : (t.rename f g).isEof = t.isEof := by
  obtain ⟨kind, _, _⟩ := t
  cases kind <;> rfl

/-- The tokens stop on the line that the line on which they stopped is moved to. -/
theorem stopLine_rename {ts : List Token} (hts : ts ≠ []) :
    stopLine (ts.map (rename f g)) = g (stopLine ts) := by
  have hfind : (ts.map (rename f g)).find? isEof = (ts.find? isEof).map (rename f g) := by
    rw [List.find?_map]
    simp only [Function.comp_def, isEof_rename]
  rw [stopLine, stopLine, hfind, List.getLast?_map, List.getLast?_eq_some_getLast hts]
  cases ts.find? isEof <;> rfl

end

/-- The end mark stays where it is. -/
theorem body_rename (ts : List Token) :
    body (ts.map (rename f g)) = (body ts).map (rename f g) := by
  rw [body, body, List.takeWhile_map]
  simp only [Function.comp_def, isEof_rename]

end Token

/-! ## Trees -/

/-- The expression with all its names and lines exchanged. -/
def Expr.rename : Expr → Expr
  | literal value => literal value
  | group e => group e.rename
  | unary op e line => unary op e.rename (g line)
  | binary op left right line => binary op left.rename right.rename (g line)
  | logical op left right => logical op left.rename right.rename
  | conditional condition yes no => conditional condition.rename yes.rename no.rename
  | var x line => var (f x) (g line)
  | assign x e line => assign (f x) e.rename (g line)
  | call callee args line => call callee.rename (args.map rename) (g line)

/-- The statement with all its names and lines exchanged. -/
def Stmt.rename : Stmt → Stmt
  | expr e => expr (e.rename f g)
  | print e => print (e.rename f g)
  | var x init => var (f x) (init.map (Expr.rename f g))
  | block body => block (body.map rename)
  | ifThen condition yes => ifThen (condition.rename f g) yes.rename
  | ifElse condition yes no => ifElse (condition.rename f g) yes.rename no.rename
  | while_ condition body => while_ (condition.rename f g) body.rename
  | break_ => break_
  | function name params body => function (f name) (params.map f) (body.map rename)
  | return_ e => return_ (e.map (Expr.rename f g))

/-- The names in an expression. -/
def Expr.symbols : Expr → List Symbol
  | literal _ => []
  | group e => e.symbols
  | unary _ e _ => e.symbols
  | binary _ left right _ => left.symbols ++ right.symbols
  | logical _ left right => left.symbols ++ right.symbols
  | conditional condition yes no => condition.symbols ++ yes.symbols ++ no.symbols
  | var x _ => [x]
  | assign x e _ => x :: e.symbols
  | call callee args _ => callee.symbols ++ args.flatMap symbols

/-- The names in a statement, also those in the functions that it declares. -/
def Stmt.symbols : Stmt → List Symbol
  | expr e => e.symbols
  | print e => e.symbols
  | var x init => x :: init.toList.flatMap Expr.symbols
  | block body => body.flatMap symbols
  | ifThen condition yes => condition.symbols ++ yes.symbols
  | ifElse condition yes no => condition.symbols ++ yes.symbols ++ no.symbols
  | while_ condition body => condition.symbols ++ body.symbols
  | break_ => []
  | function name params body => name :: params ++ body.flatMap symbols
  | return_ e => e.toList.flatMap Expr.symbols

/-! Nothing changes where nothing is exchanged. -/

theorem Token.rename_id (t : Token) : t.rename id id = t := by
  obtain ⟨kind, _, _⟩ := t
  cases kind <;> rfl

theorem Expr.rename_id (e : Expr) : e.rename id id = e := by
  match e with
  | .literal _ => rw [rename]
  | .group e => rw [rename, rename_id e]
  | .unary _ e _ => rw [rename, rename_id e, id]
  | .binary _ left right _ => rw [rename, rename_id left, rename_id right, id]
  | .logical _ left right => rw [rename, rename_id left, rename_id right]
  | .conditional condition yes no => rw [rename, rename_id condition, rename_id yes, rename_id no]
  | .var _ _ => rw [rename, id, id]
  | .assign _ e _ => rw [rename, rename_id e, id, id]
  | .call callee args _ =>
      have hargs : args.map (rename id id) = args :=
        (List.map_congr_left fun e _ => rename_id e).trans (List.map_id args)
      rw [rename, rename_id callee, hargs, id]

theorem Stmt.rename_id (s : Stmt) : s.rename id id = s := by
  have hoption (e : Option Expr) : e.map (Expr.rename id id) = e := by
    cases e with
    | none => rfl
    | some e => rw [Option.map_some, e.rename_id]
  match s with
  | .expr e => rw [rename, e.rename_id]
  | .print e => rw [rename, e.rename_id]
  | .var _ init => rw [rename, hoption, id]
  | .block body =>
      have hbody : body.map (rename id id) = body :=
        (List.map_congr_left fun s _ => rename_id s).trans (List.map_id body)
      rw [rename, hbody]
  | .ifThen e yes => rw [rename, e.rename_id, rename_id yes]
  | .ifElse e yes no => rw [rename, e.rename_id, rename_id yes, rename_id no]
  | .while_ e inner => rw [rename, e.rename_id, rename_id inner]
  | .break_ => rw [rename]
  | .function _ params body =>
      have hbody : body.map (rename id id) = body :=
        (List.map_congr_left fun s _ => rename_id s).trans (List.map_id body)
      rw [rename, hbody, List.map_id, id]
  | .return_ e => rw [rename, hoption]

theorem Token.map_rename_id (ts : List Token) : ts.map (Token.rename id id) = ts :=
  (List.map_congr_left fun t _ => t.rename_id).trans (List.map_id ts)

theorem Stmt.map_rename_id (ss : List Stmt) : ss.map (Stmt.rename id id) = ss :=
  (List.map_congr_left fun s _ => s.rename_id).trans (List.map_id ss)

section

variable {f} {g}

/-- Renaming goes through what a connective joins. -/
theorem Connective.rename_join (c : Connective) (left right : Expr) (line : Position) :
    (c.join left right line).rename f g =
      c.join (left.rename f g) (right.rename f g) (g line) := by
  cases c with
  | binary op => rw [join, Expr.rename, join]
  | logical op => rw [join, Expr.rename, join]

/-- Renaming goes through the loop that stands for its clauses. -/
theorem ForClauses.rename_loop (clauses : ForClauses) (body : Stmt) :
    (clauses.loop body).rename f g =
      (ForClauses.mk (clauses.init.map (Stmt.rename f g)) (clauses.condition.map (Expr.rename f g))
        (clauses.increment.map (Expr.rename f g))).loop (body.rename f g) := by
  obtain ⟨init, condition, increment⟩ := clauses
  cases init <;> cases condition <;> cases increment <;>
    simp [loop, repetition, round, Stmt.rename, Expr.rename]

end

end Lox
