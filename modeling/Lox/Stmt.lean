import Lox.Expr

/-!
# Statements

There is no node for the `for` loop: it stands for a loop with a condition and a body, which
`ForClauses.loop` builds.
-/

namespace Lox

inductive Stmt
  | expr (value : Expr)
  | print (value : Expr)
  | var (name : Symbol) (init : Option Expr)
  | block (body : List Stmt)
  | ifThen (condition : Expr) (yes : Stmt)
  | ifElse (condition : Expr) (yes no : Stmt)
  | while_ (condition : Expr) (body : Stmt)
  | break_
  | function (name : Symbol) (params : List Symbol) (body : List Stmt)
  | return_ (value : Option Expr)

/-- What stands between the parentheses of a `for` loop; any part may be left out. -/
structure ForClauses where
  init : Option Stmt
  condition : Option Expr
  increment : Option Expr

namespace ForClauses

/-- One round of the loop: the body and then the increment, in a block of their own. -/
def round (clauses : ForClauses) (body : Stmt) : Stmt :=
  match clauses.increment with
  | none => body
  | some increment => .block [body, .expr increment]

/-- The loop proper, which goes on for ever if no condition is given. -/
def repetition (clauses : ForClauses) (body : Stmt) : Stmt :=
  .while_ (clauses.condition.getD (.literal (.bool true))) (clauses.round body)

/-- The statement that a `for` loop stands for.  What the initializer declares is visible in the
loop only. -/
def loop (clauses : ForClauses) (body : Stmt) : Stmt :=
  match clauses.init with
  | none => clauses.repetition body
  | some init => .block [init, clauses.repetition body]

end ForClauses

end Lox
