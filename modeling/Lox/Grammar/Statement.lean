import Lox.Grammar.Expression
import Lox.Stmt

/-!
# Reading statements

```
declaration  "fun" name "(" (name ("," name)*)? ")" block | variable | statement
variable     "var" name ("=" expression)? ";"
statement    "print" expression ";" | block | expression ";"
             | "if" "(" expression ")" statement ("else" statement)?
             | "while" "(" expression ")" statement
             | "for" "(" (variable | expression? ";") expression? ";" expression? ")" statement
             | "break" ";" | "return" expression? ";"
block        "{" declaration* "}"
```

An `else` belongs to the nearest `if`.  A mistake in a declaration costs that declaration: it is
reported, tokens are dropped up to where a statement may begin, and the reading of the enclosing
block or program goes on.
-/

namespace Lox

/-- What encloses a statement.  A loop counts only if no function begins between it and the
statement. -/
structure Scope where
  inLoop : Bool := false
  inFunction : Bool := false
deriving DecidableEq

/-- Inside the body of a loop. -/
def Scope.loop (scope : Scope) : Scope := { scope with inLoop := true }

/-- Inside the body of a function, which the loops around it do not reach. -/
def Scope.function (_ : Scope) : Scope := { inLoop := false, inFunction := true }

/-- Where reading resumes after a mistake: behind the next semicolon, or before a word that may
start a statement.  At least one token is dropped. -/
def resume : List Token → List Token
  | [] => []
  | t :: rest =>
    if t.kind = .punct .semicolon ∨ rest.head?.any (·.kind.startsStatement) then rest
    else resume rest

theorem length_resume (ts : List Token) : (resume ts).length ≤ ts.length - 1 := by
  fun_induction resume ts with
  | case1 => simp
  | case2 t rest _ => simp
  | case3 t rest _ ih => simp; omega

/-- A phrase after which reading can go on, whether or not it could be read. -/
structure Settled (α : Type) (n : Nat) where
  value : Option α
  rest : List Token
  reports : List Diagnostic
  shorter : rest.length < n

theorem length_resume_lt {n : Nat} {ts : List Token} (hts : ts.length ≤ n) (h : 0 < n) :
    (resume ts).length < n := by
  have := length_resume ts
  omega

/-- Reports the mistake of a failed phrase and drops tokens up to where reading resumes. -/
def Phrase.settle {α : Type} {n : Nat} (p : Phrase α n) (h : 0 < n) : Settled α n :=
  match p with
  | read value rest reports shorter => ⟨some value, rest, reports, shorter⟩
  | failed mistake rest reports bound =>
    ⟨none, resume rest, reports ++ [mistake], length_resume_lt bound h⟩

namespace Grammar

open Phrase

/-- An expression and the mark that ends it. -/
def expressionBefore (stop : Position) (p : Punct) (spot : Spot) (ts : List Token) :
    Phrase Expr ts.length :=
  (expression stop ts).andThen fun e rest h =>
    ((mark stop p spot rest).within (length_le_of_lt h)).map fun _ => e

/-- An expression, if there is one, and the mark that ends it. -/
def optionalBefore (stop : Position) (p : Punct) (spot : Spot) (ts : List Token) :
    Phrase (Option Expr) ts.length :=
  match ts with
  | [] => (expressionBefore stop p spot []).map some
  | t :: rest =>
    if t.kind = .punct p then read none rest [] (length_lt_cons t rest)
    else (expressionBefore stop p spot (t :: rest)).map some

/-- An expression between parentheses. -/
def parenthesized (stop : Position) (opening closing : Spot) (ts : List Token) :
    Phrase Expr ts.length :=
  (mark stop .leftParen opening ts).andThen fun _ rest h =>
    (expressionBefore stop .rightParen closing rest).within (length_le_of_lt h)

/-- The declaration of a variable, after `var`. -/
def variableDeclaration (stop : Position) (ts : List Token) : Phrase Stmt ts.length :=
  (name stop .variable_ ts).andThen fun x rest h =>
    ifNext (.punct .equal) rest h
      (fun _ rest h =>
        ((expressionBefore stop .semicolon .afterVariableDeclaration rest).within
          (length_le_of_succ_lt h)).map fun init => .var x (some init))
      (((mark stop .semicolon .afterVariableDeclaration rest).within (length_le_of_lt h)).map
        fun _ => .var x none)

/-- What a `for` loop does first, up to the first semicolon. -/
def forInit (stop : Position) (ts : List Token) : Phrase (Option Stmt) ts.length :=
  match ts with
  | [] => failHere stop .expectedExpression []
  | t :: rest =>
    if t.kind = .punct .semicolon then read none rest [] (length_lt_cons t rest)
    else if t.kind = .keyword .var_ then
      ((variableDeclaration stop rest).within (length_le_cons t rest)).map some
    else
      (expressionBefore stop .semicolon .afterLoopInitializer (t :: rest)).map
        fun e => some (.expr e)

/-- What stands between the parentheses of a `for` loop, with the parentheses. -/
def forClauses (stop : Position) (ts : List Token) : Phrase ForClauses ts.length :=
  (mark stop .leftParen .afterFor ts).andThen fun _ rest h =>
    ((forInit stop rest).within (length_le_of_lt h)).andThen fun init rest h =>
      ((optionalBefore stop .semicolon .afterLoopCondition rest).within (length_le_of_lt h)).andThen
        fun condition rest h =>
          ((optionalBefore stop .rightParen .afterForClauses rest).within (length_le_of_lt h)).map
            fun increment => ⟨init, condition, increment⟩

/-- At least one parameter, after `count` others, and the closing parenthesis. -/
def parameterList (stop : Position) (count : Nat) (ts : List Token) :
    Phrase (List Symbol) ts.length :=
  ((name stop .parameter ts).andThen fun x rest h =>
    ifNext (.punct .comma) rest h
      (fun _ rest h =>
        ((parameterList stop (count + 1) rest).within (length_le_of_succ_lt h)).map
          fun xs => x :: xs)
      (((mark stop .rightParen .afterParameters rest).within (length_le_of_lt h)).map
        fun _ => [x])).report
    (if maxArity ≤ count then [.atHead stop ts .tooManyParameters] else [])
termination_by ts.length

/-- The parameters after an opening parenthesis, and the closing one. -/
def parameters (stop : Position) (ts : List Token) : Phrase (List Symbol) (ts.length + 1) :=
  ifNext (.punct .rightParen) ts (length_lt_succ ts)
    (fun _ rest h => read [] rest [] (length_lt_of_succ_lt h))
    ((parameterList stop 0 ts).within (length_le_succ ts))

/-- The name and the parameters of a function, up to the brace that opens its body. -/
def functionHead (stop : Position) (ts : List Token) : Phrase (Symbol × List Symbol) ts.length :=
  (name stop .function ts).andThen fun f rest h =>
    ((mark stop .leftParen .afterFunctionName rest).within (length_le_of_lt h)).andThen
      fun _ rest h => ((parameters stop rest).within (length_succ_le_of_lt h)).andThen
        fun params rest h =>
          ((mark stop .leftCurly .beforeFunctionBody rest).within (length_le_of_lt h)).map
            fun _ => (f, params)

/-- A report unless the condition holds. -/
def reportUnless (ok : Bool) (t : Token) (problem : Problem) : List Diagnostic :=
  if ok then [] else [.atToken t problem]

mutual

/-- The declaration of a function or variable, or a statement. -/
def declaration (stop : Position) (scope : Scope) (ts : List Token) : Phrase Stmt ts.length :=
  match ts with
  | [] => statement stop scope []
  | t :: rest =>
    if t.kind = .keyword .fun_ then
      ((functionHead stop rest).andThen fun (f, params) rest h =>
        ((block stop scope.function rest).within (length_le_of_lt h)).map
          fun body => .function f params body).within (length_le_cons t rest)
    else if t.kind = .keyword .var_ then
      (variableDeclaration stop rest).within (length_le_cons t rest)
    else statement stop scope (t :: rest)
termination_by ts.length * 4 + 2

def statement (stop : Position) (scope : Scope) (ts : List Token) : Phrase Stmt ts.length :=
  match ts with
  | [] => failHere stop .expectedExpression []
  | t :: rest =>
    match t.kind with
    | .keyword .print_ =>
      ((expressionBefore stop .semicolon .afterValue rest).within (length_le_cons t rest)).map
        .print
    | .punct .leftCurly => ((block stop scope rest).within (length_le_cons t rest)).map .block
    | .keyword .if_ =>
      ((parenthesized stop .afterIf .afterIfCondition rest).andThen fun condition rest h =>
        ((statement stop scope rest).within (length_le_of_lt h)).andThen fun yes rest h =>
          ifNext (.keyword .else_) rest h
            (fun _ rest h =>
              ((statement stop scope rest).within (length_le_of_succ_lt h)).map
                fun no => .ifElse condition yes no)
            (read (.ifThen condition yes) rest [] h)).within (length_le_cons t rest)
    | .keyword .while_ =>
      ((parenthesized stop .afterWhile .afterCondition rest).andThen fun condition rest h =>
        ((statement stop scope.loop rest).within (length_le_of_lt h)).map
          fun body => .while_ condition body).within (length_le_cons t rest)
    | .keyword .for_ =>
      ((forClauses stop rest).andThen fun clauses rest h =>
        ((statement stop scope.loop rest).within (length_le_of_lt h)).map clauses.loop).within
        (length_le_cons t rest)
    | .keyword .break_ =>
      (((mark stop .semicolon .afterBreak rest).within (length_le_cons t rest)).map
        fun _ => .break_).report (reportUnless scope.inLoop t .breakOutsideLoop)
    | .keyword .return_ =>
      (((optionalBefore stop .semicolon .afterReturnValue rest).within (length_le_cons t rest)).map
        .return_).report (reportUnless scope.inFunction t .returnOutsideFunction)
    | _ => (expressionBefore stop .semicolon .afterExpression (t :: rest)).map .expr
termination_by ts.length * 4 + 1

/-- The declarations of a block, after the opening brace, and the closing brace. -/
def block (stop : Position) (scope : Scope) (ts : List Token) : Phrase (List Stmt) ts.length :=
  match ts with
  | [] => failHere stop (.expectedPunct .rightCurly .afterBlock) []
  | t :: rest =>
    if t.kind = .punct .rightCurly then read [] rest [] (length_lt_cons t rest)
    else
      let first := (declaration stop scope (t :: rest)).settle (Nat.succ_pos _)
      (((block stop scope first.rest).within (Nat.le_of_lt first.shorter)).map
        fun others => first.value.toList ++ others).report first.reports
termination_by ts.length * 4 + 3
decreasing_by
  · simp
  · have := first.shorter; simp_all; omega

end

end Grammar

/-- A statement that begins like this is no expression. -/
def Kind.leadsStatement : Kind → Bool
  | .punct .leftCurly => true
  | .keyword .print_ | .keyword .if_ | .keyword .while_ | .keyword .for_ => true
  | .keyword .break_ | .keyword .return_ => true
  | _ => false

theorem Kind.leadsStatement_iff {kind : Kind} :
    kind.leadsStatement = true ↔
      kind = .punct .leftCurly ∨ kind = .keyword .print_ ∨ kind = .keyword .if_ ∨
        kind = .keyword .while_ ∨ kind = .keyword .for_ ∨ kind = .keyword .break_ ∨
          kind = .keyword .return_ := by
  unfold leadsStatement
  split <;> simp_all

/-- Behind tokens of the other kinds, an expression is read. -/
theorem Grammar.statement_eq_expression {stop : Position} {scope : Scope} {t : Token}
    {rest : List Token} (h : t.kind.leadsStatement = false) :
    statement stop scope (t :: rest) =
      (expressionBefore stop .semicolon .afterExpression (t :: rest)).map .expr := by
  rw [statement]
  split <;> first | rfl | simp_all [Kind.leadsStatement]

end Lox
