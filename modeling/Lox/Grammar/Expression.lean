import Lox.Expr
import Lox.Grammar.Phrase

/-!
# Reading expressions

From the loosest to the tightest:

```
expression   conditional ("=" expression)?               where the left side is a name
conditional  or ("?" expression ":" conditional)?
or           and ("or" and)*
and          equality ("and" equality)*
equality     comparison (("==" | "!=") comparison)*
comparison   term (("<" | "<=" | ">" | ">=") term)*
term         factor (("+" | "-") factor)*
factor       unary (("*" | "/") unary)*
unary        ("!" | "-") unary | call
call         primary ("(" (expression ("," expression)*)? ")")*
primary      literal | name | "(" expression ")"
```
-/

namespace Lox

/-- The levels of operators that stand between two operands, from the loosest to the tightest. -/
inductive Level
  | or | and | equality | comparison | term | factor
deriving DecidableEq

/-- The number of tighter levels. -/
def Level.rank : Level → Nat
  | or => 5
  | and => 4
  | equality => 3
  | comparison => 2
  | term => 1
  | factor => 0

theorem Level.rank_le (level : Level) : level.rank ≤ 5 := by
  cases level <;> decide

/-- An operator that stands between two operands. -/
inductive Connective
  | binary (op : BinaryOp)
  | logical (op : LogicalOp)
deriving DecidableEq

namespace Connective

def level : Connective → Level
  | logical .or => .or
  | logical .and => .and
  | binary .equal | binary .notEqual => .equality
  | binary .less | binary .lessEqual | binary .greater | binary .greaterEqual => .comparison
  | binary .add | binary .sub => .term
  | binary .mul | binary .div => .factor

/-- The two operands joined by the operator, which stands on the given line. -/
def join (c : Connective) (left right : Expr) (line : Position) : Expr :=
  match c with
  | logical op => .logical op left right
  | binary op => .binary op left right line

end Connective

namespace Kind

def connective? : Kind → Option Connective
  | keyword .or_ => some (.logical .or)
  | keyword .and_ => some (.logical .and)
  | punct .equalEqual => some (.binary .equal)
  | punct .bangEqual => some (.binary .notEqual)
  | punct .less => some (.binary .less)
  | punct .lessEqual => some (.binary .lessEqual)
  | punct .greater => some (.binary .greater)
  | punct .greaterEqual => some (.binary .greaterEqual)
  | punct .plus => some (.binary .add)
  | punct .minus => some (.binary .sub)
  | punct .star => some (.binary .mul)
  | punct .slash => some (.binary .div)
  | _ => none

/-- The operator of the given level. -/
def connectiveAt? (kind : Kind) (level : Level) : Option Connective :=
  kind.connective?.filter (·.level = level)

def unaryOp? : Kind → Option UnaryOp
  | punct .minus => some .neg
  | punct .bang => some .not
  | _ => none

def literal? : Kind → Option Literal
  | keyword .nil_ => some .nil
  | keyword .true_ => some (.bool true)
  | keyword .false_ => some (.bool false)
  | number n => some (.number n)
  | string s => some (.string s)
  | _ => none

end Kind

namespace Grammar

open Phrase

/-- Assigns to a name; any other target is reported and stands in place of the assignment. -/
def assignment {n : Nat} (target : Expr) (equals : Token) (value : Expr) (rest : List Token)
    (h : rest.length < n) : Phrase Expr n :=
  match target with
  | .var x line => read (.assign x value line) rest [] h
  | _ => read target rest [.atToken equals .invalidTarget] h

mutual

def expression (stop : Position) (ts : List Token) : Phrase Expr ts.length :=
  (conditional stop ts).andThen fun target rest h =>
    ifNext (.punct .equal) rest h
      (fun equals rest h =>
        ((expression stop rest).within (length_le_of_succ_lt h)).andThen fun value rest h =>
          assignment target equals value rest h)
      (read target rest [] h)
termination_by ts.length * 32 + 16

def conditional (stop : Position) (ts : List Token) : Phrase Expr ts.length :=
  (binary stop .or ts).andThen fun condition rest h =>
    ifNext (.punct .question) rest h
      (fun _ rest h =>
        ((expression stop rest).within (length_le_of_succ_lt h)).andThen fun yes rest h =>
          ((mark stop .colon .afterThenBranch rest).within (length_le_of_lt h)).andThen
            fun _ rest h => ((conditional stop rest).within (length_le_of_lt h)).map
              fun no => .conditional condition yes no)
      (read condition rest [] h)
termination_by ts.length * 32 + 15
decreasing_by all_goals have := Level.or.rank_le; omega

/-- Operands joined by the operators of a level. -/
def binary (stop : Position) (level : Level) (ts : List Token) : Phrase Expr ts.length :=
  (operand stop level ts).andThen fun left rest h =>
    (chain stop level left rest).within (length_succ_le_of_lt h)
termination_by ts.length * 32 + 2 * level.rank + 4

/-- An operand of the operators of a level. -/
def operand (stop : Position) (level : Level) (ts : List Token) : Phrase Expr ts.length :=
  match level with
  | .or => binary stop .and ts
  | .and => binary stop .equality ts
  | .equality => binary stop .comparison ts
  | .comparison => binary stop .term ts
  | .term => binary stop .factor ts
  | .factor => unary stop ts
termination_by ts.length * 32 + 2 * level.rank + 3
decreasing_by all_goals simp [Level.rank]

/-- The operators of a level and their right operands, after the operand `left`. -/
def chain (stop : Position) (level : Level) (left : Expr) (ts : List Token) :
    Phrase Expr (ts.length + 1) :=
  match ts with
  | [] => read left [] [] (Nat.lt_succ_self _)
  | t :: rest =>
    match t.kind.connectiveAt? level with
    | none => read left (t :: rest) [] (Nat.lt_succ_self _)
    | some c =>
      ((operand stop level rest).andThen fun right rest h =>
        (chain stop level (c.join left right t.line) rest).within (length_succ_le_of_lt h)).within
          (Nat.le_succ_of_le (length_le_cons t rest))
termination_by ts.length * 32
decreasing_by all_goals have := level.rank_le; simp_all; omega

def unary (stop : Position) (ts : List Token) : Phrase Expr ts.length :=
  match ts with
  | [] => call stop []
  | t :: rest =>
    match t.kind.unaryOp? with
    | none => call stop (t :: rest)
    | some op => ((unary stop rest).within (length_le_cons t rest)).map fun e => .unary op e t.line
termination_by ts.length * 32 + 2

def call (stop : Position) (ts : List Token) : Phrase Expr ts.length :=
  (primary stop ts).andThen fun callee rest h =>
    (calls stop callee rest).within (length_succ_le_of_lt h)
termination_by ts.length * 32 + 1

/-- The argument lists after a callee. -/
def calls (stop : Position) (callee : Expr) (ts : List Token) : Phrase Expr (ts.length + 1) :=
  ifNext (.punct .leftParen) ts (length_lt_succ ts)
    (fun _ rest h =>
      ((arguments stop rest).andThen fun (args, line) rest h =>
        (calls stop (.call callee args line) rest).within (by omega)).within (by omega))
    (read callee ts [] (length_lt_succ ts))
termination_by ts.length * 32 + 19

/-- The arguments after an opening parenthesis, and the line of the closing one. -/
def arguments (stop : Position) (ts : List Token) : Phrase (List Expr × Position) (ts.length + 1) :=
  ifNext (.punct .rightParen) ts (length_lt_succ ts)
    (fun closing rest h => read ([], closing.line) rest [] (by omega))
    ((argumentList stop 0 ts).within (by omega))
termination_by ts.length * 32 + 18

/-- At least one argument, after `count` others. -/
def argumentList (stop : Position) (count : Nat) (ts : List Token) :
    Phrase (List Expr × Position) ts.length :=
  ((expression stop ts).andThen fun arg rest h =>
    ifNext (.punct .comma) rest h
      (fun _ rest h =>
        ((argumentList stop (count + 1) rest).within (length_le_of_succ_lt h)).map
          fun (args, line) => (arg :: args, line))
      (((mark stop .rightParen .afterArguments rest).within (length_le_of_lt h)).map
        fun closing => ([arg], closing.line))).report
    (if maxArity ≤ count then [.atHead stop ts .tooManyArguments] else [])
termination_by ts.length * 32 + 17

/-- A binary operator that lacks its left operand is a mistake, found once the right operand has
been read. -/
def primary (stop : Position) (ts : List Token) : Phrase Expr ts.length :=
  match ts with
  | [] => failHere stop .expectedExpression []
  | t :: rest =>
    match t.kind.literal? with
    | some value => read (.literal value) rest [] (length_lt_cons t rest)
    | none =>
      match t.kind with
      | .identifier x => read (.var x t.line) rest [] (length_lt_cons t rest)
      | .punct .leftParen =>
        ((expression stop rest).within (length_le_cons t rest)).andThen fun inner rest h =>
          ((mark stop .rightParen .afterExpression rest).within (by omega)).map
            fun _ => .group inner
      | kind =>
        match kind.connective? with
        | some (.binary op) =>
          ((binary stop (Connective.binary op).level rest).within (length_le_cons t rest)).andThen
            fun _ rest h => failed (.atToken t .missingLeftOperand) rest [] (by omega)
        | _ => failHere stop .expectedExpression (t :: rest)
termination_by ts.length * 32
decreasing_by all_goals have := Level.rank_le; simp_all; grind

end

end Grammar

end Lox
