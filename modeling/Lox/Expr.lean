import Lox.Number.Basic
import Lox.Position
import Lox.Symbol

/-!
# Expressions

Nodes that can fail when they are evaluated keep the line to blame: that of the operator, of the
name, or of the parenthesis that closes a call.
-/

namespace Lox

inductive Literal
  | nil
  | bool (value : Bool)
  | number (value : Number)
  | string (value : String)
deriving DecidableEq

inductive UnaryOp
  | neg | not
deriving DecidableEq

inductive BinaryOp
  | equal | notEqual | less | lessEqual | greater | greaterEqual | add | sub | mul | div
deriving DecidableEq

inductive LogicalOp
  | and | or
deriving DecidableEq

inductive Expr
  | literal (value : Literal)
  | group (inner : Expr)
  | unary (op : UnaryOp) (operand : Expr) (line : Position)
  | binary (op : BinaryOp) (left right : Expr) (line : Position)
  | logical (op : LogicalOp) (left right : Expr)
  | conditional (condition yes no : Expr)
  | var (name : Symbol) (line : Position)
  | assign (name : Symbol) (value : Expr) (line : Position)
  | call (callee : Expr) (args : List Expr) (line : Position)

end Lox
