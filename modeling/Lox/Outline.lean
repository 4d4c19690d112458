import Lox.Number.Text
import Lox.Stmt

/-!
# Outlines

The outline of a program shows its tree as bracketed text, with recorded lines behind `@`.
-/

namespace Lox

namespace Outline

/-- Items between round brackets, one blank apart. -/
def bracket (items : List String) : String := "(" ++ " ".intercalate items ++ ")"

/-- A label with the line recorded beside it. -/
def atLine (label : String) (line : Position) : String := label ++ "@" ++ line.text

/-- Two hexadecimal digits of a number below 256. -/
def hexByte (n : Nat) : String :=
  String.ofList [Nat.digitChar (n / 16 % 16), Nat.digitChar (n % 16)]

/-- How a character is written between quotes. -/
def quotedChar : Char → String
  | '"' => "\\\""
  | '\\' => "\\\\"
  | '\x08' => "\\b"
  | '\x0c' => "\\f"
  | '\n' => "\\n"
  | '\r' => "\\r"
  | '\t' => "\\t"
  | c => if c.toNat < 0x20 then "\\u00" ++ hexByte c.toNat else c.toString

def quoted (s : String) : String := "\"" ++ String.join (s.toList.map quotedChar) ++ "\""

end Outline

open Outline

def Literal.outline : Literal → String
  | nil => "nil"
  | bool true => "true"
  | bool false => "false"
  | number n => n.text
  | string s => quoted s

def UnaryOp.outline : UnaryOp → String
  | neg => "Neg"
  | not => "Not"

def BinaryOp.outline : BinaryOp → String
  | equal => "Equal"
  | notEqual => "NotEqual"
  | less => "Less"
  | lessEqual => "LessEqual"
  | greater => "Greater"
  | greaterEqual => "GreaterEqual"
  | add => "Add"
  | sub => "Sub"
  | mul => "Mul"
  | div => "Div"

def LogicalOp.outline : LogicalOp → String
  | and => "And"
  | or => "Or"

def Expr.outline : Expr → String
  | literal value => value.outline
  | group e => bracket ["group", e.outline]
  | unary op e line => bracket [atLine op.outline line, e.outline]
  | binary op l r line => bracket [atLine op.outline line, l.outline, r.outline]
  | logical op l r => bracket [op.outline, l.outline, r.outline]
  | conditional c y n => bracket ["cond", c.outline, y.outline, n.outline]
  | var x line => atLine x.name line
  | assign x e line => bracket [atLine "assign" line, x.name, e.outline]
  | call f args line => bracket (atLine "call" line :: f.outline :: args.map outline)

def Stmt.outline : Stmt → String
  | expr e => bracket ["expr", e.outline]
  | print e => bracket ["print", e.outline]
  | var x init => bracket ("var" :: x.name :: (init.map Expr.outline).toList)
  | block body => bracket ("block" :: body.map outline)
  | ifThen c y => bracket ["if", c.outline, y.outline]
  | ifElse c y n => bracket ["if", c.outline, y.outline, n.outline]
  | while_ c body => bracket ["while", c.outline, body.outline]
  | break_ => bracket ["break"]
  | function f params body =>
    bracket ("fun" :: f.name :: bracket (params.map Symbol.name) :: body.map outline)
  | return_ e => bracket ("return" :: (e.map Expr.outline).toList)

end Lox
