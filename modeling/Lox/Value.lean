import Lox.Number.Text
import Lox.Stmt

/-!
# Values

A function value has an identity, given to it when it was made: copies of a function are equal to
it, and two functions made from one declaration are not equal to each other.
-/

namespace Lox

/-- The position of a frame in the store. -/
abbrev FrameId := Nat

/-- What a function of the host comes to: a value of its own, or one of its arguments. -/
inductive Answer
  | value (literal : Literal)
  | argument (index : Nat)

/-- The functions that no program declares. -/
inductive Native
  /-- Reads the clock. -/
  | clock
  /-- Answers to its arguments.  Those that are functions it can only give back. -/
  | host (answer : List (Option Literal) → Answer)

namespace Native

/-- Counts its arguments. -/
def argumentCount : Native := host fun args => .value (.number (.ofNat args.length))

/-- Gives its last argument back. -/
def lastArgument : Native := host fun args => .argument (args.length - 1)

end Native

/-- What runs when a function is called. -/
inductive Code
  | native (native : Native) (arity : Nat)
  /-- A body whose free names are looked up from `frame` on. -/
  | closure (params : List Symbol) (body : List Stmt) (frame : FrameId)

def Code.arity : Code → Nat
  | native _ arity => arity
  | closure params _ _ => params.length

structure Function where
  identity : Nat
  name : Symbol
  code : Code

namespace Function

def arity (f : Function) : Nat := f.code.arity

def isNative (f : Function) : Bool :=
  match f.code with
  | .native _ _ => true
  | .closure _ _ _ => false

def text (f : Function) : String :=
  if f.isNative then "<native fn>" else "<fn " ++ f.name.name ++ ">"

end Function

inductive Value
  | nil
  | bool (b : Bool)
  | number (n : Number)
  | string (s : String)
  | function (f : Function)

namespace Value

def ofLiteral : Literal → Value
  | .nil => nil
  | .bool b => bool b
  | .number n => number n
  | .string s => string s

/-- What a function of the host can see of a value. -/
def literal? : Value → Option Literal
  | nil => some .nil
  | bool b => some (.bool b)
  | number n => some (.number n)
  | string s => some (.string s)
  | function _ => none

/-- Only `nil` and `false` count as false. -/
def truthy : Value → Bool
  | nil | bool false => false
  | _ => true

/-- Values of different kinds are never equal. -/
def equals : Value → Value → Bool
  | nil, nil => true
  | bool a, bool b => a == b
  | number a, number b => a.equals b
  | string a, string b => a == b
  | function f, function g => f.identity == g.identity
  | _, _ => false

/-- The text that is printed, and that is joined to a string. -/
def text : Value → String
  | nil => "nil"
  | bool true => "true"
  | bool false => "false"
  | number n => n.text
  | string s => s
  | function f => f.text

end Value

/-- The value that an answer to these arguments stands for. -/
def Answer.among (args : List Value) : Answer → Value
  | value literal => .ofLiteral literal
  | argument index => args[index]?.getD .nil

end Lox
