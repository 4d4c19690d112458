import Lox.Position

/-!
# Faults

What can go wrong while a program runs, and how it is put into words.
-/

namespace Lox

inductive Fault
  | divisionByZero
  | numberOperand
  | numberOperands
  | addOperands
  | undefinedVariable (name : String)
  | notCallable
  | argumentCount (expected actual : Nat)
deriving DecidableEq

def Fault.message : Fault → String
  | divisionByZero => "division by zero"
  | numberOperand => "operand must be a number"
  | numberOperands => "operands must be numbers"
  | addOperands => "operands must be two numbers or include a string"
  | undefinedVariable name => "undefined variable '" ++ name ++ "'"
  | notCallable => "can only call functions"
  | argumentCount expected actual =>
    "expected " ++ expected.repr ++ " arguments but got " ++ actual.repr

/-- What ends a run early: a fault of the program, or output that is not taken. -/
inductive Failure
  | fault (line : Position) (fault : Fault)
  | outputRefused
deriving DecidableEq

def Failure.message : Failure → String
  | fault line e => e.message ++ "\n[line " ++ line.text ++ "]"
  | outputRefused => "I/O error: output limit reached"

end Lox
