import Lox.Fault
import Lox.Value

/-!
# What operators compute
-/

namespace Lox

def UnaryOp.apply : UnaryOp → Value → Except Fault Value
  | not, v => .ok (.bool !v.truthy)
  | neg, .number n => .ok (.number (-n))
  | neg, _ => .error .numberOperand

/-- Sums of numbers are numbers; a string on either side makes a string of both texts. -/
def Value.add : Value → Value → Except Fault Value
  | number a, number b => .ok (number (a + b))
  | string a, v => .ok (string (a ++ v.text))
  | v, string b => .ok (string (v.text ++ b))
  | _, _ => .error .addOperands

/-- An operation on two numbers. -/
def Value.onNumbers (f : Number → Number → Except Fault Value) : Value → Value → Except Fault Value
  | number a, number b => f a b
  | _, _ => .error .numberOperands

def BinaryOp.apply : BinaryOp → Value → Value → Except Fault Value
  | equal, v, w => .ok (.bool (v.equals w))
  | notEqual, v, w => .ok (.bool !v.equals w)
  | add, v, w => v.add w
  | sub, v, w => v.onNumbers (fun a b => .ok (.number (a - b))) w
  | mul, v, w => v.onNumbers (fun a b => .ok (.number (a * b))) w
  | div, v, w =>
    v.onNumbers (fun a b => if b.isZero then .error .divisionByZero else .ok (.number (a / b))) w
  | less, v, w => v.onNumbers (fun a b => .ok (.bool (a.less b))) w
  | lessEqual, v, w => v.onNumbers (fun a b => .ok (.bool (a.lessEqual b))) w
  | greater, v, w => v.onNumbers (fun a b => .ok (.bool (b.less a))) w
  | greaterEqual, v, w => v.onNumbers (fun a b => .ok (.bool (b.lessEqual a))) w

end Lox
