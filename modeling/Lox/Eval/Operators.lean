import Lox.Fault
import Lox.Value.Basic

/-!
# Operators

What unary and binary operators give for two values. Addition takes two numbers or two strings; all
other binary operators take numbers, equality included.
-/

namespace Lox

/-- What a binary operator gives for two numbers. -/
def BinaryOp.onNumbers (op : BinaryOp) (a b : Float) : Value :=
  match op with
  | add => .number (a + b)
  | subtract => .number (a - b)
  | multiply => .number (a * b)
  | divide => .number (a / b)
  | equal => .boolean (a == b)
  | notEqual => .boolean (a != b)
  | greater => .boolean (a > b)
  | greaterEqual => .boolean (a >= b)
  | less => .boolean (a < b)
  | lessEqual => .boolean (a <= b)

/-- The sum of two numbers, or two strings one behind the other. -/
def addValues : Value → Value → Except RuntimeCause Value
  | .number a, .number b => .ok (BinaryOp.onNumbers .add a b)
  | .string a, .string b => .ok (.string (a ++ b))
  | left, right => .error (.addedOperands left.typeName right.typeName)

/-- What a binary operator other than addition gives. -/
def BinaryOp.onValues (op : BinaryOp) : Value → Value → Except RuntimeCause Value
  | .number a, .number b => .ok (op.onNumbers a b)
  | left, right => .error (.operands op left.typeName right.typeName)

/-- What a binary operator gives. -/
def BinaryOp.apply (op : BinaryOp) (left right : Value) : Except RuntimeCause Value :=
  if op = add then addValues left right else op.onValues left right

/-- What a unary operator gives. -/
def UnaryOp.apply (op : UnaryOp) (operand : Value) : Except RuntimeCause Value :=
  match op, operand with
  | not, value => .ok (.boolean !value.isTruthy)
  | negate, .number n => .ok (.number (-n))
  | negate, value => .error (.negatedOperand value.typeName)

/-- The left operand decides the result, and the right one is not evaluated. -/
def LogicalOp.isDecidedBy (op : LogicalOp) (left : Value) : Bool :=
  match op with
  | or => left.isTruthy
  | and => !left.isTruthy

end Lox
