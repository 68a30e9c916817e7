import Lox.Eval.Call
import Lox.Eval.Operators

/-!
# Evaluating expressions

Operands are evaluated from left to right, and each error is raised as soon as its operands are
there. A property is looked up among the fields of the instance first and among the methods of its
class after that.
-/

namespace Lox.Run

/-- The value of the variable of this name at its place. -/
def readVariable (place : Place) (name : Name) : Run Value :=
  match place with
  | .scope hops => read fun m => m.store.getAt m.current hops name.text
  | .global => read fun m => m.store.get .globals name

/-- Gives the variable of this name at its place a new value. -/
def assignVariable (place : Place) (name : Name) (value : Value) : Run Unit :=
  match place with
  | .scope hops => assignAt hops name.text value
  | .global => assign .globals name value

/-- The method of a class, bound to an instance, as a function. -/
def methodOf (c : Class) (i : Instance) (name : Name) : Run Value :=
  match c.findMethod? name.text with
  | some method => do
    let bound ← bindMethod method i
    newFunction bound
  | none => failWith (.undefinedProperty name.text) name.line

/-- A property of an instance: the field of this name, or else the method. -/
def propertyOf (i : Instance) (name : Name) : Run Value := do
  match ← read fun m => .ok ((m.store.fieldsOf i.id).get? name.text) with
  | some value => return value
  | none => methodOf i.ofClass i name

/-- A property of a value, which has to be an instance. -/
def getProperty (object : Value) (name : Name) : Run Value :=
  match object with
  | .ofInstance i => propertyOf i name
  | _ => failWith .propertyOfOther name.line

/-- The superclass and the instance of the method around a point that lies `hops` scopes inside the
scope of the superclass. The scope of the instance is the next one inside that. -/
def superAt (hops : Nat) : Run (Class × Instance) := do
  match ← read fun m => m.store.getAt m.current hops superName with
  | .callable (.ofClass c) =>
    match hops with
    | 0 => mismatch .superWithoutThis
    | inner + 1 =>
      match ← read fun m => m.store.getAt m.current inner thisName with
      | .ofInstance i => return (c, i)
      | _ => mismatch .thisNotInstance
  | _ => mismatch .superNotClass

/-- A method of the superclass, bound to the instance. -/
def superMethod (place : Place) (method : Name) : Run Value :=
  match place with
  | .global => mismatch .superUnresolved
  | .scope hops => do
    let (c, i) ← superAt hops
    methodOf c i method

/-- Goes on with the result of an operator, or fails on the given line. -/
def liftCause {α : Type} (line : Nat) : Except RuntimeCause α → Run α
  | .ok a => pure a
  | .error cause => failWith cause line

/-- Gives a property of an object the value of an expression. -/
def setProperty (ev : Evaluator) (object : Value) (name : Name) (value : Expr Place) :
    Run Value :=
  match object with
  | .ofInstance i => do
    let value ← ev.eval value
    setField i name.text value
    return value
  | _ => failWith .fieldOfOther name.line

/-- Evaluates an expression whose parts `ev` evaluates. -/
def evalWith (ev : Evaluator) : Expr Place → Run Value
  | .literal value => return value.toValue
  | .grouping inner => ev.eval inner
  | .unary op line operand => do
    let value ← ev.eval operand
    liftCause line (op.apply value)
  | .binary op line left right => do
    let left ← ev.eval left
    let right ← ev.eval right
    liftCause line (op.apply left right)
  | .logical op left right => do
    let left ← ev.eval left
    if op.isDecidedBy left then return left else ev.eval right
  | .variable target => readVariable target.mark target.name
  | .assign target value => do
    let value ← ev.eval value
    assignVariable target.mark target.name value
    return value
  | .call callee line arguments => do
    let callee ← ev.eval callee
    let arguments ← evalAll ev arguments
    callValue ev callee arguments line
  | .get object property => do
    let object ← ev.eval object
    getProperty object property
  | .set object property value => do
    let object ← ev.eval object
    setProperty ev object property value
  | .this line mark => readVariable mark ⟨thisName, line⟩
  | .super _ mark method => superMethod mark method

end Lox.Run
