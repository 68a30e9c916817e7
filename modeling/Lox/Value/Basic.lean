import Lox.Bindings
import Lox.Number
import Lox.Scope.Basic

/-!
# Values

What a program computes with. Functions, classes and instances have an identity, a number that no
other function, class or instance has; two of them are the same only if their numbers are. The
variables that a function has captured and the fields of an instance are kept in the store.
-/

namespace Lox

/-- The number of a scope of the running program. -/
abbrev FrameId := Nat

/-- The number of an instance. -/
abbrev InstanceId := Nat

/-- The number of a function or a class. -/
abbrev ObjectId := Nat

/-- A scope of the running program with the scopes around it, nearest first. -/
structure Environment where
  frame : FrameId
  outer : List FrameId
  deriving DecidableEq, Repr

/-- The scope and those around it. -/
def Environment.path (e : Environment) : List FrameId := e.frame :: e.outer

/-- A function with the scopes around its declaration. -/
structure Closure where
  declaration : FunctionDecl Place
  environment : Environment
  /-- Calls give the instance, whatever the body returns. -/
  isInitializer : Bool

/-- The number of arguments a call has to have. -/
def Closure.arity (c : Closure) : Nat := c.declaration.arity

/-- What one class declaration makes: a name and methods. -/
structure ClassLevel where
  id : ObjectId
  name : String
  methods : Bindings Closure

/-- A class: what its own declaration made, and its superclasses, nearest first. -/
structure Class where
  own : ClassLevel
  inherited : List ClassLevel

namespace Class

/-- The class and its superclasses, nearest first. -/
def lineage (c : Class) : List ClassLevel := c.own :: c.inherited

def name (c : Class) : String := c.own.name

/-- The method of the nearest class that has one of this name. -/
def findMethod? (c : Class) (name : String) : Option Closure :=
  c.lineage.findSome? (·.methods.get? name)

/-- A call has the arguments of the initializer; without one it has none. -/
def arity (c : Class) : Nat :=
  match c.findMethod? initializerName with
  | some m => m.arity
  | none => 0

end Class

/-- An instance of a class. -/
structure Instance where
  id : InstanceId
  ofClass : Class

/-- Functions that the language provides. -/
inductive Native where
  /-- The time in seconds. -/
  | clock
  deriving DecidableEq, Repr

def Native.name : Native → String
  | clock => "clock"

def Native.arity : Native → Nat
  | clock => 0

/-- What can be called. -/
inductive Callable where
  | native (function : Native)
  | function (id : ObjectId) (closure : Closure)
  | ofClass (callee : Class)

/-- What a program computes with. -/
inductive Value where
  | nil
  | boolean (value : Bool)
  | number (value : Float)
  | string (value : String)
  | callable (value : Callable)
  | ofInstance (value : Instance)

instance : Inhabited Value := ⟨.nil⟩

namespace Callable

def arity : Callable → Nat
  | native f => f.arity
  | function _ c => c.arity
  | ofClass c => c.arity

/-- What the callable prints as. -/
def text : Callable → String
  | native f => s!"<native fn {f.name}>"
  | function _ c => s!"<fn {c.declaration.name.text}>"
  | ofClass c => c.name

/-- Both are the same object. -/
def same : Callable → Callable → Bool
  | native f, native g => f == g
  | function i _, function j _ => i == j
  | ofClass c, ofClass d => c.own.id == d.own.id
  | _, _ => false

end Callable

namespace Value

/-- Only `nil` and `false` count as false. -/
def isTruthy : Value → Bool
  | nil => false
  | boolean value => value
  | _ => true

/-- The sort of the value, as messages name it. -/
def typeName : Value → String
  | nil => "nil"
  | boolean _ => "boolean"
  | number _ => "number"
  | string _ => "string"
  | callable (.native _) => "native function"
  | callable (.function _ _) => "function"
  | callable (.ofClass _) => "class"
  | ofInstance _ => "instance"

/-- What the value prints as. -/
def text : Value → String
  | nil => "nil"
  | boolean true => "true"
  | boolean false => "false"
  | number value => Number.text value
  | string value => value
  | callable value => value.text
  | ofInstance value => s!"{value.ofClass.name} instance"

/-- Plain values are the same if they are equal, functions, classes and instances if they are one
object. -/
def same : Value → Value → Bool
  | nil, nil => true
  | boolean a, boolean b => a == b
  | number a, number b => a == b
  | string a, string b => a == b
  | callable a, callable b => a.same b
  | ofInstance a, ofInstance b => a.id == b.id
  | _, _ => false

end Value

/-- The value that a literal stands for. -/
def Literal.toValue : Literal → Value
  | number value => .number value
  | string value => .string value
  | boolean value => .boolean value
  | nil => .nil

end Lox
