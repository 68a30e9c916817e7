import Lox.Diagnostic
import Lox.Syntax.Basic

/-!
# Faults

Why a run stops before its end: the program does something that has no meaning, the scopes it runs
in are not those it was resolved for, or the text it prints cannot be written.
-/

namespace Lox

/-- What a program does that has no meaning. Operands are named by their sort. -/
inductive RuntimeCause where
  | undefinedVariable (name : String)
  | undefinedProperty (name : String)
  | negatedOperand (sort : String)
  | addedOperands (left right : String)
  | operands (op : BinaryOp) (left right : String)
  | notCallable
  | argumentCount (expected got : Nat)
  | propertyOfOther
  | fieldOfOther
  | superclassNotClass
  deriving DecidableEq, Repr

def RuntimeCause.message : RuntimeCause → String
  | undefinedVariable name => s!"Undefined variable '{name}'."
  | undefinedProperty name => s!"Undefined property '{name}'."
  | negatedOperand sort => s!"Operand must be a number for '-' (got {sort})."
  | addedOperands left right =>
    s!"Operands must be two numbers or two strings for '+' (got {left} and {right})."
  | operands op left right =>
    s!"Operands must be numbers for '{op.symbol}' (got {left} and {right})."
  | notCallable => "Can only call functions and classes."
  | argumentCount expected got => s!"Expected {expected} arguments but got {got}."
  | propertyOfOther => "Only instances have properties."
  | fieldOfOther => "Only instances have fields."
  | superclassNotClass => "Superclass must be a class."

/-- How the scopes of a run differ from those that the program was resolved for. -/
inductive ScopeMismatch where
  /-- There are only `links` scopes around this one, not `hops`. -/
  | tooFewScopes (links hops : Nat)
  /-- The scope that lies `hops` scopes further out has no such variable. -/
  | missingVariable (name : String) (hops : Nat)
  | superUnresolved
  | superNotClass
  | superWithoutThis
  | thisNotInstance
  | returnAtTopLevel
  deriving DecidableEq, Repr

def ScopeMismatch.message : ScopeMismatch → String
  | tooFewScopes links hops => s!"scope chain ended after {links} of {hops} hops"
  | missingVariable name hops => s!"resolved binding '{name}' missing at distance {hops}"
  | superUnresolved => "'super' was not resolved"
  | superNotClass => "'super' is not bound to a class"
  | superWithoutThis => "'super' resolved without a 'this' scope"
  | thisNotInstance => "'this' is not bound to an instance"
  | returnAtTopLevel => "'return' escaped to the top level"

/-- Why a run stops before its end. -/
inductive Fault where
  | runtime (cause : RuntimeCause) (line : Nat)
  | mismatch (cause : ScopeMismatch)
  | io (message : String)
  deriving DecidableEq, Repr

def Fault.diagnostic : Fault → Diagnostic
  | runtime cause line => .runtime line cause.message
  | mismatch cause => .internal cause.message
  | io message => .io message

end Lox
