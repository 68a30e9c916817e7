import Lox.Value.Basic

/-!
# The store

The variables of every scope that a run has opened, and the fields of every instance that it has
made. Scopes and instances are numbered in the order in which they are made and are never removed.
The globals are the scope that is made first.
-/

namespace Lox

structure Store where
  frames : Array (Bindings Value)
  fields : Array (Bindings Value)
  /-- The number of the next function or class. -/
  nextObject : ObjectId

namespace Store

/-- No scopes and no instances. -/
def empty : Store := ⟨#[], #[], 0⟩

/-- The variables of a scope. -/
def frame (s : Store) (id : FrameId) : Bindings Value := s.frames.getD id Bindings.empty

/-- The fields of an instance. -/
def fieldsOf (s : Store) (id : InstanceId) : Bindings Value := s.fields.getD id Bindings.empty

/-- Adds a scope. Its number is the number of scopes before. -/
def pushFrame (s : Store) (bound : Bindings Value) : Store :=
  { s with frames := s.frames.push bound }

/-- Adds an instance without fields. Its number is the number of instances before. -/
def pushInstance (s : Store) : Store := { s with fields := s.fields.push Bindings.empty }

/-- Uses up a number for a function or a class. -/
def takeObject (s : Store) : Store := { s with nextObject := s.nextObject + 1 }

/-- Binds a name in a scope, in place of its value so far. -/
def setVariable (s : Store) (id : FrameId) (name : String) (value : Value) : Store :=
  { s with frames := s.frames.modify id (·.insert name value) }

/-- Gives a field of an instance a value. -/
def setField (s : Store) (id : InstanceId) (name : String) (value : Value) : Store :=
  { s with fields := s.fields.modify id (·.insert name value) }

end Store

end Lox
