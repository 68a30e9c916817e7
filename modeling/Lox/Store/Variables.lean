import Lox.Fault
import Lox.Store.Basic

/-!
# Variables

A variable is looked up in one of two ways. By name, `get` and `assign` search from a scope outward
to the nearest one that binds the name. At a distance, `getAt` and `assignAt` go to the scope that
lies so many scopes further out and search no further. None of them binds a name that is not bound
already; only `define` does.
-/

namespace Lox

namespace Environment

/-- The environment of the scope that lies `hops` scopes further out. -/
def ancestor (e : Environment) (hops : Nat) : Except Fault Environment :=
  match e.path.drop hops with
  | frame :: outer => .ok ⟨frame, outer⟩
  | [] => .error (.mismatch (.tooFewScopes e.outer.length hops))

/-- The environment of the scope around this one. -/
def enclosing? (e : Environment) : Option Environment :=
  match e.outer with
  | [] => none
  | frame :: outer => some ⟨frame, outer⟩

end Environment

namespace Store

/-- The nearest scope of a path that binds the name. -/
def binder? (s : Store) (path : List FrameId) (name : String) : Option FrameId :=
  path.find? fun id => (s.frame id).contains name

/-- The value of the name in the nearest scope of a path that binds it. -/
def lookup? (s : Store) (path : List FrameId) (name : String) : Option Value :=
  path.findSome? fun id => (s.frame id).get? name

/-- Binds a name in the scope, in place of its value so far. -/
def define (s : Store) (e : Environment) (name : String) (value : Value) : Store :=
  s.setVariable e.frame name value

/-- The value of a variable, found by its name. -/
def get (s : Store) (e : Environment) (name : Name) : Except Fault Value :=
  match s.lookup? e.path name.text with
  | some value => .ok value
  | none => .error (.runtime (.undefinedVariable name.text) name.line)

/-- Gives a variable, found by its name, a new value. -/
@[inline] def assign (s : Store) (e : Environment) (name : Name) (value : Value) :
    Except Fault Store :=
  match s.binder? e.path name.text with
  | some id => .ok (s.setVariable id name.text value)
  | none => .error (.runtime (.undefinedVariable name.text) name.line)

/-- The value of a variable of the scope that lies `hops` scopes further out. -/
def getAt (s : Store) (e : Environment) (hops : Nat) (name : String) : Except Fault Value := do
  let target ← e.ancestor hops
  match (s.frame target.frame).get? name with
  | some value => .ok value
  | none => .error (.mismatch (.missingVariable name hops))

/-- The scope that lies `hops` scopes further out, which has to bind the name. -/
def binderAt (s : Store) (e : Environment) (hops : Nat) (name : String) :
    Except Fault FrameId := do
  let target ← e.ancestor hops
  if (s.frame target.frame).contains name then .ok target.frame
  else .error (.mismatch (.missingVariable name hops))

/-- Gives a variable of the scope that lies `hops` scopes further out a new value. -/
@[inline] def assignAt (s : Store) (e : Environment) (hops : Nat) (name : String)
    (value : Value) : Except Fault Store :=
  match s.binderAt e hops name with
  | .ok id => .ok (s.setVariable id name value)
  | .error fault => .error fault

end Store

end Lox
