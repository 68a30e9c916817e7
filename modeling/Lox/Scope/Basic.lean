import Lox.Bindings
import Lox.Syntax.Marks

/-!
# Scopes

A block, a function body, a class and a subclass each open a scope around what stands in them. A
list of scopes, innermost first, holds the names declared so far around a point of a program; the
globals are in no scope of the list. `Scopes.place` says where a reference at that point finds its
variable.
-/

namespace Lox

/-- Where a reference finds its variable. -/
inductive Place where
  /-- In the scope that lies this many scopes further out. -/
  | scope (hops : Nat)
  /-- Among the globals. -/
  | global
  deriving DecidableEq, Repr

/-- The number of scopes to go outward, for a variable in a scope. -/
def Place.hops? : Place → Option Nat
  | scope hops => some hops
  | global => none

/-- The scopes around a point of a program, innermost first. A name is bound to `false` from its
declaration to the end of its initializer, and to `true` from there on. -/
abbrev Scopes := List (Bindings Bool)

namespace Scopes

/-- Declares a name in the innermost scope, where it is not declared yet. -/
def declare (scopes : Scopes) (name : String) : Scopes :=
  match scopes with
  | [] => []
  | scope :: outer => if scope.contains name then scopes else scope.insert name false :: outer

/-- Makes a name of the innermost scope ready to be read. -/
def define (scopes : Scopes) (name : String) : Scopes :=
  match scopes with
  | [] => []
  | scope :: outer => scope.insert name true :: outer

/-- The name is declared in the innermost scope. -/
def isDeclared (scopes : Scopes) (name : String) : Bool :=
  match scopes with
  | [] => false
  | scope :: _ => scope.contains name

/-- The name is that of a variable of the innermost scope whose initializer has not ended. -/
def isUnfinished (scopes : Scopes) (name : String) : Bool :=
  match scopes with
  | [] => false
  | scope :: _ => scope.get? name == some false

/-- An empty scope inside the others. -/
def enter (scopes : Scopes) : Scopes := Bindings.empty :: scopes

/-- A scope inside the others that holds one name. -/
def enterWith (scopes : Scopes) (name : String) : Scopes := scopes.enter.define name

/-- The scopes around the body of a function. -/
def enterFunction (scopes : Scopes) (params : List Name) : Scopes :=
  params.foldl (fun s p => s.define p.text) scopes.enter

/-- The scopes around the methods of a class: one with the superclass, if there is one, and one
with the instance. -/
def enterClass {ρ : Type} (scopes : Scopes) (superclass : Option (Reference ρ)) : Scopes :=
  match superclass with
  | none => scopes.enterWith thisName
  | some _ => (scopes.enterWith superName).enterWith thisName

/-- Where a reference finds the variable of this name: in the innermost scope that declares it. -/
def place (scopes : Scopes) (name : String) : Place :=
  match scopes.findIdx? (·.contains name) with
  | some hops => .scope hops
  | none => .global

end Scopes

/-- The scopes behind a statement, which differ from those before it in the names that the statement
itself declares. -/
def Stmt.scopesAfter {ρ : Type} (scopes : Scopes) : Stmt ρ → Scopes
  | .declare name _ => scopes.define name.text
  | .function ⟨name, _, _⟩ => scopes.define name.text
  | .classDecl name _ _ => scopes.define name.text
  | .conditional _ thenBranch none => thenBranch.scopesAfter scopes
  | .conditional _ thenBranch (some elseBranch) =>
    elseBranch.scopesAfter (thenBranch.scopesAfter scopes)
  | .loop _ body => body.scopesAfter scopes
  | .expression _ | .print _ | .block _ | .ret _ _ => scopes

end Lox
