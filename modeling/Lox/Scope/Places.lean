import Lox.Scope.Basic

/-!
# Finding the places of references

`locate` adds to the mark of every reference the place where it finds its variable. All references
of an expression see the same scopes; a statement sees the names that the statements before it have
declared.
-/

namespace Lox

variable {ρ : Type}

/-- Adds the places of the references of an expression that stands within `scopes`. -/
def Expr.locate (scopes : Scopes) (e : Expr ρ) : Expr (ρ × Place) :=
  e.mapMarks fun name mark => (mark, scopes.place name)

/-- Adds the place of a reference that stands within `scopes`. -/
def Reference.locate (scopes : Scopes) (r : Reference ρ) : Reference (ρ × Place) :=
  r.mapMark fun name mark => (mark, scopes.place name)

mutual

/-- Adds the places of the references of a statement that stands within `scopes`. -/
def Stmt.locate (scopes : Scopes) : Stmt ρ → Stmt (ρ × Place)
  | .expression value => .expression (value.locate scopes)
  | .print value => .print (value.locate scopes)
  | .declare name initializer =>
    .declare name (initializer.map (·.locate (scopes.declare name.text)))
  | .block body => .block (Stmt.locateAll scopes.enter body)
  | .conditional condition thenBranch none =>
    .conditional (condition.locate scopes) (thenBranch.locate scopes) none
  | .conditional condition thenBranch (some elseBranch) =>
    .conditional (condition.locate scopes) (thenBranch.locate scopes)
      (some (elseBranch.locate (thenBranch.scopesAfter scopes)))
  | .loop condition body => .loop (condition.locate scopes) (body.locate scopes)
  | .function declaration =>
    .function (declaration.locate (scopes.define declaration.name.text))
  | .ret line value => .ret line (value.map (·.locate scopes))
  | .classDecl name superclass methods =>
    let scopes := scopes.define name.text
    .classDecl name (superclass.map (·.locate scopes))
      (FunctionDecl.locateAll (scopes.enterClass superclass) methods)

/-- Adds the places of the references in the body of a function that stands within `scopes`. -/
def FunctionDecl.locate (scopes : Scopes) : FunctionDecl ρ → FunctionDecl (ρ × Place)
  | ⟨name, params, body⟩ => ⟨name, params, Stmt.locateAll (scopes.enterFunction params) body⟩

/-- Adds the places of the references of statements that follow each other within `scopes`. -/
def Stmt.locateAll (scopes : Scopes) : List (Stmt ρ) → List (Stmt (ρ × Place))
  | [] => []
  | s :: ss => s.locate scopes :: Stmt.locateAll (s.scopesAfter scopes) ss

/-- Adds the places of the references in methods that stand within `scopes`. -/
def FunctionDecl.locateAll (scopes : Scopes) :
    List (FunctionDecl ρ) → List (FunctionDecl (ρ × Place))
  | [] => []
  | d :: ds => d.locate scopes :: FunctionDecl.locateAll scopes ds

end

/-- The numbers of the references to variables in scopes, with the hops to each. -/
def distances (marks : List (ρ × Place)) : List (ρ × Nat) :=
  marks.filterMap fun (mark, place) => place.hops?.map fun hops => (mark, hops)

end Lox
