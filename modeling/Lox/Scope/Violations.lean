import Lox.Diagnostic
import Lox.Scope.Places

/-!
# Misplaced and repeated names

A program that parses may still declare a name twice in a scope, read a variable in its own
initializer, or use `return`, `this` or `super` where they mean nothing. `violations` lists all of
these in the order of the program, and `resolve` gives the places of the references of a program
that has none.
-/

namespace Lox

/-- What a declaration or a reference does wrong. -/
inductive ScopeCause where
  | redeclared (name : String)
  | readInInitializer (name : String)
  | returnOutside
  | returnFromInitializer
  | thisOutside
  | superOutside
  | superWithoutSuperclass
  | inheritsItself
  deriving DecidableEq, Repr

def ScopeCause.message : ScopeCause → String
  | redeclared name => s!"Already a variable named '{name}' in this scope."
  | readInInitializer name => s!"Can't read local variable '{name}' in its own initializer."
  | returnOutside => "Can't return from top-level code."
  | returnFromInitializer => "Can't return a value from an initializer."
  | thisOutside => "Can't use 'this' outside of a class."
  | superOutside => "Can't use 'super' outside of a class."
  | superWithoutSuperclass => "Can't use 'super' in a class with no superclass."
  | inheritsItself => "A class can't inherit from itself."

/-- A misplaced or repeated name, with its line. -/
structure Violation where
  cause : ScopeCause
  line : Nat
  deriving DecidableEq, Repr

def Violation.diagnostic (v : Violation) : Diagnostic := .scoping v.line v.cause.message

/-- The innermost function around a point of a program. -/
inductive FunctionContext where
  | outside
  | function
  | initializer
  deriving DecidableEq, Repr

/-- The innermost class around a point of a program. -/
inductive ClassContext where
  | outside
  | base
  | derived
  deriving DecidableEq, Repr

/-- What stands around a point of a program. -/
structure Context where
  function : FunctionContext
  classContext : ClassContext
  scopes : Scopes

namespace Context

/-- Nothing stands around the statements of a program. -/
def top : Context := ⟨.outside, .outside, []⟩

/-- The context with other scopes. -/
def within (c : Context) (scopes : Scopes) : Context := { c with scopes := scopes }

/-- The context of a function's body. -/
def inFunction (c : Context) (params : List Name) : Context :=
  { c with function := .function, scopes := c.scopes.enterFunction params }

/-- The context of a method's body. -/
def inMethod (c : Context) (name : Name) (params : List Name) : Context :=
  { c with
    function := if name.text == initializerName then .initializer else .function
    scopes := c.scopes.enterFunction params }

/-- The context of a class's methods. -/
def inClass {ρ : Type} (c : Context) (superclass : Option (Reference ρ)) : Context :=
  { c with
    classContext := if superclass.isSome then .derived else .base
    scopes := c.scopes.enterClass superclass }

end Context

/-- A violation if the condition holds. -/
def violationIf (condition : Bool) (cause : ScopeCause) (line : Nat) : List Violation :=
  if condition then [⟨cause, line⟩] else []

/-- A name that is declared where it is declared already. -/
def redeclaration (scopes : Scopes) (name : Name) : List Violation :=
  violationIf (scopes.isDeclared name.text) (.redeclared name.text) name.line

/-- Parameters that have the name of one before them. -/
def paramViolations (scopes : Scopes) : List Name → List Violation
  | [] => []
  | p :: ps => redeclaration scopes p ++ paramViolations (scopes.define p.text) ps

variable {ρ : Type}

mutual

/-- The violations in an expression. A value that is stored comes before the object. -/
def Expr.violations (c : Context) : Expr ρ → List Violation
  | .literal _ => []
  | .grouping inner => inner.violations c
  | .unary _ _ operand => operand.violations c
  | .binary _ _ left right => left.violations c ++ right.violations c
  | .logical _ left right => left.violations c ++ right.violations c
  | .variable target =>
    violationIf (c.scopes.isUnfinished target.name.text) (.readInInitializer target.name.text)
      target.name.line
  | .assign _ value => value.violations c
  | .call callee _ arguments => callee.violations c ++ Expr.violationsAll c arguments
  | .get object _ => object.violations c
  | .set object _ value => value.violations c ++ object.violations c
  | .this line _ => violationIf (c.classContext == .outside) .thisOutside line
  | .super line _ _ =>
    match c.classContext with
    | .outside => [⟨.superOutside, line⟩]
    | .base => [⟨.superWithoutSuperclass, line⟩]
    | .derived => []

/-- The violations in expressions. -/
def Expr.violationsAll (c : Context) : List (Expr ρ) → List Violation
  | [] => []
  | e :: es => e.violations c ++ Expr.violationsAll c es

end

/-- The violations in an expression that may be missing. -/
def Expr.violations? (c : Context) : Option (Expr ρ) → List Violation
  | none => []
  | some e => e.violations c

/-- A superclass that is the class itself. -/
def selfInheritance (name : Name) : Option (Reference ρ) → List Violation
  | none => []
  | some r => violationIf (r.name.text == name.text) .inheritsItself r.name.line

/-- A `return` outside of functions, or with a value in an initializer. -/
def returnViolations (c : Context) (line : Nat) (value : Option (Expr ρ)) : List Violation :=
  violationIf (c.function == .outside) .returnOutside line ++
    violationIf (value.isSome && c.function == .initializer) .returnFromInitializer line

mutual

/-- The violations in a statement. -/
def Stmt.violations (c : Context) : Stmt ρ → List Violation
  | .expression value => value.violations c
  | .print value => value.violations c
  | .declare name initializer =>
    redeclaration c.scopes name ++
      Expr.violations? (c.within (c.scopes.declare name.text)) initializer
  | .block body => Stmt.violationsAll (c.within c.scopes.enter) body
  | .conditional condition thenBranch none =>
    condition.violations c ++ thenBranch.violations c
  | .conditional condition thenBranch (some elseBranch) =>
    condition.violations c ++ thenBranch.violations c ++
      elseBranch.violations (c.within (thenBranch.scopesAfter c.scopes))
  | .loop condition body => condition.violations c ++ body.violations c
  | .function ⟨name, params, body⟩ =>
    let inner := c.within (c.scopes.define name.text)
    redeclaration c.scopes name ++ paramViolations inner.scopes.enter params ++
      Stmt.violationsAll (inner.inFunction params) body
  | .ret line value => returnViolations c line value ++ Expr.violations? c value
  | .classDecl name superclass methods =>
    redeclaration c.scopes name ++ selfInheritance name superclass ++
      FunctionDecl.violationsAll
        ((c.within (c.scopes.define name.text)).inClass superclass) methods

/-- The violations in statements that follow each other. -/
def Stmt.violationsAll (c : Context) : List (Stmt ρ) → List Violation
  | [] => []
  | s :: ss => s.violations c ++ Stmt.violationsAll (c.within (s.scopesAfter c.scopes)) ss

/-- The violations in a method. -/
def FunctionDecl.violations (c : Context) : FunctionDecl ρ → List Violation
  | ⟨name, params, body⟩ =>
    paramViolations c.scopes.enter params ++ Stmt.violationsAll (c.inMethod name params) body

/-- The violations in methods. -/
def FunctionDecl.violationsAll (c : Context) : List (FunctionDecl ρ) → List Violation
  | [] => []
  | d :: ds => d.violations c ++ FunctionDecl.violationsAll c ds

end

/-- A program with the places of its references, or its violations. -/
def resolve (program : List (Stmt ρ)) : Except (List Violation) (List (Stmt (ρ × Place))) :=
  match Stmt.violationsAll .top program with
  | [] => .ok (Stmt.locateAll [] program)
  | violations => .error violations

/-- An expression with the places of its references, or its violations. -/
def resolveExpression (e : Expr ρ) : Except (List Violation) (Expr (ρ × Place)) :=
  match e.violations .top with
  | [] => .ok (e.locate [])
  | violations => .error violations

end Lox
