import Lox.Eval.Expression

/-!
# Running statements

A block opens a scope. A declaration binds its name in the active scope; the name of a class is
bound before its superclass is looked up, and gets the class once that is made. A class is made in the
scope that its methods close over.
-/

namespace Lox.Run

/-- The class that a superclass name stands for. -/
def readSuperclass : Option (Reference Place) → Run (Option Class)
  | none => return none
  | some r => do
    match ← readVariable r.mark r.name with
    | .callable (.ofClass c) => return some c
    | _ => failWith .superclassNotClass r.name.line

/-- The scopes around the methods of a class that is declared in the active scope: with a
superclass there is one more scope, which holds it. Without one they are those that are active. -/
def methodEnvironment : Option Class → Run Environment
  | none => current
  | some c => do
    newFrame (← current) (Bindings.empty.insert superName (.callable (.ofClass c)))

/-- The methods of a class. The last one of a name counts. -/
def methodTable (e : Environment) (methods : List (FunctionDecl Place)) : Bindings Closure :=
  Bindings.ofList (methods.map fun d => (d.name.text, ⟨d, e, d.isInitializer⟩))

/-- The class made of a declaration. -/
def makeClass (id : ObjectId) (name : String) (methods : Bindings Closure)
    (superclass : Option Class) : Class :=
  ⟨⟨id, name, methods⟩, match superclass with | some c => c.lineage | none => []⟩

/-- Makes a class whose methods close over the active scope. -/
def newClass (name : String) (superclass : Option Class) (methods : List (FunctionDecl Place)) :
    Run Class := do
  let e ← current
  let id ← newObject
  return makeClass id name (methodTable e methods) superclass

/-- Declares a class in the active scope. The class is made in the scope of its methods, which is left
again before the name gets it. -/
def declareClass (name : Name) (superclass : Option (Reference Place))
    (methods : List (FunctionDecl Place)) : Run Unit := do
  define name.text .nil
  let parent ← readSuperclass superclass
  let e ← methodEnvironment parent
  let made ← withEnvironment e (newClass name.text parent methods)
  assign (← current) name (.callable (.ofClass made))

/-- The value of an expression; without one, `nil`. -/
def eval? (ev : Evaluator) : Option (Expr Place) → Run Value
  | some e => ev.eval e
  | none => return .nil

/-- Runs the body as long as the condition holds, at most `n` times. -/
def loop (ev : Evaluator) : (n : Nat) → Expr Place → Stmt Place → Run Completion
  | 0, _, _ => outOfFuel
  | n + 1, condition, body => do
    let holds ← ev.eval condition
    if holds.isTruthy then
      match ← ev.exec body with
      | .normal => loop ev n condition body
      | .returned value => return .returned value
    else return .normal

/-- Runs one of two statements. -/
def choose (ev : Evaluator) (condition : Value) (thenBranch : Stmt Place) :
    Option (Stmt Place) → Run Completion
  | some elseBranch => if condition.isTruthy then ev.exec thenBranch else ev.exec elseBranch
  | none => if condition.isTruthy then ev.exec thenBranch else return .normal

/-- Runs a statement whose parts `ev` evaluates. A loop runs its body at most `n` times. -/
def execWith (n : Nat) (ev : Evaluator) : Stmt Place → Run Completion
  | .expression value => do
    let _ ← ev.eval value
    return .normal
  | .print value => do
    let value ← ev.eval value
    write (value.text ++ "\n")
    return .normal
  | .declare name initializer => do
    let value ← eval? ev initializer
    define name.text value
    return .normal
  | .block body => do
    let e ← newFrame (← current) Bindings.empty
    execIn ev e body
  | .conditional condition thenBranch elseBranch => do
    let condition ← ev.eval condition
    choose ev condition thenBranch elseBranch
  | .loop condition body => loop ev n condition body
  | .function declaration => do
    let function ← newFunction ⟨declaration, ← current, false⟩
    define declaration.name.text function
    return .normal
  | .ret _ value => do
    let value ← eval? ev value
    return .returned value
  | .classDecl name superclass methods => do
    declareClass name superclass methods
    return .normal

end Lox.Run
