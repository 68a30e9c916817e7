import Lox.Eval.Machine

/-!
# Calls

A call opens a scope inside the one that the function was declared in, binds the parameters there
and runs the body. A method is bound to its instance first, by a scope that holds the instance and
nothing else.

Evaluation refers to itself everywhere. The rules here and in the modules after this one take an
`Evaluator` for the parts of a program, and `Lox.Eval.Evaluator` ties the knot.
-/

namespace Lox

/-- How the parts of a program are evaluated. -/
structure Evaluator where
  eval : Expr Place → Run Value
  exec : Stmt Place → Run Completion

namespace Run

/-- Evaluates expressions from left to right. -/
def evalAll (ev : Evaluator) : List (Expr Place) → Run (List Value)
  | [] => pure []
  | e :: es => do
    let value ← ev.eval e
    let values ← evalAll ev es
    return value :: values

/-- Runs statements one after the other, up to one that returns. -/
def execAll (ev : Evaluator) : List (Stmt Place) → Run Completion
  | [] => pure .normal
  | s :: ss => do
    match ← ev.exec s with
    | .normal => execAll ev ss
    | .returned value => return .returned value

/-- Runs statements in a scope. -/
def execIn (ev : Evaluator) (e : Environment) (body : List (Stmt Place)) : Run Completion :=
  withEnvironment e (execAll ev body)

/-- The parameters with the arguments of a call. -/
def parameters (params : List Name) (arguments : List Value) : Bindings Value :=
  Bindings.ofList ((params.map Name.text).zip arguments)

/-- The method, bound to an instance. -/
def bindMethod (method : Closure) (i : Instance) : Run Closure := do
  let e ← newFrame method.environment (Bindings.empty.insert thisName (.ofInstance i))
  return { method with environment := e }

/-- Calls a function. The arguments are as many as its parameters. -/
def callClosure (ev : Evaluator) (c : Closure) (arguments : List Value) : Run Value := do
  let e ← newFrame c.environment (parameters c.declaration.params arguments)
  let completion ← execIn ev e c.declaration.body
  if c.isInitializer then read fun m => m.store.getAt c.environment 0 thisName
  else return completion.value

/-- Makes an instance and calls the initializer on it, if the class has one. -/
def instantiate (ev : Evaluator) (c : Class) (arguments : List Value) : Run Value := do
  let i ← newInstance c
  match c.findMethod? initializerName with
  | some method =>
    let _ ← callClosure ev (← bindMethod method i) arguments
    return .ofInstance i
  | none => return .ofInstance i

def callNative : Native → Run Value
  | .clock => return .number (← readClock)

/-- Calls something with arguments of the right number. -/
def callWith (ev : Evaluator) (callee : Callable) (arguments : List Value) : Run Value :=
  match callee with
  | .native f => callNative f
  | .function _ c => callClosure ev c arguments
  | .ofClass c => instantiate ev c arguments

/-- Calls a value at the call whose parenthesis closes on the given line. -/
def callValue (ev : Evaluator) (callee : Value) (arguments : List Value) (line : Nat) :
    Run Value :=
  match callee with
  | .callable c =>
    if arguments.length = c.arity then callWith ev c arguments
    else failWith (.argumentCount c.arity arguments.length) line
  | _ => failWith .notCallable line

end Run

end Lox
