import Lox.Scope.Violations
import Lox.Session
import Mathlib.Logic.Function.Basic

/-!
# Watched runs

A run knows nothing of the scopes that its program was resolved for. A *watched* run takes the same
steps and keeps three things beside them: at each node that it reaches, the context that resolution
had there (`Spot`), for each function and class, the spot that it was declared at, and a record of
all nodes that it has reached, each with the machine as it was then (`Moment`).

The definitions below repeat those of `Run` under their names. `Lox.Proofs.Run.Follows` proves that a
watched run is the plain one with the records added.
-/

namespace Lox

/-- Where code that runs was declared. -/
structure Home where
  /-- The scopes around the declaration. -/
  scopes : Scopes
  /-- The environment that was active when the declaration ran. -/
  environment : Environment

/-- Where a run stands in the program. -/
structure Spot where
  /-- What resolution has around that point. -/
  context : Context
  /-- The declaration of the function whose body it stands in. -/
  home : Home

namespace Spot

/-- The statements of a program stand here. -/
def top : Spot := ⟨.top, ⟨[], .globals⟩⟩

/-- The spot with other scopes around it. -/
def within (p : Spot) (scopes : Scopes) : Spot := { p with context := p.context.within scopes }

/-- The spot behind a statement. -/
def after (p : Spot) (s : Stmt Place) : Spot := p.within (s.scopesAfter p.context.scopes)

/-- The spot around the body of a function that is declared under this name here. -/
def atFunction (p : Spot) (name : String) (e : Environment) : Spot :=
  let c := p.context.within (p.context.scopes.define name)
  ⟨c, ⟨c.scopes, e⟩⟩

/-- The spot around the methods of a class that is declared under this name here. -/
def atClass {ρ : Type} (p : Spot) (name : String) (superclass : Option (Reference ρ))
    (e : Environment) : Spot :=
  let c := p.context.within (p.context.scopes.define name)
  ⟨c.inClass superclass, ⟨c.scopes, e⟩⟩

/-- The spot of the body of a function that this spot is around. -/
def inBody (p : Spot) (f : Closure) : Spot :=
  { p with
    context :=
      { p.context with
        function := if f.isInitializer then .initializer else .function
        scopes := p.context.scopes.enterFunction f.declaration.params } }

end Spot

/-- What a run is about to do. -/
inductive Event where
  | evaluate (e : Expr Place)
  | execute (s : Stmt Place)
  /-- The value of an assignment is there, and its target is about to get it. -/
  | store (target : Reference Place)
  /-- The superclass of a class is about to be looked up. -/
  | superclass (r : Reference Place)

/-- What a run is about to do, where, and on which machine. -/
structure Moment where
  event : Event
  spot : Spot
  machine : Machine

/-- What is kept of a watched run. -/
structure Watch where
  machine : Machine
  /-- The spot around the body of a function, or around the methods of a class. -/
  spots : ObjectId → Spot
  /-- The moments so far, last one first. -/
  moments : List Moment

/-- A part of a watched run. -/
abbrev Watched := EStateM Stop Watch

/-- How the parts of a program are evaluated in a watched run. -/
structure Watcher where
  eval : Spot → Expr Place → Watched Value
  exec : Spot → Stmt Place → Watched Completion

/-- The class on the way up from `c` whose method of this name `c` has. -/
def Class.definer? (c : Class) (name : String) : Option ClassLevel :=
  c.lineage.find? (·.methods.contains name)

namespace Watched

/-- Takes a step that reaches no node. -/
def plain {α : Type} (act : Run α) : Watched α := fun w =>
  match act w.machine with
  | .ok a m => .ok a { w with machine := m }
  | .error stop m => .error stop { w with machine := m }

/-- Records a moment. -/
def note (p : Spot) (event : Event) : Watched Unit := fun w =>
  .ok () { w with moments := ⟨event, p, w.machine⟩ :: w.moments }

/-- A number for a function or a class that is declared at the spot. -/
def newObject (p : Spot) : Watched ObjectId := fun w =>
  let id := w.machine.store.nextObject
  .ok id
    { w with
      machine := { w.machine with store := w.machine.store.takeObject }
      spots := Function.update w.spots id p }

/-- The scope that is active. -/
def current : Watched Environment := plain Run.current

/-- Runs something in another scope. -/
def withEnvironment {α : Type} (e : Environment) (act : Watched α) : Watched α := fun w =>
  let previous := w.machine.current
  match act { w with machine := { w.machine with current := e } } with
  | .ok a w => .ok a { w with machine := { w.machine with current := previous } }
  | .error stop w => .error stop { w with machine := { w.machine with current := previous } }

/-- The spot around the method of this name that a class has. -/
def methodSpot (c : Class) (name : String) : Watched Spot := fun w =>
  match c.definer? name with
  | some level => .ok (w.spots level.id) w
  | none => .ok .top w

/-- A function with an identity of its own, declared at the spot. -/
def newFunction (p : Spot) (c : Closure) : Watched Value := do
  return .callable (.function (← newObject p) c)

/-! ## Calls -/

/-- Evaluates expressions from left to right. -/
def evalAll (t : Watcher) (p : Spot) : List (Expr Place) → Watched (List Value)
  | [] => pure []
  | e :: es => do
    let value ← t.eval p e
    let values ← evalAll t p es
    return value :: values

/-- Runs statements one after the other, up to one that returns. -/
def execAll (t : Watcher) (p : Spot) : List (Stmt Place) → Watched Completion
  | [] => pure .normal
  | s :: ss => do
    match ← t.exec p s with
    | .normal => execAll t (p.after s) ss
    | .returned value => return .returned value

/-- Runs statements in a scope. -/
def execIn (t : Watcher) (p : Spot) (e : Environment) (body : List (Stmt Place)) :
    Watched Completion :=
  withEnvironment e (execAll t p body)

/-- Calls a function that the spot is around the body of. -/
def callClosure (t : Watcher) (p : Spot) (c : Closure) (arguments : List Value) :
    Watched Value := do
  let e ← plain (Run.newFrame c.environment (Run.parameters c.declaration.params arguments))
  let completion ← execIn t (p.inBody c) e c.declaration.body
  if c.isInitializer then plain (Run.read fun m => m.store.getAt c.environment 0 thisName)
  else return completion.value

/-- Makes an instance and calls the initializer on it, if the class has one. -/
def instantiate (t : Watcher) (c : Class) (arguments : List Value) : Watched Value := do
  let i ← plain (Run.newInstance c)
  match c.findMethod? initializerName with
  | some method =>
    let p ← methodSpot c initializerName
    let bound ← plain (Run.bindMethod method i)
    let _ ← callClosure t p bound arguments
    return .ofInstance i
  | none => return .ofInstance i

/-- The spot around the body of a function. -/
def functionSpot (id : ObjectId) : Watched Spot := fun w => .ok (w.spots id) w

/-- Calls something with arguments of the right number. -/
def callWith (t : Watcher) (callee : Callable) (arguments : List Value) : Watched Value :=
  match callee with
  | .native f => plain (Run.callNative f)
  | .function id c => do callClosure t (← functionSpot id) c arguments
  | .ofClass c => instantiate t c arguments

/-- Calls a value at the call whose parenthesis closes on the given line. -/
def callValue (t : Watcher) (callee : Value) (arguments : List Value) (line : Nat) :
    Watched Value :=
  match callee with
  | .callable c =>
    if arguments.length = c.arity then callWith t c arguments
    else plain (Run.failWith (.argumentCount c.arity arguments.length) line)
  | _ => plain (Run.failWith .notCallable line)

/-! ## Expressions -/

/-- The method of a class, bound to an instance, as a function. -/
def methodOf (c : Class) (i : Instance) (name : Name) : Watched Value :=
  match c.findMethod? name.text with
  | some method => do
    let p ← methodSpot c name.text
    let bound ← plain (Run.bindMethod method i)
    newFunction p bound
  | none => plain (Run.failWith (.undefinedProperty name.text) name.line)

/-- A property of an instance: the field of this name, or else the method. -/
def propertyOf (i : Instance) (name : Name) : Watched Value := do
  match ← plain (Run.read fun m => .ok ((m.store.fieldsOf i.id).get? name.text)) with
  | some value => return value
  | none => methodOf i.ofClass i name

/-- A property of a value, which has to be an instance. -/
def getProperty (object : Value) (name : Name) : Watched Value :=
  match object with
  | .ofInstance i => propertyOf i name
  | _ => plain (Run.failWith .propertyOfOther name.line)

/-- A method of the superclass, bound to the instance. -/
def superMethod (place : Place) (method : Name) : Watched Value :=
  match place with
  | .global => plain (Run.mismatch .superUnresolved)
  | .scope hops => do
    let (c, i) ← plain (Run.superAt hops)
    methodOf c i method

/-- Gives a property of an object the value of an expression. -/
def setProperty (t : Watcher) (p : Spot) (object : Value) (name : Name) (value : Expr Place) :
    Watched Value :=
  match object with
  | .ofInstance i => do
    let value ← t.eval p value
    plain (Run.setField i name.text value)
    return value
  | _ => plain (Run.failWith .fieldOfOther name.line)

/-- Evaluates an expression whose parts `t` evaluates. -/
def evalWith (t : Watcher) (p : Spot) : Expr Place → Watched Value
  | .literal value => return value.toValue
  | .grouping inner => t.eval p inner
  | .unary op line operand => do
    let value ← t.eval p operand
    plain (Run.liftCause line (op.apply value))
  | .binary op line left right => do
    let left ← t.eval p left
    let right ← t.eval p right
    plain (Run.liftCause line (op.apply left right))
  | .logical op left right => do
    let left ← t.eval p left
    if op.isDecidedBy left then return left else t.eval p right
  | .variable target => plain (Run.readVariable target.mark target.name)
  | .assign target value => do
    let value ← t.eval p value
    note p (.store target)
    plain (Run.assignVariable target.mark target.name value)
    return value
  | .call callee line arguments => do
    let callee ← t.eval p callee
    let arguments ← evalAll t p arguments
    callValue t callee arguments line
  | .get object property => do
    let object ← t.eval p object
    getProperty object property
  | .set object property value => do
    let object ← t.eval p object
    setProperty t p object property value
  | .this line mark => plain (Run.readVariable mark ⟨thisName, line⟩)
  | .super _ mark method => superMethod mark method

/-! ## Statements -/

/-- The class that a superclass name stands for. -/
def readSuperclass (p : Spot) : Option (Reference Place) → Watched (Option Class)
  | none => return none
  | some r => do
    note p (.superclass r)
    plain (Run.readSuperclass (some r))

/-- Makes a class whose methods close over the active scope. -/
def newClass (p : Spot) (name : String) (superclass : Option Class)
    (methods : List (FunctionDecl Place)) : Watched Class := do
  let e ← current
  let id ← newObject p
  return Run.makeClass id name (Run.methodTable e methods) superclass

/-- Declares a class in the active scope. The class is made in the scope of its methods. -/
def declareClass (p : Spot) (name : Name) (superclass : Option (Reference Place))
    (methods : List (FunctionDecl Place)) : Watched Unit := do
  plain (Run.define name.text .nil)
  let parent ← readSuperclass (p.within (p.context.scopes.define name.text)) superclass
  let home ← current
  let e ← plain (Run.methodEnvironment parent)
  let made ← withEnvironment e
    (newClass (p.atClass name.text superclass home) name.text parent methods)
  plain (Run.assign (← current) name (.callable (.ofClass made)))

/-- The value of an expression; without one, `nil`. -/
def eval? (t : Watcher) (p : Spot) : Option (Expr Place) → Watched Value
  | some e => t.eval p e
  | none => return .nil

/-- Runs the body as long as the condition holds, at most `n` times. -/
def loop (t : Watcher) (p : Spot) : (n : Nat) → Expr Place → Stmt Place → Watched Completion
  | 0, _, _ => plain Run.outOfFuel
  | n + 1, condition, body => do
    let holds ← t.eval p condition
    if holds.isTruthy then
      match ← t.exec p body with
      | .normal => loop t p n condition body
      | .returned value => return .returned value
    else return .normal

/-- Runs one of two statements. -/
def choose (t : Watcher) (p : Spot) (condition : Value) (thenBranch : Stmt Place) :
    Option (Stmt Place) → Watched Completion
  | some elseBranch => if condition.isTruthy then t.exec p thenBranch else t.exec p elseBranch
  | none => if condition.isTruthy then t.exec p thenBranch else return .normal

/-- Runs a statement whose parts `t` evaluates. -/
def execWith (n : Nat) (t : Watcher) (p : Spot) : Stmt Place → Watched Completion
  | .expression value => do
    let _ ← t.eval p value
    return .normal
  | .print value => do
    let value ← t.eval p value
    plain (Run.write (value.text ++ "\n"))
    return .normal
  | .declare name initializer => do
    let value ← eval? t (p.within (p.context.scopes.declare name.text)) initializer
    plain (Run.define name.text value)
    return .normal
  | .block body => do
    let e ← plain (Run.newFrame (← current) Bindings.empty)
    execIn t (p.within p.context.scopes.enter) e body
  | .conditional condition thenBranch elseBranch => do
    let condition ← t.eval p condition
    choose t p condition thenBranch elseBranch
  | .loop condition body => loop t p n condition body
  | .function declaration => do
    let e ← current
    let function ← newFunction (p.atFunction declaration.name.text e) ⟨declaration, e, false⟩
    plain (Run.define declaration.name.text function)
    return .normal
  | .ret _ value => do
    let value ← eval? t p value
    return .returned value
  | .classDecl name superclass methods => do
    declareClass p name superclass methods
    return .normal

end Watched

/-- Evaluates with a bounded number of nested steps, and records each node that it reaches. -/
def watcher : Nat → Watcher
  | 0 => { eval := fun _ _ => Watched.plain Run.outOfFuel,
           exec := fun _ _ => Watched.plain Run.outOfFuel }
  | n + 1 =>
    { eval := fun p e => do
        Watched.note p (.evaluate e)
        Watched.evalWith (watcher n) p e
      exec := fun p s => do
        Watched.note p (.execute s)
        Watched.execWith n (watcher n) p s }

namespace Watched

/-- Runs the statements of a program one after the other. -/
def program (t : Watcher) (p : Spot) : List (Stmt Place) → Watched Unit
  | [] => pure ()
  | s :: ss => do
    match ← t.exec p s with
    | .normal => program t (p.after s) ss
    | .returned _ => plain (Run.mismatch .returnAtTopLevel)

/-- Runs a program and flushes the sink, also behind a fault. -/
def interpret (fuel : Nat) (statements : List (Stmt Place)) : Watched Unit := fun w =>
  match program (watcher fuel) .top statements w with
  | .error .outOfFuel w => .error .outOfFuel w
  | .ok _ w => plain Run.flush w
  | .error (.fault f) w =>
    match plain Run.flush w with
    | .ok _ w => .error (.fault f) w
    | .error stop w => .error stop w

/-- The watch that a part of a run leaves, however it ends. -/
def left {α : Type} : EStateM.Result Stop Watch α → Watch
  | .ok _ w => w
  | .error _ w => w

/-- Behind a program that has not run out of fuel the sink is flushed. -/
theorem left_interpret (fuel : Nat) (ss : List (Stmt Place)) (w : Watch) :
    let ran := left (program (watcher fuel) .top ss w)
    left (interpret fuel ss w) = ran ∨
      left (interpret fuel ss w) = left (plain Run.flush ran) := by
  unfold interpret
  cases program (watcher fuel) .top ss w with
  | ok _ w' => exact .inr rfl
  | error stop w' =>
    cases stop with
    | outOfFuel => exact .inl rfl
    | fault f =>
      right
      dsimp only [left]
      cases plain Run.flush w' <;> rfl

end Watched

end Lox
