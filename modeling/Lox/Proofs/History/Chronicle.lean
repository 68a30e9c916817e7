import Lox.Proofs.Scope.Standing

/-!
# Chronicled runs

A *chronicled* run takes the steps of the plain one and writes down what it does: the parts of the
program that it reaches, the calls it makes, the function bodies that it enters, the instances it
makes, the methods it binds, the properties it reads and stores and the classes it declares. Each
deed stands there with the machine as it was just before.

The definitions below repeat those of `Run` under their names. `Lox.Proofs.History.Agreement` proves
that a chronicled run is the plain one with the chronicle added.
-/

namespace Lox

/-- What a run does. -/
inductive Deed where
  /-- A part of the program is about to be evaluated or run. -/
  | reaches (part : Node)
  /-- Callee and arguments are there, and the call is about to be made. Its parenthesis closes on the
  line. -/
  | calls (callee : Value) (arguments : List Value) (line : Nat)
  /-- The body of a function is about to be run in a scope of its own. -/
  | enters (f : Closure) (arguments : List Value)
  /-- An instance is made. -/
  | makes (i : Instance)
  /-- A method is bound to an instance. -/
  | binds (method : Closure) (i : Instance) (bound : Closure)
  /-- A property of an instance is about to be read. -/
  | reads (i : Instance) (property : Name)
  /-- A property of an instance gets a value. -/
  | stores (i : Instance) (property : String) (v : Value)
  /-- A class is made of a declaration, whose methods have these scopes around them. -/
  | declares (made : Class) (superclass : Option Class) (e : Environment)
    (methods : List (FunctionDecl Place))

/-- A deed, and the machine just before it. -/
structure Happening where
  deed : Deed
  machine : Machine

/-- A machine and what has led to it. -/
structure Chronicle where
  machine : Machine
  /-- What has happened so far, last first. -/
  past : List Happening

/-- A part of a chronicled run. -/
abbrev Chronicled := EStateM Stop Chronicle

/-- How the parts of a program are evaluated in a chronicled run. -/
structure Chronicler where
  eval : Expr Place → Chronicled Value
  exec : Stmt Place → Chronicled Completion

namespace Chronicled

/-! ## Steps -/

/-- Takes a step that is not written down. -/
def plain {α : Type} (act : Run α) : Chronicled α := fun w =>
  match act w.machine with
  | .ok a m => .ok a { w with machine := m }
  | .error stop m => .error stop { w with machine := m }

/-- Writes down a deed. -/
def note (deed : Deed) : Chronicled Unit := fun w =>
  .ok () { w with past := ⟨deed, w.machine⟩ :: w.past }

/-- Runs something in another scope. -/
def withEnvironment {α : Type} (e : Environment) (act : Chronicled α) : Chronicled α := fun w =>
  let previous := w.machine.current
  match act { w with machine := { w.machine with current := e } } with
  | .ok a w => .ok a { w with machine := { w.machine with current := previous } }
  | .error stop w => .error stop { w with machine := { w.machine with current := previous } }

/-- Makes an instance. -/
def newInstance (c : Class) : Chronicled Instance := fun w =>
  let i : Instance := ⟨w.machine.store.fields.size, c⟩
  .ok i
    { machine := { w.machine with store := w.machine.store.pushInstance }
      past := ⟨.makes i, w.machine⟩ :: w.past }

/-- Binds a method to an instance. -/
def bindMethod (method : Closure) (i : Instance) : Chronicled Closure := fun w =>
  let bound : Closure :=
    { method with environment := ⟨w.machine.store.frames.size, method.environment.path⟩ }
  let binding : Bindings Value := Bindings.empty.insert thisName (.ofInstance i)
  .ok bound
    { machine := { w.machine with store := w.machine.store.pushFrame binding }
      past := ⟨.binds method i bound, w.machine⟩ :: w.past }

/-- Gives a property of an instance a value. -/
def setField (i : Instance) (property : String) (v : Value) : Chronicled Unit := fun w =>
  .ok ()
    { machine := { w.machine with store := w.machine.store.setField i.id property v }
      past := ⟨.stores i property v, w.machine⟩ :: w.past }

/-- Makes a class whose methods close over the active scope. -/
def newClass (name : String) (superclass : Option Class) (methods : List (FunctionDecl Place)) :
    Chronicled Class := fun w =>
  let e := w.machine.current
  let made := Run.makeClass w.machine.store.nextObject name (Run.methodTable e methods) superclass
  .ok made
    { machine := { w.machine with store := w.machine.store.takeObject }
      past := ⟨.declares made superclass e methods, w.machine⟩ :: w.past }

/-! ## Calls -/

/-- Evaluates expressions from left to right. -/
def evalAll (t : Chronicler) : List (Expr Place) → Chronicled (List Value)
  | [] => pure []
  | e :: es => do
    let value ← t.eval e
    let values ← evalAll t es
    return value :: values

/-- Runs statements one after the other, up to one that returns. -/
def execAll (t : Chronicler) : List (Stmt Place) → Chronicled Completion
  | [] => pure .normal
  | s :: ss => do
    match ← t.exec s with
    | .normal => execAll t ss
    | .returned value => return .returned value

/-- Runs statements in a scope. -/
def execIn (t : Chronicler) (e : Environment) (body : List (Stmt Place)) : Chronicled Completion :=
  withEnvironment e (execAll t body)

/-- Calls a function. -/
def callClosure (t : Chronicler) (c : Closure) (arguments : List Value) : Chronicled Value := do
  note (.enters c arguments)
  let e ← plain (Run.newFrame c.environment (Run.parameters c.declaration.params arguments))
  let completion ← execIn t e c.declaration.body
  if c.isInitializer then plain (Run.read fun m => m.store.getAt c.environment 0 thisName)
  else return completion.value

/-- Makes an instance and calls the initializer on it, if the class has one. -/
def instantiate (t : Chronicler) (c : Class) (arguments : List Value) : Chronicled Value := do
  let i ← newInstance c
  match c.findMethod? initializerName with
  | some method =>
    let _ ← callClosure t (← bindMethod method i) arguments
    return .ofInstance i
  | none => return .ofInstance i

/-- Calls something with arguments of the right number. -/
def callWith (t : Chronicler) (callee : Callable) (arguments : List Value) : Chronicled Value :=
  match callee with
  | .native f => plain (Run.callNative f)
  | .function _ c => callClosure t c arguments
  | .ofClass c => instantiate t c arguments

/-- Calls a value at the call whose parenthesis closes on the given line. -/
def callValue (t : Chronicler) (callee : Value) (arguments : List Value) (line : Nat) :
    Chronicled Value := do
  note (.calls callee arguments line)
  match callee with
  | .callable c =>
    if arguments.length = c.arity then callWith t c arguments
    else plain (Run.failWith (.argumentCount c.arity arguments.length) line)
  | _ => plain (Run.failWith .notCallable line)

/-! ## Expressions -/

/-- The method of a class, bound to an instance, as a function. -/
def methodOf (c : Class) (i : Instance) (name : Name) : Chronicled Value :=
  match c.findMethod? name.text with
  | some method => do
    let bound ← bindMethod method i
    plain (Run.newFunction bound)
  | none => plain (Run.failWith (.undefinedProperty name.text) name.line)

/-- A property of an instance: the field of this name, or else the method. -/
def propertyOf (i : Instance) (name : Name) : Chronicled Value := do
  note (.reads i name)
  match ← plain (Run.read fun m => .ok ((m.store.fieldsOf i.id).get? name.text)) with
  | some value => return value
  | none => methodOf i.ofClass i name

/-- A property of a value, which has to be an instance. -/
def getProperty (object : Value) (name : Name) : Chronicled Value :=
  match object with
  | .ofInstance i => propertyOf i name
  | _ => plain (Run.failWith .propertyOfOther name.line)

/-- A method of the superclass, bound to the instance. -/
def superMethod (place : Place) (method : Name) : Chronicled Value :=
  match place with
  | .global => plain (Run.mismatch .superUnresolved)
  | .scope hops => do
    let (c, i) ← plain (Run.superAt hops)
    methodOf c i method

/-- Gives a property of an object the value of an expression. -/
def setProperty (t : Chronicler) (object : Value) (name : Name) (value : Expr Place) :
    Chronicled Value :=
  match object with
  | .ofInstance i => do
    let value ← t.eval value
    setField i name.text value
    return value
  | _ => plain (Run.failWith .fieldOfOther name.line)

/-- Evaluates an expression whose parts `t` evaluates. -/
def evalWith (t : Chronicler) : Expr Place → Chronicled Value
  | .literal value => return value.toValue
  | .grouping inner => t.eval inner
  | .unary op line operand => do
    let value ← t.eval operand
    plain (Run.liftCause line (op.apply value))
  | .binary op line left right => do
    let left ← t.eval left
    let right ← t.eval right
    plain (Run.liftCause line (op.apply left right))
  | .logical op left right => do
    let left ← t.eval left
    if op.isDecidedBy left then return left else t.eval right
  | .variable target => plain (Run.readVariable target.mark target.name)
  | .assign target value => do
    let value ← t.eval value
    plain (Run.assignVariable target.mark target.name value)
    return value
  | .call callee line arguments => do
    let callee ← t.eval callee
    let arguments ← evalAll t arguments
    callValue t callee arguments line
  | .get object property => do
    let object ← t.eval object
    getProperty object property
  | .set object property value => do
    let object ← t.eval object
    setProperty t object property value
  | .this line mark => plain (Run.readVariable mark ⟨thisName, line⟩)
  | .super _ mark method => superMethod mark method

/-! ## Statements -/

/-- Declares a class in the active scope. The class is made in the scope of its methods. -/
def declareClass (name : Name) (superclass : Option (Reference Place))
    (methods : List (FunctionDecl Place)) : Chronicled Unit := do
  plain (Run.define name.text .nil)
  let parent ← plain (Run.readSuperclass superclass)
  let e ← plain (Run.methodEnvironment parent)
  let made ← withEnvironment e (newClass name.text parent methods)
  plain (Run.assign (← plain Run.current) name (.callable (.ofClass made)))

/-- The value of an expression; without one, `nil`. -/
def eval? (t : Chronicler) : Option (Expr Place) → Chronicled Value
  | some e => t.eval e
  | none => return .nil

/-- Runs the body as long as the condition holds, at most `n` times. -/
def loop (t : Chronicler) : (n : Nat) → Expr Place → Stmt Place → Chronicled Completion
  | 0, _, _ => plain Run.outOfFuel
  | n + 1, condition, body => do
    let holds ← t.eval condition
    if holds.isTruthy then
      match ← t.exec body with
      | .normal => loop t n condition body
      | .returned value => return .returned value
    else return .normal

/-- Runs one of two statements. -/
def choose (t : Chronicler) (condition : Value) (thenBranch : Stmt Place) :
    Option (Stmt Place) → Chronicled Completion
  | some elseBranch => if condition.isTruthy then t.exec thenBranch else t.exec elseBranch
  | none => if condition.isTruthy then t.exec thenBranch else return .normal

/-- Runs a statement whose parts `t` evaluates. -/
def execWith (n : Nat) (t : Chronicler) : Stmt Place → Chronicled Completion
  | .expression value => do
    let _ ← t.eval value
    return .normal
  | .print value => do
    let value ← t.eval value
    plain (Run.write (value.text ++ "\n"))
    return .normal
  | .declare name initializer => do
    let value ← eval? t initializer
    plain (Run.define name.text value)
    return .normal
  | .block body => do
    let e ← plain (do Run.newFrame (← Run.current) Bindings.empty)
    execIn t e body
  | .conditional condition thenBranch elseBranch => do
    let condition ← t.eval condition
    choose t condition thenBranch elseBranch
  | .loop condition body => loop t n condition body
  | .function declaration => do
    plain (do
      let function ← Run.newFunction ⟨declaration, ← Run.current, false⟩
      Run.define declaration.name.text function)
    return .normal
  | .ret _ value => do
    let value ← eval? t value
    return .returned value
  | .classDecl name superclass methods => do
    declareClass name superclass methods
    return .normal

end Chronicled

/-- Evaluates with a bounded number of nested steps, and writes down what it does. -/
def chronicler : Nat → Chronicler
  | 0 => { eval := fun _ => Chronicled.plain Run.outOfFuel,
           exec := fun _ => Chronicled.plain Run.outOfFuel }
  | n + 1 =>
    { eval := fun e => do
        Chronicled.note (.reaches (.expression e))
        Chronicled.evalWith (chronicler n) e
      exec := fun s => do
        Chronicled.note (.reaches (.statement s))
        Chronicled.execWith n (chronicler n) s }

namespace Chronicled

/-- Runs the statements of a program one after the other. -/
def program (t : Chronicler) : List (Stmt Place) → Chronicled Unit
  | [] => pure ()
  | s :: ss => do
    match ← t.exec s with
    | .normal => program t ss
    | .returned _ => plain (Run.mismatch .returnAtTopLevel)

/-- Runs a program and flushes the sink, also behind a fault. -/
def interpret (fuel : Nat) (statements : List (Stmt Place)) : Chronicled Unit := fun w =>
  match program (chronicler fuel) statements w with
  | .error .outOfFuel w => .error .outOfFuel w
  | .ok _ w => plain Run.flush w
  | .error (.fault f) w =>
    match plain Run.flush w with
    | .ok _ w => .error (.fault f) w
    | .error stop w => .error stop w

end Chronicled

end Lox
