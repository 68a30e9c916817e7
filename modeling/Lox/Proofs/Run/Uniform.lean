import Lox.Eval.Evaluator

/-!
# What holds of all parts of runs

A property of parts of runs is *uniform* if the steps on the machine have it and parts that are put
together from parts that have it. Then all that is evaluated or run with any fuel has it
(`Uniform.evaluator`): nothing in the rules of evaluation is more than these steps and ways to put
them together.
-/

namespace Lox

/-- All steps have the property, and parts of runs have it that are put together from such parts. -/
structure Uniform (P : ∀ {α : Type}, Run α → Prop) : Prop where
  pure : ∀ {α : Type} (a : α), P (Pure.pure a : Run α)
  bind : ∀ {α β : Type} {act : Run α} {next : α → Run β}, P act → (∀ a, P (next a)) →
    P (act >>= next)
  fault : ∀ {α : Type} (f : Fault), P (Run.fault f : Run α)
  outOfFuel : ∀ {α : Type}, P (Run.outOfFuel : Run α)
  /-- What is read off the machine is read off its scopes. -/
  read : ∀ {α : Type} (f : Store → Environment → Except Fault α),
    P (Run.read fun m => f m.store m.current)
  current : P Run.current
  withEnvironment : ∀ {α : Type} (e : Environment) {act : Run α}, P act →
    P (Run.withEnvironment e act)
  newFrame : ∀ (outer : Environment) (bound : Bindings Value), P (Run.newFrame outer bound)
  newInstance : ∀ c : Class, P (Run.newInstance c)
  newObject : P Run.newObject
  define : ∀ (name : String) (v : Value), P (Run.define name v)
  assign : ∀ (e : Environment) (name : Name) (v : Value), P (Run.assign e name v)
  assignAt : ∀ (hops : Nat) (name : String) (v : Value), P (Run.assignAt hops name v)
  setField : ∀ (i : Instance) (name : String) (v : Value), P (Run.setField i name v)
  write : ∀ text : String, P (Run.write text)
  flush : P Run.flush
  readClock : P Run.readClock

/-- Whatever is evaluated, the evaluation has the property. -/
structure Evaluator.Has (P : ∀ {α : Type}, Run α → Prop) (ev : Evaluator) : Prop where
  eval : ∀ e, P (ev.eval e)
  exec : ∀ s, P (ev.exec s)

namespace Uniform

variable {P : ∀ {α : Type}, Run α → Prop} (u : Uniform P)
include u

/-! ## Variables and methods -/

theorem readVariable (place : Place) (name : Name) : P (Run.readVariable place name) := by
  cases place with
  | scope hops => exact u.read fun store e => store.getAt e hops name.text
  | global => exact u.read fun store _ => store.get .globals name

theorem assignVariable (place : Place) (name : Name) (v : Value) :
    P (Run.assignVariable place name v) := by
  cases place with
  | scope hops => exact u.assignAt hops name.text v
  | global => exact u.assign .globals name v

theorem liftCause {α : Type} (line : Nat) (result : Except RuntimeCause α) :
    P (Run.liftCause line result) := by
  cases result with
  | ok a => exact u.pure a
  | error cause => exact u.fault _

theorem newFunction (c : Closure) : P (Run.newFunction c) :=
  u.bind u.newObject fun _ => u.pure _

theorem bindMethod (method : Closure) (i : Instance) : P (Run.bindMethod method i) :=
  u.bind (u.newFrame _ _) fun _ => u.pure _

theorem methodOf (c : Class) (i : Instance) (name : Name) : P (Run.methodOf c i name) := by
  unfold Run.methodOf
  cases c.findMethod? name.text with
  | some method => exact u.bind (u.bindMethod method i) fun bound => u.newFunction bound
  | none => exact u.fault _

theorem getProperty (object : Value) (name : Name) : P (Run.getProperty object name) := by
  cases object with
  | ofInstance i =>
    apply u.bind (u.read fun store _ => .ok ((store.fieldsOf i.id).get? name.text))
    intro field
    cases field with
    | some value => exact u.pure value
    | none => exact u.methodOf i.ofClass i name
  | nil | boolean | number | string | callable => exact u.fault _

theorem superAt (hops : Nat) : P (Run.superAt hops) := by
  apply u.bind (u.read fun store e => store.getAt e hops superName)
  intro value
  split
  · cases hops with
    | zero => exact u.fault _
    | succ inner =>
      apply u.bind (u.read fun store e => store.getAt e inner thisName)
      intro receiver
      split
      · exact u.pure _
      · exact u.fault _
  · exact u.fault _

theorem superMethod (place : Place) (method : Name) : P (Run.superMethod place method) := by
  cases place with
  | global => exact u.fault _
  | scope hops =>
    exact u.bind (u.superAt hops) fun found => u.methodOf found.1 found.2 method

/-! ## Classes -/

theorem readSuperclass (superclass : Option (Reference Place)) :
    P (Run.readSuperclass superclass) := by
  cases superclass with
  | none => exact u.pure none
  | some r =>
    apply u.bind (u.readVariable r.mark r.name)
    intro value
    split
    · exact u.pure _
    · exact u.fault _

theorem methodEnvironment (parent : Option Class) : P (Run.methodEnvironment parent) := by
  cases parent with
  | none => exact u.current
  | some c => exact u.bind u.current fun e => u.newFrame e _

theorem newClass (name : String) (superclass : Option Class) (methods : List (FunctionDecl Place)) :
    P (Run.newClass name superclass methods) :=
  u.bind u.current fun _ => u.bind u.newObject fun _ => u.pure _

theorem declareClass (name : Name) (superclass : Option (Reference Place))
    (methods : List (FunctionDecl Place)) : P (Run.declareClass name superclass methods) := by
  apply u.bind (u.define name.text .nil)
  intro _
  apply u.bind (u.readSuperclass superclass)
  intro parent
  apply u.bind (u.methodEnvironment parent)
  intro e
  apply u.bind (u.withEnvironment e (u.newClass name.text parent methods))
  intro made
  exact u.bind u.current fun home => u.assign home name _

/-! ## Calls -/

variable {ev : Evaluator} (h : ev.Has P)
include h

theorem evalAll (es : List (Expr Place)) : P (Run.evalAll ev es) := by
  induction es with
  | nil => exact u.pure []
  | cons e es ih => exact u.bind (h.eval e) fun v => u.bind ih fun vs => u.pure (v :: vs)

theorem execAll (ss : List (Stmt Place)) : P (Run.execAll ev ss) := by
  induction ss with
  | nil => exact u.pure _
  | cons s ss ih =>
    apply u.bind (h.exec s)
    intro completion
    cases completion with
    | normal => exact ih
    | returned value => exact u.pure _

theorem callClosure (c : Closure) (arguments : List Value) :
    P (Run.callClosure ev c arguments) := by
  apply u.bind (u.newFrame _ _)
  intro e
  apply u.bind (u.withEnvironment e (u.execAll h c.declaration.body))
  intro completion
  split
  · exact u.read fun store _ => store.getAt c.environment 0 thisName
  · exact u.pure _

theorem instantiate (c : Class) (arguments : List Value) :
    P (Run.instantiate ev c arguments) := by
  apply u.bind (u.newInstance c)
  intro i
  cases c.findMethod? initializerName with
  | none => exact u.pure _
  | some method =>
    apply u.bind (u.bindMethod method i)
    intro bound
    exact u.bind (u.callClosure h bound arguments) fun _ => u.pure _

theorem callValue (callee : Value) (arguments : List Value) (line : Nat) :
    P (Run.callValue ev callee arguments line) := by
  cases callee with
  | callable c =>
    unfold Run.callValue
    dsimp only
    split
    · cases c with
      | native f =>
        cases f with
        | clock => exact u.bind u.readClock fun _ => u.pure _
      | function id c => exact u.callClosure h c arguments
      | ofClass c => exact u.instantiate h c arguments
    · exact u.fault _
  | nil | boolean | number | string | ofInstance => exact u.fault _

/-! ## Expressions and statements -/

theorem setProperty (object : Value) (name : Name) (value : Expr Place) :
    P (Run.setProperty ev object name value) := by
  cases object with
  | ofInstance i =>
    exact u.bind (h.eval value) fun v => u.bind (u.setField i name.text v) fun _ => u.pure v
  | nil | boolean | number | string | callable => exact u.fault _

theorem evalWith (e : Expr Place) : P (Run.evalWith ev e) := by
  cases e with
  | literal value => exact u.pure _
  | grouping inner => exact h.eval inner
  | unary op line operand => exact u.bind (h.eval operand) fun v => u.liftCause line _
  | binary op line left right =>
    exact u.bind (h.eval left) fun l => u.bind (h.eval right) fun r => u.liftCause line _
  | logical op left right =>
    apply u.bind (h.eval left)
    intro l
    split
    · exact u.pure l
    · exact h.eval right
  | «variable» target => exact u.readVariable target.mark target.name
  | assign target value =>
    exact u.bind (h.eval value) fun v =>
      u.bind (u.assignVariable target.mark target.name v) fun _ => u.pure v
  | call callee line arguments =>
    exact u.bind (h.eval callee) fun f =>
      u.bind (u.evalAll h arguments) fun vs => u.callValue h f vs line
  | get object property => exact u.bind (h.eval object) fun o => u.getProperty o property
  | set object property value =>
    exact u.bind (h.eval object) fun o => u.setProperty h o property value
  | this line mark => exact u.readVariable mark _
  | super line mark method => exact u.superMethod mark method

theorem eval? (value : Option (Expr Place)) : P (Run.eval? ev value) := by
  cases value with
  | none => exact u.pure _
  | some e => exact h.eval e

theorem loop (n : Nat) (condition : Expr Place) (body : Stmt Place) :
    P (Run.loop ev n condition body) := by
  induction n with
  | zero => exact u.outOfFuel
  | succ n ih =>
    apply u.bind (h.eval condition)
    intro holds
    split
    · apply u.bind (h.exec body)
      intro completion
      cases completion with
      | normal => exact ih
      | returned value => exact u.pure _
    · exact u.pure _

theorem choose (condition : Value) (thenBranch : Stmt Place) (elseBranch : Option (Stmt Place)) :
    P (Run.choose ev condition thenBranch elseBranch) := by
  unfold Run.choose
  cases elseBranch with
  | none =>
    dsimp only
    split
    · exact h.exec thenBranch
    · exact u.pure _
  | some other =>
    dsimp only
    split
    · exact h.exec thenBranch
    · exact h.exec other

theorem execWith (n : Nat) (s : Stmt Place) : P (Run.execWith n ev s) := by
  cases s with
  | expression value => exact u.bind (h.eval value) fun _ => u.pure _
  | print value => exact u.bind (h.eval value) fun v => u.bind (u.write _) fun _ => u.pure _
  | declare name initializer =>
    exact u.bind (u.eval? h initializer) fun v => u.bind (u.define _ v) fun _ => u.pure _
  | block body =>
    apply u.bind u.current
    intro e
    apply u.bind (u.newFrame e _)
    intro inner
    exact u.withEnvironment inner (u.execAll h body)
  | conditional condition thenBranch elseBranch =>
    exact u.bind (h.eval condition) fun v => u.choose h v thenBranch elseBranch
  | loop condition body => exact u.loop h n condition body
  | function declaration =>
    apply u.bind u.current
    intro e
    apply u.bind (u.newFunction _)
    intro f
    exact u.bind (u.define _ f) fun _ => u.pure _
  | ret line value => exact u.bind (u.eval? h value) fun v => u.pure _
  | classDecl name superclass methods =>
    exact u.bind (u.declareClass name superclass methods) fun _ => u.pure _

theorem program (ss : List (Stmt Place)) : P (Run.program ev ss) := by
  induction ss with
  | nil => exact u.pure ()
  | cons s ss ih =>
    apply u.bind (h.exec s)
    intro completion
    cases completion with
    | normal => exact ih
    | returned value => exact u.fault _

omit h

/-- **What is uniform holds of all that is evaluated or run.** -/
theorem evaluator (n : Nat) : (Lox.evaluator n).Has P := by
  induction n with
  | zero => exact ⟨fun _ => u.outOfFuel, fun _ => u.outOfFuel⟩
  | succ n ih => exact ⟨fun e => u.evalWith ih e, fun s => u.execWith ih n s⟩

end Uniform

end Lox
