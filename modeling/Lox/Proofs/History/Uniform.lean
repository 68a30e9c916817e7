import Lox.Proofs.History.Chronicle
import Lox.Proofs.Run.Uniform

/-!
# What holds of all parts of chronicled runs

As with plain runs, a property of parts of chronicled runs is *uniform* if the steps have it and parts
that are put together from parts that have it. Then all that is evaluated or run with any fuel has it
(`Chronicled.Uniform.chronicler`).

Where a body or a block is about to be run in a scope of its own, the deed that is written down and the
step that opens the scope are one part: what is said of scopes that have been opened need not hold
between the two.
-/

namespace Lox

/-- Behind the deed a scope is opened for a body or for a block. -/
def Deed.opens : Deed → Bool
  | .enters .. | .reaches (.statement (.block _)) => true
  | _ => false

/-- All steps have the property, and parts of chronicled runs that are put together from such parts. -/
structure Chronicled.Uniform (P : ∀ {α : Type}, Chronicled α → Prop) : Prop where
  pure : ∀ {α : Type} (a : α), P (Pure.pure a : Chronicled α)
  bind : ∀ {α β : Type} {t : Chronicled α} {next : α → Chronicled β}, P t → (∀ a, P (next a)) →
    P (t >>= next)
  /-- Parts of plain runs of which all holds that is uniform. -/
  plain : ∀ {α : Type} {act : Run α},
    (∀ {Q : ∀ {β : Type}, Run β → Prop}, Lox.Uniform Q → Q act) → P (Chronicled.plain act)
  withEnvironment : ∀ {α : Type} (e : Environment) {t : Chronicled α}, P t →
    P (Chronicled.withEnvironment e t)
  note : ∀ {deed : Deed}, deed.opens = false → P (Chronicled.note deed)
  enters : ∀ {α : Type} (f : Closure) (arguments : List Value) {next : Environment → Chronicled α},
    (∀ e, P (next e)) → P (do
      Chronicled.note (.enters f arguments)
      let e ← Chronicled.plain
        (Run.newFrame f.environment (Run.parameters f.declaration.params arguments))
      next e)
  block : ∀ {α : Type} (body : List (Stmt Place)) {next : Environment → Chronicled α},
    (∀ e, P (next e)) → P (do
      Chronicled.note (.reaches (.statement (.block body)))
      let e ← Chronicled.plain (do Run.newFrame (← Run.current) Bindings.empty)
      next e)
  newInstance : ∀ c : Class, P (Chronicled.newInstance c)
  bindMethod : ∀ (method : Closure) (i : Instance), P (Chronicled.bindMethod method i)
  setField : ∀ (i : Instance) (property : String) (v : Value), P (Chronicled.setField i property v)
  newClass : ∀ (name : String) (superclass : Option Class) (methods : List (FunctionDecl Place)),
    P (Chronicled.newClass name superclass methods)

/-- Whatever is evaluated, the chronicled evaluation has the property. -/
structure Chronicler.Has (P : ∀ {α : Type}, Chronicled α → Prop) (t : Chronicler) : Prop where
  eval : ∀ e, P (t.eval e)
  exec : ∀ s, P (t.exec s)

namespace Chronicled.Uniform

variable {P : ∀ {α : Type}, Chronicled α → Prop} (u : Chronicled.Uniform P)
include u

/-! ## Methods and properties -/

theorem methodOf (c : Class) (i : Instance) (name : Name) : P (Chronicled.methodOf c i name) := by
  unfold Chronicled.methodOf
  cases c.findMethod? name.text with
  | none => exact u.plain fun v => v.fault _
  | some method =>
    apply u.bind (u.bindMethod method i)
    intro bound
    exact u.plain fun v => v.newFunction bound

theorem getProperty (object : Value) (name : Name) : P (Chronicled.getProperty object name) := by
  cases object with
  | ofInstance i =>
    apply u.bind (u.note rfl)
    intro _
    apply u.bind (u.plain fun v => v.read fun store _ => .ok ((store.fieldsOf i.id).get? name.text))
    intro field
    cases field with
    | some value => exact u.pure value
    | none => exact u.methodOf i.ofClass i name
  | nil | boolean | number | string | callable => exact u.plain fun v => v.fault _

theorem superMethod (place : Place) (method : Name) : P (Chronicled.superMethod place method) := by
  cases place with
  | global => exact u.plain fun v => v.fault _
  | scope hops =>
    exact u.bind (u.plain fun v => v.superAt hops) fun found => u.methodOf found.1 found.2 method

theorem declareClass (name : Name) (superclass : Option (Reference Place))
    (methods : List (FunctionDecl Place)) : P (Chronicled.declareClass name superclass methods) := by
  apply u.bind (u.plain fun v => v.define name.text .nil)
  intro _
  apply u.bind (u.plain fun v => v.readSuperclass superclass)
  intro parent
  apply u.bind (u.plain fun v => v.methodEnvironment parent)
  intro e
  apply u.bind (u.withEnvironment e (u.newClass name.text parent methods))
  intro made
  exact u.bind (u.plain fun v => v.current) fun home => u.plain fun v => v.assign home name _

/-! ## Calls -/

variable {t : Chronicler} (h : t.Has P)
include h

theorem evalAll (es : List (Expr Place)) : P (Chronicled.evalAll t es) := by
  induction es with
  | nil => exact u.pure []
  | cons e es ih => exact u.bind (h.eval e) fun v => u.bind ih fun vs => u.pure (v :: vs)

theorem execAll (ss : List (Stmt Place)) : P (Chronicled.execAll t ss) := by
  induction ss with
  | nil => exact u.pure _
  | cons s ss ih =>
    apply u.bind (h.exec s)
    intro completion
    cases completion with
    | normal => exact ih
    | returned value => exact u.pure _

theorem callClosure (f : Closure) (arguments : List Value) :
    P (Chronicled.callClosure t f arguments) := by
  apply u.enters f arguments
  intro e
  apply u.bind (u.withEnvironment e (u.execAll h f.declaration.body))
  intro completion
  cases f.isInitializer with
  | true => exact u.plain fun v => v.read fun store _ => store.getAt f.environment 0 thisName
  | false => exact u.pure _

theorem instantiate (c : Class) (arguments : List Value) :
    P (Chronicled.instantiate t c arguments) := by
  apply u.bind (u.newInstance c)
  intro i
  cases c.findMethod? initializerName with
  | none => exact u.pure _
  | some method =>
    apply u.bind (u.bindMethod method i)
    intro bound
    exact u.bind (u.callClosure h bound arguments) fun _ => u.pure _

theorem callValue (callee : Value) (arguments : List Value) (line : Nat) :
    P (Chronicled.callValue t callee arguments line) := by
  apply u.bind (u.note rfl)
  intro _
  cases callee with
  | callable c =>
    dsimp only
    split
    · cases c with
      | native f =>
        cases f with
        | clock => exact u.plain fun v => v.bind v.readClock fun _ => v.pure _
      | function id f => exact u.callClosure h f arguments
      | ofClass c => exact u.instantiate h c arguments
    · exact u.plain fun v => v.fault _
  | nil | boolean | number | string | ofInstance => exact u.plain fun v => v.fault _

/-! ## Expressions and statements -/

theorem setProperty (object : Value) (name : Name) (value : Expr Place) :
    P (Chronicled.setProperty t object name value) := by
  cases object with
  | ofInstance i =>
    exact u.bind (h.eval value) fun v => u.bind (u.setField i name.text v) fun _ => u.pure v
  | nil | boolean | number | string | callable => exact u.plain fun v => v.fault _

theorem evalWith (e : Expr Place) : P (Chronicled.evalWith t e) := by
  cases e with
  | literal value => exact u.pure _
  | grouping inner => exact h.eval inner
  | unary op line operand =>
    exact u.bind (h.eval operand) fun _ => u.plain fun v => v.liftCause line _
  | binary op line left right =>
    exact u.bind (h.eval left) fun _ => u.bind (h.eval right) fun _ =>
      u.plain fun v => v.liftCause line _
  | logical op left right =>
    apply u.bind (h.eval left)
    intro l
    split
    · exact u.pure l
    · exact h.eval right
  | «variable» target => exact u.plain fun v => v.readVariable target.mark target.name
  | assign target value =>
    exact u.bind (h.eval value) fun value =>
      u.bind (u.plain fun v => v.assignVariable target.mark target.name value) fun _ => u.pure value
  | call callee line arguments =>
    exact u.bind (h.eval callee) fun f =>
      u.bind (u.evalAll h arguments) fun vs => u.callValue h f vs line
  | get object property => exact u.bind (h.eval object) fun o => u.getProperty o property
  | set object property value =>
    exact u.bind (h.eval object) fun o => u.setProperty h o property value
  | this line mark => exact u.plain fun v => v.readVariable mark ⟨thisName, line⟩
  | super line mark method => exact u.superMethod mark method

theorem eval? (value : Option (Expr Place)) : P (Chronicled.eval? t value) := by
  cases value with
  | none => exact u.pure _
  | some e => exact h.eval e

theorem loop (n : Nat) (condition : Expr Place) (body : Stmt Place) :
    P (Chronicled.loop t n condition body) := by
  induction n with
  | zero => exact u.plain fun v => v.outOfFuel
  | succ n ih =>
    apply u.bind (h.eval condition)
    intro holds
    split
    · apply u.bind (h.exec body)
      intro completion
      cases completion with
      | normal => exact ih
      | returned value => exact u.pure _
    · exact u.pure _

theorem choose (condition : Value) (thenBranch : Stmt Place) (elseBranch : Option (Stmt Place)) :
    P (Chronicled.choose t condition thenBranch elseBranch) := by
  unfold Chronicled.choose
  cases elseBranch with
  | none =>
    dsimp only
    split
    · exact h.exec thenBranch
    · exact u.pure _
  | some other =>
    dsimp only
    split
    · exact h.exec thenBranch
    · exact h.exec other

/-- A statement that has just been reached. -/
theorem exec (n : Nat) (s : Stmt Place) : P (do
    Chronicled.note (.reaches (.statement s))
    Chronicled.execWith n t s) := by
  have reached {deed : Deed} {rest : Chronicled Completion} (other : deed.opens = false)
      (next : P rest) : P (do Chronicled.note deed; rest) := u.bind (u.note other) fun _ => next
  cases s with
  | expression value => exact reached rfl (u.bind (h.eval value) fun _ => u.pure _)
  | print value =>
    exact reached rfl (u.bind (h.eval value) fun _ =>
      u.bind (u.plain fun v => v.write _) fun _ => u.pure _)
  | declare name initializer =>
    exact reached rfl (u.bind (u.eval? h initializer) fun value =>
      u.bind (u.plain fun v => v.define name.text value) fun _ => u.pure _)
  | block body =>
    apply u.block body
    intro e
    exact u.withEnvironment e (u.execAll h body)
  | conditional condition thenBranch elseBranch =>
    exact reached rfl (u.bind (h.eval condition) fun v => u.choose h v thenBranch elseBranch)
  | loop condition body => exact reached rfl (u.loop h n condition body)
  | function declaration =>
    apply reached rfl
    apply u.bind (u.plain fun v => v.bind v.current fun e =>
      v.bind (v.newFunction _) fun f => v.define declaration.name.text f)
    intro _
    exact u.pure _
  | ret line value => exact reached rfl (u.bind (u.eval? h value) fun v => u.pure _)
  | classDecl name superclass methods =>
    exact reached rfl (u.bind (u.declareClass name superclass methods) fun _ => u.pure _)

theorem program (ss : List (Stmt Place)) : P (Chronicled.program t ss) := by
  induction ss with
  | nil => exact u.pure ()
  | cons s ss ih =>
    apply u.bind (h.exec s)
    intro completion
    cases completion with
    | normal => exact ih
    | returned value => exact u.plain fun v => v.fault _

omit h

/-- **What is uniform holds of all that is evaluated or run and chronicled.** -/
theorem chronicler (n : Nat) : (Lox.chronicler n).Has P := by
  induction n with
  | zero => exact ⟨fun _ => u.plain fun v => v.outOfFuel, fun _ => u.plain fun v => v.outOfFuel⟩
  | succ n ih => exact ⟨fun e => u.bind (u.note rfl) fun _ => u.evalWith ih e, u.exec ih n⟩

end Chronicled.Uniform

end Lox
