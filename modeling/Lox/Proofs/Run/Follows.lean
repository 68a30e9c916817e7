import Lox.Proofs.Run.Watched

/-!
# A watched run is the plain run

`Follows t r` says that the watched run `t` gives what the plain run `r` gives on its machine, and
leaves the machine that `r` leaves. There is one lemma for each definition of a watched run, and
`watcher_follows` puts them together.
-/

namespace Lox

/-- What is left of a watched run without its records. -/
def Watch.forget {α : Type} : EStateM.Result Stop Watch α → EStateM.Result Stop Machine α
  | .ok a w => .ok a w.machine
  | .error stop w => .error stop w.machine

/-- The watched run is the plain one with records added. -/
def Follows {α : Type} (t : Watched α) (r : Run α) : Prop :=
  ∀ w, Watch.forget (t w) = r w.machine

/-- The evaluation of each part of a program is the plain one with records added. -/
structure Watcher.Follows (t : Watcher) (ev : Evaluator) : Prop where
  eval : ∀ p e, Lox.Follows (t.eval p e) (ev.eval e)
  exec : ∀ p s, Lox.Follows (t.exec p s) (ev.exec s)

namespace Follows

variable {α β : Type}

theorem pure (a : α) : Follows (Pure.pure a) (Pure.pure a) := fun _ => rfl

theorem bind {t : Watched α} {r : Run α} {f : α → Watched β} {g : α → Run β}
    (first : Follows t r) (next : ∀ a, Follows (f a) (g a)) : Follows (t >>= f) (r >>= g) := by
  intro w
  have same := first w
  simp only [Bind.bind, EStateM.bind]
  rw [← same]
  cases t w with
  | ok a w' => exact next a w'
  | error stop w' => rfl

/-- A step that leaves the machine alone and gives nothing may come before. -/
theorem silent {t : Watched α} {f : α → Watched β} {r : Run β}
    (first : ∀ w, ∃ a w', t w = .ok a w' ∧ w'.machine = w.machine)
    (next : ∀ a, Follows (f a) r) : Follows (t >>= f) r := by
  intro w
  obtain ⟨a, w', result, same⟩ := first w
  simp only [Bind.bind, EStateM.bind, result]
  rw [← same]
  exact next a w'

theorem plain (act : Run α) : Follows (Watched.plain act) act := by
  intro w
  simp only [Watched.plain]
  cases act w.machine with
  | ok a m => rfl
  | error stop m => rfl

theorem newObject (p : Spot) : Follows (Watched.newObject p) Run.newObject := fun _ => rfl

theorem note {p : Spot} {event : Event} {f : Unit → Watched β} {r : Run β}
    (next : Follows (f ()) r) : Follows (Watched.note p event >>= f) r :=
  silent (fun _ => ⟨(), _, rfl, rfl⟩) fun _ => next

theorem methodSpot {c : Class} {name : String} {f : Spot → Watched β} {r : Run β}
    (next : ∀ p, Follows (f p) r) : Follows (Watched.methodSpot c name >>= f) r := by
  refine silent (fun w => ?_) next
  unfold Watched.methodSpot
  split <;> exact ⟨_, _, rfl, rfl⟩

theorem withEnvironment {e : Environment} {t : Watched α} {r : Run α} (inner : Follows t r) :
    Follows (Watched.withEnvironment e t) (Run.withEnvironment e r) := by
  intro w
  have same := inner { w with machine := { w.machine with current := e } }
  simp only [Watched.withEnvironment, Run.withEnvironment]
  rw [← same]
  cases t { w with machine := { w.machine with current := e } } with
  | ok a w' => rfl
  | error stop w' => rfl

theorem newFunction (p : Spot) (c : Closure) :
    Follows (Watched.newFunction p c) (Run.newFunction c) :=
  (newObject p).bind fun _ => pure _

variable {t : Watcher} {ev : Evaluator} (h : t.Follows ev)
include h

/-! ## Calls -/

theorem evalAll (p : Spot) (es : List (Expr Place)) :
    Follows (Watched.evalAll t p es) (Run.evalAll ev es) := by
  induction es with
  | nil => exact pure _
  | cons e es ih => exact (h.eval p e).bind fun _ => ih.bind fun _ => pure _

theorem execAll (p : Spot) (ss : List (Stmt Place)) :
    Follows (Watched.execAll t p ss) (Run.execAll ev ss) := by
  induction ss generalizing p with
  | nil => exact pure _
  | cons s ss ih =>
    refine (h.exec p s).bind fun completion => ?_
    cases completion with
    | normal => exact ih (p.after s)
    | returned value => exact pure _

theorem callClosure (p : Spot) (c : Closure) (arguments : List Value) :
    Follows (Watched.callClosure t p c arguments) (Run.callClosure ev c arguments) := by
  refine (plain _).bind fun e => (withEnvironment (execAll h _ _)).bind fun completion => ?_
  split
  · exact plain _
  · exact pure _

theorem instantiate (c : Class) (arguments : List Value) :
    Follows (Watched.instantiate t c arguments) (Run.instantiate ev c arguments) := by
  refine (plain _).bind fun i => ?_
  cases c.findMethod? initializerName with
  | none => exact pure _
  | some method =>
    exact methodSpot fun p => (plain _).bind fun bound =>
      (callClosure h p bound arguments).bind fun _ => pure _

theorem callWith (callee : Callable) (arguments : List Value) :
    Follows (Watched.callWith t callee arguments) (Run.callWith ev callee arguments) := by
  cases callee with
  | native f => exact plain (Run.callNative f)
  | function id c =>
    exact silent (fun _ => ⟨_, _, rfl, rfl⟩) fun p => callClosure h p c arguments
  | ofClass c => exact instantiate h c arguments

theorem callValue (callee : Value) (arguments : List Value) (line : Nat) :
    Follows (Watched.callValue t callee arguments line)
      (Run.callValue ev callee arguments line) := by
  unfold Watched.callValue Run.callValue
  cases callee with
  | callable c =>
    dsimp only
    split
    · exact callWith h c arguments
    · exact plain _
  | _ => exact plain _

/-! ## Expressions -/

omit h in
theorem methodOf (c : Class) (i : Instance) (name : Name) :
    Follows (Watched.methodOf c i name) (Run.methodOf c i name) := by
  unfold Watched.methodOf Run.methodOf
  cases c.findMethod? name.text with
  | none => exact plain _
  | some method =>
    exact methodSpot fun p => (plain _).bind fun bound => newFunction p bound

omit h in
theorem propertyOf (i : Instance) (name : Name) :
    Follows (Watched.propertyOf i name) (Run.propertyOf i name) := by
  refine (plain _).bind fun value => ?_
  cases value with
  | some value => exact pure _
  | none => exact methodOf _ _ _

omit h in
theorem getProperty (object : Value) (name : Name) :
    Follows (Watched.getProperty object name) (Run.getProperty object name) := by
  cases object with
  | ofInstance i => exact propertyOf i name
  | _ => exact plain (Run.failWith .propertyOfOther name.line)

omit h in
theorem superMethod (place : Place) (method : Name) :
    Follows (Watched.superMethod place method) (Run.superMethod place method) := by
  cases place with
  | global => exact plain (Run.mismatch .superUnresolved)
  | scope hops => exact (plain _).bind fun _ => methodOf _ _ _

theorem setProperty (p : Spot) (object : Value) (name : Name) (value : Expr Place) :
    Follows (Watched.setProperty t p object name value)
      (Run.setProperty ev object name value) := by
  cases object with
  | ofInstance i => exact (h.eval p value).bind fun _ => (plain _).bind fun _ => pure _
  | _ => exact plain (Run.failWith .fieldOfOther name.line)

theorem evalWith (p : Spot) (e : Expr Place) :
    Follows (Watched.evalWith t p e) (Run.evalWith ev e) := by
  cases e with
  | literal value => exact pure _
  | grouping inner => exact h.eval p inner
  | unary op line operand => exact (h.eval p operand).bind fun _ => plain _
  | binary op line left right =>
    exact (h.eval p left).bind fun _ => (h.eval p right).bind fun _ => plain _
  | logical op left right =>
    refine (h.eval p left).bind fun value => ?_
    split
    · exact pure _
    · exact h.eval p right
  | «variable» target => exact plain _
  | assign target value =>
    exact (h.eval p value).bind fun _ => note ((plain _).bind fun _ => pure _)
  | call callee line arguments =>
    exact (h.eval p callee).bind fun _ => (evalAll h p arguments).bind fun _ => callValue h _ _ _
  | get object property => exact (h.eval p object).bind fun _ => getProperty _ _
  | set object property value =>
    exact (h.eval p object).bind fun _ => setProperty h p _ _ _
  | this line mark => exact plain _
  | super line mark method => exact superMethod _ _

/-! ## Statements -/

omit h in
theorem readSuperclass (p : Spot) (superclass : Option (Reference Place)) :
    Follows (Watched.readSuperclass p superclass) (Run.readSuperclass superclass) := by
  cases superclass with
  | none => exact pure _
  | some r => exact note (plain _)

omit h in
theorem newClass (p : Spot) (name : String) (superclass : Option Class)
    (methods : List (FunctionDecl Place)) :
    Follows (Watched.newClass p name superclass methods) (Run.newClass name superclass methods) :=
  (plain _).bind fun _ => (newObject p).bind fun _ => pure _

omit h in
theorem declareClass (p : Spot) (name : Name) (superclass : Option (Reference Place))
    (methods : List (FunctionDecl Place)) :
    Follows (Watched.declareClass p name superclass methods)
      (Run.declareClass name superclass methods) := by
  refine (plain _).bind fun _ => (readSuperclass _ superclass).bind fun parent => ?_
  refine silent (fun _ => ⟨_, _, rfl, rfl⟩) fun home => (plain _).bind fun e => ?_
  exact (withEnvironment (newClass _ _ _ _)).bind fun made => (plain _).bind fun _ => plain _

theorem eval? (p : Spot) (e? : Option (Expr Place)) :
    Follows (Watched.eval? t p e?) (Run.eval? ev e?) := by
  cases e? with
  | none => exact pure _
  | some e => exact h.eval p e

theorem loop (p : Spot) (n : Nat) (condition : Expr Place) (body : Stmt Place) :
    Follows (Watched.loop t p n condition body) (Run.loop ev n condition body) := by
  induction n with
  | zero => exact plain Run.outOfFuel
  | succ n ih =>
    refine (h.eval p condition).bind fun holds => ?_
    split
    · refine (h.exec p body).bind fun completion => ?_
      cases completion with
      | normal => exact ih
      | returned value => exact pure _
    · exact pure _

theorem choose (p : Spot) (condition : Value) (thenBranch : Stmt Place)
    (elseBranch : Option (Stmt Place)) :
    Follows (Watched.choose t p condition thenBranch elseBranch)
      (Run.choose ev condition thenBranch elseBranch) := by
  unfold Watched.choose Run.choose
  cases elseBranch with
  | some elseBranch =>
    dsimp only
    split
    · exact h.exec p thenBranch
    · exact h.exec p elseBranch
  | none =>
    dsimp only
    split
    · exact h.exec p thenBranch
    · exact pure _

theorem execWith (n : Nat) (p : Spot) (s : Stmt Place) :
    Follows (Watched.execWith n t p s) (Run.execWith n ev s) := by
  cases s with
  | expression value => exact (h.eval p value).bind fun _ => pure _
  | print value => exact (h.eval p value).bind fun _ => (plain _).bind fun _ => pure _
  | declare name initializer =>
    exact (eval? h _ initializer).bind fun _ => (plain _).bind fun _ => pure _
  | block body =>
    exact (plain _).bind fun _ => (plain _).bind fun e => withEnvironment (execAll h _ body)
  | conditional condition thenBranch elseBranch =>
    exact (h.eval p condition).bind fun _ => choose h p _ _ _
  | loop condition body => exact loop h p n condition body
  | function declaration =>
    exact (plain _).bind fun e => (newFunction _ _).bind fun _ => (plain _).bind fun _ => pure _
  | ret line value => exact (eval? h p value).bind fun _ => pure _
  | classDecl name superclass methods =>
    exact (declareClass p name superclass methods).bind fun _ => pure _

end Follows

/-- Watched evaluation is evaluation. -/
theorem watcher_follows (n : Nat) : (watcher n).Follows (evaluator n) := by
  induction n with
  | zero => exact ⟨fun _ _ => .plain Run.outOfFuel, fun _ _ => .plain Run.outOfFuel⟩
  | succ n ih =>
    exact ⟨fun p e => .note (.evalWith ih p e), fun p s => .note (.execWith ih n p s)⟩

namespace Follows

theorem program {t : Watcher} {ev : Evaluator} (h : t.Follows ev) (p : Spot)
    (ss : List (Stmt Place)) : Follows (Watched.program t p ss) (Run.program ev ss) := by
  induction ss generalizing p with
  | nil => exact pure _
  | cons s ss ih =>
    refine (h.exec p s).bind fun completion => ?_
    cases completion with
    | normal => exact ih (p.after s)
    | returned value => exact plain _

/-- A watched program run is the program run. -/
theorem interpret (fuel : Nat) (ss : List (Stmt Place)) :
    Follows (Watched.interpret fuel ss) (Run.interpret fuel ss) := by
  intro w
  have same := program (watcher_follows fuel) .top ss w
  simp only [Watched.interpret, Run.interpret]
  rw [← same]
  cases Watched.program (watcher fuel) .top ss w with
  | ok a w' => exact plain Run.flush w'
  | error stop w' =>
    cases stop with
    | outOfFuel => rfl
    | fault f =>
      have flushed := plain Run.flush w'
      simp only [Watch.forget] at flushed ⊢
      rw [← flushed]
      cases Watched.plain Run.flush w' with
      | ok a w'' => rfl
      | error stop w'' => rfl

end Follows

end Lox
