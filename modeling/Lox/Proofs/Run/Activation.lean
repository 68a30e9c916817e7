import Lox.Proofs.Run.ActiveScope

/-!
# Activations

An activation is one run of the statements of a function's body. `tracer` runs statements as the
evaluator does and records beside that the steps that the activation itself takes: the statements
that begin in it and the expressions that they have evaluated, the conditions of branches and the
tests of loops among them. What the functions do that it calls is not on record.

A `return` is the last statement of its activation that begins (`EndsAtReturn`): nothing but its
value is evaluated after it, whatever blocks, branches and loops it stands in.
-/

namespace Lox

/-- A step that an activation takes. -/
inductive Step where
  /-- A statement begins. -/
  | begins (s : Stmt Place)
  /-- An expression of a statement is about to be evaluated. -/
  | evaluates (e : Expr Place)
  /-- A `return` has its value. -/
  | returns (v : Value)

/-- What is kept of an activation. -/
structure Trace where
  machine : Machine
  /-- The steps so far, in order. -/
  steps : List Step

/-- A part of an activation. -/
abbrev Traced := EStateM Stop Trace

namespace Traced

/-- Takes no step of the activation. -/
def plain {α : Type} (act : Run α) : Traced α := fun t =>
  match act t.machine with
  | .ok a m => .ok a { t with machine := m }
  | .error stop m => .error stop { t with machine := m }

/-- Records a step. -/
def step (s : Step) : Traced Unit := fun t => .ok () { t with steps := t.steps ++ [s] }

/-- Runs something in another scope. -/
def withEnvironment {α : Type} (e : Environment) (act : Traced α) : Traced α := fun t =>
  let previous := t.machine.current
  match act { t with machine := { t.machine with current := e } } with
  | .ok a t => .ok a { t with machine := { t.machine with current := previous } }
  | .error stop t => .error stop { t with machine := { t.machine with current := previous } }

/-- The value of an expression of a statement. -/
def value (ev : Evaluator) (e : Expr Place) : Traced Value := do
  step (.evaluates e)
  plain (ev.eval e)

/-- The value of an expression; without one, `nil`. -/
def value? (ev : Evaluator) : Option (Expr Place) → Traced Value
  | some e => value ev e
  | none => return .nil

/-- How statements are run in an activation. -/
abbrev Executor := Stmt Place → Traced Completion

/-- Runs statements one after the other, up to one that returns. -/
def execAll (x : Executor) : List (Stmt Place) → Traced Completion
  | [] => pure .normal
  | s :: ss => do
    match ← x s with
    | .normal => execAll x ss
    | .returned v => return .returned v

/-- Runs the body as long as the condition holds, at most `n` times. -/
def loop (ev : Evaluator) (x : Executor) : (n : Nat) → Expr Place → Stmt Place → Traced Completion
  | 0, _, _ => plain Run.outOfFuel
  | n + 1, condition, body => do
    let holds ← value ev condition
    if holds.isTruthy then
      match ← x body with
      | .normal => loop ev x n condition body
      | .returned v => return .returned v
    else return .normal

/-- Runs one of two statements. -/
def choose (x : Executor) (condition : Value) (thenBranch : Stmt Place) :
    Option (Stmt Place) → Traced Completion
  | some elseBranch => if condition.isTruthy then x thenBranch else x elseBranch
  | none => if condition.isTruthy then x thenBranch else return .normal

/-- Runs a statement whose expressions `ev` evaluates and whose statements `x` runs. -/
def execWith (n : Nat) (ev : Evaluator) (x : Executor) : Executor
  | .expression e => do
    let _ ← value ev e
    return .normal
  | .print e => do
    let v ← value ev e
    plain (Run.write (v.text ++ "\n"))
    return .normal
  | .declare name initializer => do
    let v ← value? ev initializer
    plain (Run.define name.text v)
    return .normal
  | .block body => do
    let e ← plain (do Run.newFrame (← Run.current) Bindings.empty)
    withEnvironment e (execAll x body)
  | .conditional condition thenBranch elseBranch => do
    let v ← value ev condition
    choose x v thenBranch elseBranch
  | .loop condition body => loop ev x n condition body
  | .function declaration => do
    plain (do
      let f ← Run.newFunction ⟨declaration, ← Run.current, false⟩
      Run.define declaration.name.text f)
    return .normal
  | .ret _ e => do
    let v ← value? ev e
    step (.returns v)
    return .returned v
  | .classDecl name superclass methods => do
    plain (Run.declareClass name superclass methods)
    return .normal

end Traced

/-- Runs a statement as `evaluator n` does and records the steps. -/
def tracer : Nat → Traced.Executor
  | 0 => fun _ => Traced.plain Run.outOfFuel
  | n + 1 => fun s => do
    Traced.step (.begins s)
    Traced.execWith n (evaluator n) (tracer n) s

/-! ## The same results -/

/-- What is left of an activation without its steps. -/
def Trace.forget {α : Type} : EStateM.Result Stop Trace α → EStateM.Result Stop Machine α
  | .ok a t => .ok a t.machine
  | .error stop t => .error stop t.machine

/-- The activation does what the run does. -/
def Traced.Is {α : Type} (t : Traced α) (r : Run α) : Prop :=
  ∀ w, Trace.forget (t w) = r w.machine

namespace Traced.Is

variable {α β : Type}

theorem pure (a : α) : Traced.Is (Pure.pure a) (Pure.pure a) := fun _ => rfl

theorem bind {t : Traced α} {r : Run α} {f : α → Traced β} {g : α → Run β}
    (first : t.Is r) (next : ∀ a, (f a).Is (g a)) : Traced.Is (t >>= f) (r >>= g) := by
  intro w
  have same := first w
  simp only [Bind.bind, EStateM.bind]
  rw [← same]
  cases t w with
  | ok a w' => exact next a w'
  | error stop w' => rfl

theorem plain (act : Run α) : (Traced.plain act).Is act := by
  intro w
  unfold Traced.plain
  cases act w.machine with
  | ok a m => rfl
  | error stop m => rfl

theorem step (s : Step) {f : Unit → Traced β} {r : Run β} (next : (f ()).Is r) :
    Traced.Is (Traced.step s >>= f) r :=
  fun w => next { w with steps := w.steps ++ [s] }

theorem withEnvironment {e : Environment} {t : Traced α} {r : Run α} (inner : t.Is r) :
    (Traced.withEnvironment e t).Is (Run.withEnvironment e r) := by
  intro w
  have same := inner { w with machine := { w.machine with current := e } }
  unfold Traced.withEnvironment Run.withEnvironment
  dsimp only
  rw [← same]
  cases t { w with machine := { w.machine with current := e } } with
  | ok a w' => rfl
  | error stop w' => rfl

theorem value (ev : Evaluator) (e : Expr Place) : (Traced.value ev e).Is (ev.eval e) :=
  step _ (plain _)

theorem value? (ev : Evaluator) (e? : Option (Expr Place)) :
    (Traced.value? ev e?).Is (Run.eval? ev e?) := by
  cases e? with
  | none => exact pure _
  | some e => exact value ev e

variable {ev : Evaluator} {x : Executor} (h : ∀ s, (x s).Is (ev.exec s))
include h

theorem execAll (ss : List (Stmt Place)) : (Traced.execAll x ss).Is (Run.execAll ev ss) := by
  induction ss with
  | nil => exact pure _
  | cons s ss ih =>
    apply (h s).bind
    intro completion
    cases completion with
    | normal => exact ih
    | returned v => exact pure _

theorem loop (n : Nat) (condition : Expr Place) (body : Stmt Place) :
    (Traced.loop ev x n condition body).Is (Run.loop ev n condition body) := by
  induction n with
  | zero => exact plain _
  | succ n ih =>
    apply (value ev condition).bind
    intro holds
    split
    · apply (h body).bind
      intro completion
      cases completion with
      | normal => exact ih
      | returned v => exact pure _
    · exact pure _

theorem choose (condition : Value) (thenBranch : Stmt Place) (elseBranch : Option (Stmt Place)) :
    (Traced.choose x condition thenBranch elseBranch).Is
      (Run.choose ev condition thenBranch elseBranch) := by
  unfold Traced.choose Run.choose
  cases elseBranch with
  | none =>
    dsimp only
    split
    · exact h thenBranch
    · exact pure _
  | some other =>
    dsimp only
    split
    · exact h thenBranch
    · exact h other

theorem execWith (n : Nat) (s : Stmt Place) :
    (Traced.execWith n ev x s).Is (Run.execWith n ev s) := by
  cases s with
  | expression e => exact (value ev e).bind fun _ => pure _
  | print e => exact (value ev e).bind fun v => (plain _).bind fun _ => pure _
  | declare name initializer =>
    exact (value? ev initializer).bind fun v => (plain _).bind fun _ => pure _
  | block body => exact (plain _).bind fun e => withEnvironment (execAll h body)
  | conditional condition thenBranch elseBranch =>
    exact (value ev condition).bind fun v => choose h v thenBranch elseBranch
  | loop condition body => exact loop h n condition body
  | function declaration => exact (plain _).bind fun _ => pure _
  | ret line e? => exact (value? ev e?).bind fun v => step _ (pure _)
  | classDecl name superclass methods => exact (plain _).bind fun _ => pure _

end Traced.Is

/-- **A traced statement does what the statement does.** -/
theorem tracer_is (n : Nat) (s : Stmt Place) : (tracer n s).Is ((evaluator n).exec s) := by
  induction n generalizing s with
  | zero => exact .plain Run.outOfFuel
  | succ n ih => exact .step _ (Traced.Is.execWith ih n s)

/-! ## The last statement -/

namespace Step

/-- The step belongs to a `return`. -/
def isReturn : Step → Bool
  | begins (.ret _ _) => true
  | returns _ => true
  | _ => false

/-- The steps of a `return` up to its value. -/
def ofReturn (line : Nat) (value : Option (Expr Place)) : List Step :=
  begins (.ret line value) :: value.toList.map evaluates

/-- None of the steps belongs to a `return`. -/
def NoReturn (steps : List Step) : Prop := ∀ s ∈ steps, s.isReturn = false

theorem NoReturn.append {steps more : List Step} (h : NoReturn steps) (h' : NoReturn more) :
    NoReturn (steps ++ more) := by
  intro s mem
  rcases List.mem_append.1 mem with mem | mem
  · exact h s mem
  · exact h' s mem

end Step

open Step (NoReturn ofReturn)

/-- From `w` on, only steps have been taken that belong to no `return`. -/
def Trace.NoReturnSince (w w' : Trace) : Prop :=
  ∃ steps, NoReturn steps ∧ w'.steps = w.steps ++ steps

/-- From `w` on, a `return` has come to its value, and nothing has happened since. -/
def Trace.ReturnedSince (w : Trace) (v : Value) (w' : Trace) : Prop :=
  ∃ before line value, NoReturn before ∧
    w'.steps = w.steps ++ before ++ ofReturn line value ++ [.returns v] ∧
      ∃ n m m', Run.eval? (evaluator n) value m = .ok v m' ∧
        w'.machine = m'.inScope w'.machine.current

/-- From `w` on, the last statement to begin may have been a `return` that has not come to its
value. -/
def Trace.StoppedSince (w w' : Trace) : Prop :=
  w.NoReturnSince w' ∨ ∃ before line value, NoReturn before ∧
    w'.steps = w.steps ++ before ++ ofReturn line value

/-- How a part of an activation ends that begins at `w`: with a `return` if one of its statements
was one, which then was the last one to begin, and without one otherwise. -/
def Trace.EndsAtReturn (w : Trace) : EStateM.Result Stop Trace Completion → Prop
  | .ok .normal w' => w.NoReturnSince w'
  | .ok (.returned v) w' => w.ReturnedSince v w'
  | .error _ w' => w.StoppedSince w'

namespace Trace

variable {w w' w'' : Trace} {v : Value}

theorem NoReturnSince.refl (w : Trace) : w.NoReturnSince w :=
  ⟨[], by simp [NoReturn], by simp⟩

theorem NoReturnSince.trans (first : w.NoReturnSince w') (second : w'.NoReturnSince w'') :
    w.NoReturnSince w'' := by
  obtain ⟨steps, quiet, eq⟩ := first
  obtain ⟨more, quiet', eq'⟩ := second
  exact ⟨steps ++ more, quiet.append quiet', by rw [eq', eq, List.append_assoc]⟩

theorem NoReturnSince.returned (first : w.NoReturnSince w') (second : w'.ReturnedSince v w'') :
    w.ReturnedSince v w'' := by
  obtain ⟨steps, quiet, eq⟩ := first
  obtain ⟨before, line, value, quiet', eq', rest⟩ := second
  refine ⟨steps ++ before, line, value, quiet.append quiet', ?_, rest⟩
  rw [eq', eq, List.append_assoc w.steps]

theorem NoReturnSince.stopped (first : w.NoReturnSince w') (second : w'.StoppedSince w'') :
    w.StoppedSince w'' := by
  rcases second with quiet | ⟨before, line, value, quiet', eq'⟩
  · exact .inl (first.trans quiet)
  · obtain ⟨steps, quiet, eq⟩ := first
    refine .inr ⟨steps ++ before, line, value, quiet.append quiet', ?_⟩
    rw [eq', eq, List.append_assoc w.steps]

end Trace

namespace Traced

variable {α β : Type}

/-- The part of an activation takes no step that belongs to a `return`. -/
def Quiet (t : Traced α) : Prop := ∀ w,
  match t w with
  | .ok _ w' => w.NoReturnSince w'
  | .error _ w' => w.NoReturnSince w'

/-- A `return` ends the part of an activation. -/
def Contained (t : Traced Completion) : Prop := ∀ w : Trace, w.EndsAtReturn (t w)

namespace Quiet

theorem pure (a : α) : Quiet (Pure.pure a : Traced α) := fun w => .refl w

theorem plain (act : Run α) : Quiet (Traced.plain act) := by
  intro w
  unfold Traced.plain
  cases act w.machine with
  | ok a m => exact .refl w
  | error stop m => exact .refl w

theorem step {s : Step} (other : s.isReturn = false) : Quiet (Traced.step s) := by
  intro w
  exact ⟨[s], by simpa [NoReturn] using other, rfl⟩

theorem bind {t : Traced α} {f : α → Traced β} (first : Quiet t) (next : ∀ a, Quiet (f a)) :
    Quiet (t >>= f) := by
  intro w
  have before := first w
  simp only [Bind.bind, EStateM.bind]
  cases result : t w with
  | error stop w' =>
    rw [result] at before
    exact before
  | ok a w' =>
    rw [result] at before
    have after := next a w'
    dsimp only at before ⊢
    cases result' : f a w' with
    | ok b w'' =>
      rw [result'] at after
      exact before.trans after
    | error stop w'' =>
      rw [result'] at after
      exact before.trans after

theorem value (ev : Evaluator) (e : Expr Place) : Quiet (Traced.value ev e) :=
  (step rfl).bind fun _ => plain _

theorem value? (ev : Evaluator) (e? : Option (Expr Place)) : Quiet (Traced.value? ev e?) := by
  cases e? with
  | none => exact pure _
  | some e => exact value ev e

end Quiet

namespace Contained

theorem normal : Contained (Pure.pure .normal) := fun w => Trace.NoReturnSince.refl w

/-- What comes before a part may take other steps. -/
theorem after {t : Traced α} {f : α → Traced Completion} (first : Quiet t)
    (next : ∀ a, Contained (f a)) : Contained (t >>= f) := by
  intro w
  have before := first w
  simp only [Bind.bind, EStateM.bind]
  cases result : t w with
  | error stop w' =>
    rw [result] at before
    exact .inl before
  | ok a w' =>
    rw [result] at before
    have after := next a w'
    dsimp only at before ⊢
    cases result' : f a w' with
    | error stop w'' =>
      rw [result'] at after
      exact before.stopped after
    | ok completion w'' =>
      rw [result'] at after
      cases completion with
      | normal => exact before.trans after
      | returned v => exact before.returned after

/-- What follows a part runs only if that has not returned. -/
theorem bind {t : Traced Completion} {f : Completion → Traced Completion} (first : Contained t)
    (next : Contained (f .normal)) (ends : ∀ v, f (.returned v) = Pure.pure (.returned v)) :
    Contained (t >>= f) := by
  intro w
  have before := first w
  simp only [Bind.bind, EStateM.bind]
  cases result : t w with
  | error stop w' =>
    rw [result] at before
    exact before
  | ok completion w' =>
    rw [result] at before
    cases completion with
    | returned v =>
      dsimp only
      rw [ends v]
      exact before
    | normal =>
      have before : w.NoReturnSince w' := before
      have after := next w'
      dsimp only
      cases result' : f .normal w' with
      | error stop w'' =>
        rw [result'] at after
        exact before.stopped after
      | ok completion w'' =>
        rw [result'] at after
        cases completion with
        | normal => exact before.trans after
        | returned v => exact before.returned after

theorem stops (act : Run Completion) (never : ∀ m, ∃ stop, act m = .error stop m) :
    Contained (Traced.plain act) := by
  intro w
  obtain ⟨stop, result⟩ := never w.machine
  simp only [Traced.plain, result]
  exact .inl (.refl w)

/-- The scope that is active is no step. -/
theorem withEnvironment {e : Environment} {t : Traced Completion} (inner : Contained t) :
    Contained (Traced.withEnvironment e t) := by
  intro w
  have ends := inner { w with machine := { w.machine with current := e } }
  unfold Traced.withEnvironment
  dsimp only
  cases result : t { w with machine := { w.machine with current := e } } with
  | error stop w' =>
    rw [result] at ends
    exact ends
  | ok completion w' =>
    rw [result] at ends
    cases completion with
    | normal => exact ends
    | returned v =>
      obtain ⟨before, line, value, quiet, eq, n, m, m', evaluated, same⟩ := ends
      have moved : w'.machine.inScope w.machine.current = m'.inScope w.machine.current := by
        rw [same]
        rfl
      exact ⟨before, line, value, quiet, eq, n, m, m', evaluated, moved⟩

variable {ev : Evaluator} {x : Executor} (h : ∀ s, Contained (x s))
include h

theorem execAll (ss : List (Stmt Place)) : Contained (Traced.execAll x ss) := by
  induction ss with
  | nil => exact normal
  | cons s ss ih => exact (h s).bind ih fun _ => rfl

theorem loop (n : Nat) (condition : Expr Place) (body : Stmt Place) :
    Contained (Traced.loop ev x n condition body) := by
  induction n with
  | zero => exact stops _ fun m => ⟨.outOfFuel, rfl⟩
  | succ n ih =>
    apply after (Quiet.value ev condition)
    intro holds
    split
    · exact (h body).bind ih fun _ => rfl
    · exact normal

theorem choose (condition : Value) (thenBranch : Stmt Place) (elseBranch : Option (Stmt Place)) :
    Contained (Traced.choose x condition thenBranch elseBranch) := by
  unfold Traced.choose
  cases elseBranch with
  | none =>
    dsimp only
    split
    · exact h thenBranch
    · exact normal
  | some other =>
    dsimp only
    split
    · exact h thenBranch
    · exact h other

/-- A statement other than a `return` takes steps of its own, and those of the statements in it. -/
theorem execWith (n : Nat) {s : Stmt Place} (other : (Step.begins s).isReturn = false) :
    Contained (Traced.execWith n ev x s) := by
  cases s with
  | expression e => exact after (Quiet.value ev e) fun _ => normal
  | print e => exact after (Quiet.value ev e) fun v => after (.plain _) fun _ => normal
  | declare name initializer =>
    exact after (Quiet.value? ev initializer) fun v => after (.plain _) fun _ => normal
  | block body => exact after (.plain _) fun e => withEnvironment (execAll h body)
  | conditional condition thenBranch elseBranch =>
    exact after (Quiet.value ev condition) fun v => choose h v thenBranch elseBranch
  | loop condition body => exact loop h n condition body
  | function declaration => exact after (.plain _) fun _ => normal
  | ret line e? => simp [Step.isReturn] at other
  | classDecl name superclass methods => exact after (.plain _) fun _ => normal

end Contained

/-- A `return` evaluates its value and ends there. -/
theorem ret_endsAtReturn (n : Nat) (line : Nat) (value : Option (Expr Place)) (w : Trace) :
    w.EndsAtReturn (tracer (n + 1) (.ret line value) w) := by
  have none' : NoReturn [] := by simp [NoReturn]
  cases value with
  | none =>
    refine ⟨[], line, none, none', ?_, n, w.machine, w.machine, rfl, rfl⟩
    simp [ofReturn]
  | some e =>
    simp only [tracer, Traced.execWith, Traced.value?, Traced.value, Traced.step, Traced.plain,
      Bind.bind, EStateM.bind]
    cases result : (evaluator n).eval e w.machine with
    | error stop m => exact .inr ⟨[], line, some e, none', by simp [ofReturn]⟩
    | ok v m =>
      refine ⟨[], line, some e, none', ?_, n, w.machine, m, result, rfl⟩
      simp [ofReturn]

end Traced

/-- **A `return` is the last statement of its activation to begin.** -/
theorem tracer_contained (n : Nat) (s : Stmt Place) : Traced.Contained (tracer n s) := by
  induction n generalizing s with
  | zero => exact .stops _ fun m => ⟨.outOfFuel, rfl⟩
  | succ n ih =>
    by_cases isReturn : (Step.begins s).isReturn = true
    · cases s with
      | ret line value => exact Traced.ret_endsAtReturn n line value
      | expression | print | declare | block | conditional | loop | function | classDecl =>
        simp [Step.isReturn] at isReturn
    · have other : (Step.begins s).isReturn = false := by simpa using isReturn
      apply Traced.Contained.after (.step other)
      intro _
      exact Traced.Contained.execWith ih n other

/-! ## Calls -/

namespace Closure

/-- The machine on which the body of the function begins to run. -/
def entered (c : Closure) (arguments : List Value) (m : Machine) : Machine :=
  { m with
    store := m.store.pushFrame (Run.parameters c.declaration.params arguments)
    current := ⟨m.store.frames.size, c.environment.path⟩ }

/-- The activation of the function that a call on this machine begins. -/
def activation (c : Closure) (n : Nat) (arguments : List Value) (m : Machine) :
    EStateM.Result Stop Trace Completion :=
  Traced.execAll (tracer n) c.declaration.body ⟨c.entered arguments m, []⟩

/-- What the call gives whose activation ends so, and the machine that it leaves: the caller's scope
is active again, and nothing else happens any more. -/
def leave (c : Closure) (caller : Environment) :
    EStateM.Result Stop Trace Completion → EStateM.Result Stop Machine Value
  | .error stop t => .error stop (t.machine.inScope caller)
  | .ok completion t =>
    if c.isInitializer then
      Run.read (fun m => m.store.getAt c.environment 0 thisName) (t.machine.inScope caller)
    else .ok completion.value (t.machine.inScope caller)

/-- An activation is a run of the body. -/
theorem activation_forget (c : Closure) (n : Nat) (arguments : List Value) (m : Machine) :
    Trace.forget (c.activation n arguments m) =
      Run.execAll (evaluator n) c.declaration.body (c.entered arguments m) :=
  Traced.Is.execAll (tracer_is n) c.declaration.body ⟨c.entered arguments m, []⟩

/-- All scopes that are opened in an activation are left when it ends. -/
theorem activation_current (c : Closure) (n : Nat) (arguments : List Value) (m : Machine) :
    (Run.left (Trace.forget (c.activation n arguments m))).current =
      (c.entered arguments m).current := by
  rw [activation_forget]
  exact Run.current_uniform.execAll (evaluator_restores n) c.declaration.body _

/-- A call is an activation of the function, and its value that of the activation. -/
theorem call_eq_leave (c : Closure) (n : Nat) (arguments : List Value) (m : Machine) :
    Run.callClosure (evaluator n) c arguments m =
      c.leave m.current (c.activation n arguments m) := by
  have same := c.activation_forget n arguments m
  simp only [entered] at same
  simp only [Run.callClosure, Run.execIn, Run.newFrame, Run.withEnvironment, Bind.bind,
    EStateM.bind]
  rw [← same]
  cases c.activation n arguments m with
  | error stop t => rfl
  | ok completion t =>
    simp only [Trace.forget, leave]
    split
    · rfl
    · rfl

end Closure

end Lox
