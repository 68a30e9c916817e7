import Lox.Eval.Evaluator

/-!
# More fuel

A run that comes to its end with some fuel ends in the same way with more. `Lasts act act'` says so
of two parts of runs, of which the second one has the more fuel. `Evaluates` and `Executes` say how
an expression or a statement ends with some fuel, which may be for want of it; if it is not, there
is one way for it to end.
-/

namespace Lox

namespace Run

variable {α β : Type}

/-- The part of a run has come to its end, and has not stopped for want of fuel. -/
def Ended (r : EStateM.Result Stop Machine α) : Prop := ∀ m, r ≠ .error .outOfFuel m

theorem Ended.ok (a : α) (m : Machine) : Ended (.ok a m) := fun _ same => by cases same

theorem Ended.error {β : Type} {stop : Stop} {m : Machine}
    (h : Ended (.error stop m : EStateM.Result Stop Machine α)) (m' : Machine) :
    Ended (.error stop m' : EStateM.Result Stop Machine β) := by
  intro _ same
  cases same
  exact h m rfl

/-- Where the first part of a run comes to its end, the other one ends in the same way. -/
def Lasts (act act' : Run α) : Prop := ∀ m, Ended (act m) → act' m = act m

namespace Lasts

theorem refl (act : Run α) : Lasts act act := fun _ _ => rfl

theorem outOfFuel (act : Run α) : Lasts Run.outOfFuel act :=
  fun m ended => absurd rfl (ended m)

theorem bind {act act' : Run α} {next next' : α → Run β} (first : Lasts act act')
    (rest : ∀ a, Lasts (next a) (next' a)) : Lasts (act >>= next) (act' >>= next') := by
  intro m ended
  simp only [Bind.bind, EStateM.bind] at ended ⊢
  cases result : act m with
  | error stop m' =>
    rw [result] at ended
    have same := first m (by rw [result]; exact ended.error m')
    rw [same, result]
  | ok a m' =>
    rw [result] at ended
    have same := first m (by rw [result]; exact Ended.ok a m')
    rw [same, result]
    exact rest a m' ended

theorem withEnvironment (e : Environment) {act act' : Run α} (inner : Lasts act act') :
    Lasts (Run.withEnvironment e act) (Run.withEnvironment e act') := by
  intro m ended
  unfold Run.withEnvironment at ended ⊢
  dsimp only at ended ⊢
  cases result : act { m with current := e } with
  | error stop m' =>
    rw [result] at ended
    rw [inner _ (by rw [result]; exact ended.error m'), result]
  | ok a m' => rw [inner _ (by rw [result]; exact Ended.ok a m'), result]

theorem ite {b : Bool} {act₁ act₁' act₂ act₂' : Run α} (yes : Lasts act₁ act₁')
    (no : Lasts act₂ act₂') :
    Lasts (if b = true then act₁ else act₂) (if b = true then act₁' else act₂') := by
  cases b with
  | true => exact yes
  | false => exact no

end Lasts

end Run

/-- What comes to its end in the first evaluator ends in the same way in the other one. -/
structure Evaluator.Lasts (ev ev' : Evaluator) : Prop where
  eval : ∀ e, Run.Lasts (ev.eval e) (ev'.eval e)
  exec : ∀ s, Run.Lasts (ev.exec s) (ev'.exec s)

namespace Run.Lasts

variable {ev ev' : Evaluator} (h : ev.Lasts ev')
include h

/-! ## Calls -/

theorem evalAll (es : List (Expr Place)) : Lasts (Run.evalAll ev es) (Run.evalAll ev' es) := by
  induction es with
  | nil => exact refl _
  | cons e es ih => exact (h.eval e).bind fun _ => ih.bind fun _ => refl _

theorem execAll (ss : List (Stmt Place)) : Lasts (Run.execAll ev ss) (Run.execAll ev' ss) := by
  induction ss with
  | nil => exact refl _
  | cons s ss ih =>
    apply (h.exec s).bind
    intro completion
    cases completion with
    | normal => exact ih
    | returned v => exact refl _

theorem callClosure (c : Closure) (arguments : List Value) :
    Lasts (Run.callClosure ev c arguments) (Run.callClosure ev' c arguments) := by
  apply (refl _).bind
  intro e
  exact (withEnvironment e (execAll h c.declaration.body)).bind fun _ => refl _

theorem instantiate (c : Class) (arguments : List Value) :
    Lasts (Run.instantiate ev c arguments) (Run.instantiate ev' c arguments) := by
  apply (refl _).bind
  intro i
  cases c.findMethod? initializerName with
  | none => exact refl _
  | some method =>
    exact (refl _).bind fun bound => (callClosure h bound arguments).bind fun _ => refl _

theorem callValue (callee : Value) (arguments : List Value) (line : Nat) :
    Lasts (Run.callValue ev callee arguments line) (Run.callValue ev' callee arguments line) := by
  cases callee with
  | callable c =>
    unfold Run.callValue
    dsimp only
    split
    · cases c with
      | native f => exact refl _
      | function id c => exact callClosure h c arguments
      | ofClass c => exact instantiate h c arguments
    · exact refl _
  | nil | boolean | number | string | ofInstance => exact refl _

/-! ## Expressions and statements -/

theorem setProperty (object : Value) (name : Name) (value : Expr Place) :
    Lasts (Run.setProperty ev object name value) (Run.setProperty ev' object name value) := by
  cases object with
  | ofInstance i => exact (h.eval value).bind fun _ => refl _
  | nil | boolean | number | string | callable => exact refl _

theorem evalWith (e : Expr Place) : Lasts (Run.evalWith ev e) (Run.evalWith ev' e) := by
  cases e with
  | literal | «variable» | this | super => exact refl _
  | grouping inner => exact h.eval inner
  | unary op line operand => exact (h.eval operand).bind fun _ => refl _
  | binary op line left right =>
    exact (h.eval left).bind fun _ => (h.eval right).bind fun _ => refl _
  | logical op left right =>
    apply (h.eval left).bind
    intro l
    exact ite (refl _) (h.eval right)
  | assign target value => exact (h.eval value).bind fun _ => refl _
  | call callee line arguments =>
    exact (h.eval callee).bind fun f => (evalAll h arguments).bind fun vs => callValue h f vs line
  | get object property => exact (h.eval object).bind fun _ => refl _
  | set object property value =>
    exact (h.eval object).bind fun o => setProperty h o property value

theorem eval? (value : Option (Expr Place)) : Lasts (Run.eval? ev value) (Run.eval? ev' value) := by
  cases value with
  | none => exact refl _
  | some e => exact h.eval e

/-- A loop may need as many units of fuel as it has rounds. -/
theorem loop {n n' : Nat} (le : n ≤ n') (condition : Expr Place) (body : Stmt Place) :
    Lasts (Run.loop ev n condition body) (Run.loop ev' n' condition body) := by
  induction n generalizing n' with
  | zero => exact outOfFuel _
  | succ n ih =>
    obtain ⟨k, rfl⟩ := Nat.exists_eq_add_of_lt le
    apply (h.eval condition).bind
    intro holds
    apply ite
    · apply (h.exec body).bind
      intro completion
      cases completion with
      | normal => exact ih (by omega)
      | returned v => exact refl _
    · exact refl _

theorem choose (condition : Value) (thenBranch : Stmt Place) (elseBranch : Option (Stmt Place)) :
    Lasts (Run.choose ev condition thenBranch elseBranch)
      (Run.choose ev' condition thenBranch elseBranch) := by
  cases elseBranch with
  | none => exact ite (h.exec thenBranch) (refl _)
  | some other => exact ite (h.exec thenBranch) (h.exec other)

theorem execWith {n n' : Nat} (le : n ≤ n') (s : Stmt Place) :
    Lasts (Run.execWith n ev s) (Run.execWith n' ev' s) := by
  cases s with
  | expression value => exact (h.eval value).bind fun _ => refl _
  | print value => exact (h.eval value).bind fun _ => refl _
  | declare name initializer => exact (eval? h initializer).bind fun _ => refl _
  | block body =>
    exact (refl _).bind fun _ => (refl _).bind fun e => withEnvironment e (execAll h body)
  | conditional condition thenBranch elseBranch =>
    exact (h.eval condition).bind fun v => choose h v thenBranch elseBranch
  | loop condition body => exact loop h le condition body
  | ret line value => exact (eval? h value).bind fun _ => refl _
  | function | classDecl => exact refl _

end Run.Lasts

/-- **What comes to its end with some fuel ends in the same way with more.** -/
theorem evaluator_lasts {n n' : Nat} (le : n ≤ n') : (evaluator n).Lasts (evaluator n') := by
  induction n generalizing n' with
  | zero => exact ⟨fun _ => .outOfFuel _, fun _ => .outOfFuel _⟩
  | succ n ih =>
    obtain ⟨k, rfl⟩ := Nat.exists_eq_add_of_lt le
    have more : n ≤ n + k := Nat.le_add_right n k
    exact ⟨fun e => Run.Lasts.evalWith (ih more) e, fun s => Run.Lasts.execWith (ih more) more s⟩

/-! ## How parts of a program end -/

/-- With some fuel, the expression ends in this way on the machine. -/
def Expr.Evaluates (e : Expr Place) (m : Machine) (r : EStateM.Result Stop Machine Value) : Prop :=
  ∃ n, (evaluator n).eval e m = r

/-- With some fuel, the statement ends in this way on the machine. -/
def Stmt.Executes (s : Stmt Place) (m : Machine) (r : EStateM.Result Stop Machine Completion) :
    Prop :=
  ∃ n, (evaluator n).exec s m = r

section

variable {m : Machine}

theorem Expr.Evaluates.with {e : Expr Place} {r : EStateM.Result Stop Machine Value}
    (h : e.Evaluates m r) (ended : Run.Ended r) :
    ∃ n, ∀ n', n ≤ n' → (evaluator n').eval e m = r := by
  obtain ⟨n, rfl⟩ := h
  exact ⟨n, fun n' le => (evaluator_lasts le).eval e m ended⟩

theorem Stmt.Executes.with {s : Stmt Place} {r : EStateM.Result Stop Machine Completion}
    (h : s.Executes m r) (ended : Run.Ended r) :
    ∃ n, ∀ n', n ≤ n' → (evaluator n').exec s m = r := by
  obtain ⟨n, rfl⟩ := h
  exact ⟨n, fun n' le => (evaluator_lasts le).exec s m ended⟩

end

end Lox
