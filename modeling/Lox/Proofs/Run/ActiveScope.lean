import Lox.Proofs.Run.Commuting
import Lox.Proofs.Run.Preserved
import Lox.Proofs.Session.Requests

/-!
# The active scope

However a part of a run ends, it leaves the scope active that was active when it began. Only
`withEnvironment` changes the active scope, and it changes it back on every way out, so nothing has
to be known of what runs inside. What a call does does not depend on the scope
that is active where it is made: of all that a call runs, only a body looks at that scope, and the
body has been given one of its own.
-/

namespace Lox

/-! ## Parts of a run -/

/-- Whatever runs in another scope, this one is active again behind it. -/
theorem Run.withEnvironment_current {α : Type} (e : Environment) (act : Run α) :
    Run.Preserves Machine.current (Run.withEnvironment e act) := by
  intro m
  unfold Run.withEnvironment
  dsimp only
  cases act { m with current := e } with
  | ok a m' => rfl
  | error stop m' => rfl

theorem Run.current_uniform : Uniform (Run.Preserves Machine.current) :=
  Run.Preserves.uniform (fun _ _ => rfl) (fun _ => rfl) (fun _ _ => rfl) (fun _ _ => rfl)
    fun e act _ => Run.withEnvironment_current e act

/-- Whatever is evaluated with any fuel, the scope that was active is active again behind it. -/
theorem evaluator_restores (n : Nat) : (evaluator n).Has (Run.Preserves Machine.current) :=
  Run.current_uniform.evaluator n

/-! ## Sessions -/

theorem Session.perform_current {α : Type} (s : Session) {act : Run α}
    (restores : Run.Preserves Machine.current act) :
    (s.perform act).2.machine.current = s.machine.current := by
  have restored := restores s.machine
  unfold Session.perform
  cases result : act s.machine with
  | ok a m =>
    rw [result] at restored
    exact restored
  | error stop m =>
    rw [result] at restored
    exact restored

/-- Whatever is asked of a session, and however it ends, the scope that was active is active
again. -/
theorem Session.serve_current (s : Session) (r : Request) :
    (s.serve r).2.machine.current = s.machine.current := by
  cases r with
  | run fuel source =>
    simp only [Session.serve, Session.run]
    cases checkProgram (readProgram source s.nextRef) with
    | error reports => rfl
    | ok statements => exact Session.perform_current _ (.interpret Run.current_uniform fuel _)
  | evaluate fuel source =>
    simp only [Session.serve, Session.evaluate]
    cases checkExpression (readExpression source s.nextRef) with
    | error reports => rfl
    | ok e => exact Session.perform_current _ ((evaluator_restores fuel).eval _)
  | check source | takeOutput | setClock clock => rfl

theorem Session.after_current (s : Session) (requests : List Request) :
    (s.after requests).machine.current = s.machine.current := by
  induction requests generalizing s with
  | nil => rfl
  | cons r rest ih => exact (ih (s.serve r).2).trans (s.serve_current r)

/-! ## Calls -/

/-- The machine with another scope active. -/
def Machine.inScope (e : Environment) (m : Machine) : Machine := { m with current := e }

namespace Run.Commutes

variable {e : Environment}

/-- What runs in a scope of its own does not notice which one is active around it. -/
theorem withEnvironment {α : Type} (inner : Environment) (act : Run α) :
    Commutes (Machine.inScope e) (Run.withEnvironment inner act) := by
  intro m
  unfold Run.withEnvironment Machine.inScope
  dsimp only
  cases act { m with current := inner } with
  | ok a m' => rfl
  | error stop m' => rfl

theorem bindMethod (method : Closure) (i : Instance) :
    Commutes (Machine.inScope e) (Run.bindMethod method i) := fun _ => rfl

theorem callClosure (ev : Evaluator) (c : Closure) (arguments : List Value) :
    Commutes (Machine.inScope e) (Run.callClosure ev c arguments) := by
  apply Commutes.bind (fun _ => rfl)
  intro frame
  apply (withEnvironment frame _).bind
  intro completion
  exact ite (read fun _ => rfl) (pure _)

theorem instantiate (ev : Evaluator) (c : Class) (arguments : List Value) :
    Commutes (Machine.inScope e) (Run.instantiate ev c arguments) := by
  apply Commutes.bind (fun _ => rfl)
  intro i
  cases c.findMethod? initializerName with
  | none => exact pure _
  | some method =>
    apply (bindMethod method i).bind
    intro bound
    exact (callClosure ev bound arguments).bind fun _ => pure _

/-- A call does the same whatever scope is active where it is made. -/
theorem callValue (ev : Evaluator) (callee : Value) (arguments : List Value) (line : Nat) :
    Commutes (Machine.inScope e) (Run.callValue ev callee arguments line) := by
  cases callee with
  | callable c =>
    unfold Run.callValue
    dsimp only
    split
    · cases c with
      | native f =>
        cases f with
        | clock => exact fun _ => rfl
      | function id c => exact callClosure ev c arguments
      | ofClass c => exact instantiate ev c arguments
    · exact fault _
  | nil | boolean | number | string | ofInstance => exact fault _

end Run.Commutes

/-- **The active scope is restored, and calls do not see their caller's.** On any machine and with
any fuel, whatever is evaluated or run and however it ends, the scope that was active is active
again; so the globals are behind each request to a session. What a call does to the rest of the
machine and what it gives are the same whatever scope is active where it is made. -/
theorem active_scope_restored (fuel : Nat) :
    (∀ e m, (Run.left ((evaluator fuel).eval e m)).current = m.current) ∧
      (∀ s m, (Run.left ((evaluator fuel).exec s m)).current = m.current) ∧
      (∀ sink clock requests,
        ((Session.start sink clock).after requests).machine.current = .globals) ∧
      ∀ callee arguments line e m,
        Run.callValue (evaluator fuel) callee arguments line (m.inScope e) =
          Run.changed (Machine.inScope e)
            (Run.callValue (evaluator fuel) callee arguments line m) := by
  refine ⟨fun e m => ?_, fun s m => ?_, fun sink clock requests => ?_,
    fun callee arguments line e m => ?_⟩
  · exact (evaluator_restores fuel).eval e m
  · exact (evaluator_restores fuel).exec s m
  · exact Session.after_current _ requests
  · exact Run.Commutes.callValue (evaluator fuel) callee arguments line m

end Lox
