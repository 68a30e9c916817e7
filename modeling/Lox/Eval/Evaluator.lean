import Lox.Eval.Statement

/-!
# The evaluator

`evaluator n` evaluates trees that are nested, through calls, at most `n` deep and whose loops run
their bodies at most `n` times; a run that needs more is out of fuel. A run that comes to its end
with some fuel ends the same way with more.
-/

namespace Lox

/-- More steps than a run takes before it runs out of memory. -/
def ampleFuel : Nat := 1000000000

/-- Evaluates with a bounded number of nested steps. -/
def evaluator : Nat → Evaluator
  | 0 => { eval := fun _ => Run.outOfFuel, exec := fun _ => Run.outOfFuel }
  | n + 1 =>
    { eval := fun e m => Run.evalWith (evaluator n) e m
      exec := fun s m => Run.execWith n (evaluator n) s m }

namespace Run

/-- Runs the statements of a program one after the other. -/
def program (ev : Evaluator) : List (Stmt Place) → Run Unit
  | [] => pure ()
  | s :: ss => do
    match ← ev.exec s with
    | .normal => program ev ss
    | .returned _ => mismatch .returnAtTopLevel

/-- Runs a program and flushes the sink, also behind a fault. A refused flush takes the place of the
fault. -/
def interpret (fuel : Nat) (statements : List (Stmt Place)) : Run Unit := fun m =>
  match program (evaluator fuel) statements m with
  | .error .outOfFuel m => .error .outOfFuel m
  | .ok _ m => flush m
  | .error (.fault f) m =>
    match flush m with
    | .ok _ m => .error (.fault f) m
    | .error stop m => .error stop m

end Run

end Lox
