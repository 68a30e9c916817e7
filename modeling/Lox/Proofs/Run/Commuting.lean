import Lox.Eval.Evaluator

/-!
# Changes of the machine that a run does not notice

A change of the machine commutes with a part of a run if it makes no difference whether it is made
before or behind that part. The part then gives the same result on the changed machine, and what it
does to the machine does not depend on what the change is about.
-/

namespace Lox.Run

variable {α β : Type}

/-- The result with the machine changed that it leaves. -/
def changed (f : Machine → Machine) : EStateM.Result Stop Machine α → EStateM.Result Stop Machine α
  | .ok a m => .ok a (f m)
  | .error stop m => .error stop (f m)

/-- The change may be made before or behind the part of a run. -/
def Commutes (f : Machine → Machine) (act : Run α) : Prop := ∀ m, act (f m) = changed f (act m)

namespace Commutes

variable {f : Machine → Machine}

theorem pure (a : α) : Commutes f (Pure.pure a : Run α) := fun _ => rfl

theorem fault (cause : Fault) : Commutes f (Run.fault cause : Run α) := fun _ => rfl

theorem outOfFuel : Commutes f (Run.outOfFuel : Run α) := fun _ => rfl

theorem bind {act : Run α} {next : α → Run β} (first : Commutes f act)
    (then_ : ∀ a, Commutes f (next a)) : Commutes f (act >>= next) := by
  intro m
  simp only [Bind.bind, EStateM.bind]
  rw [first m]
  cases act m with
  | ok a m' => exact then_ a m'
  | error stop m' => rfl

/-- What is read off the machine has to be the same behind the change. -/
theorem read {g : Machine → Except Fault α} (same : ∀ m, g (f m) = g m) :
    Commutes f (Run.read g) := by
  intro m
  unfold Run.read
  rw [same m]
  cases g m with
  | ok a => rfl
  | error cause => rfl

theorem ite {b : Bool} {act act' : Run α} (yes : Commutes f act) (no : Commutes f act') :
    Commutes f (if b = true then act else act') := by
  cases b with
  | true => exact yes
  | false => exact no

end Commutes

end Lox.Run
