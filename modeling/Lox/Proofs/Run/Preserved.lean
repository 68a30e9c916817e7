import Lox.Proofs.Run.Uniform

/-!
# What no run changes

`Preserves f` says of a part of a run that `f` of the machine is the same behind it, however it ends.
Steps change the store, the clock and what has been asked of the sink, and another scope may be
active for a while. So what does not look at the former, and survives the latter, is the same behind
all that is evaluated or run.
-/

namespace Lox

namespace Run

variable {α β γ : Type}

/-- The machine that a part of a run leaves, however it ends. -/
def left : EStateM.Result Stop Machine α → Machine
  | .ok _ m => m
  | .error _ m => m

/-- Behind a program that has not run out of fuel the sink is flushed. -/
theorem left_interpret (fuel : Nat) (ss : List (Stmt Place)) (m : Machine) :
    let ran := left (program (evaluator fuel) ss m)
    left (interpret fuel ss m) = ran ∨ left (interpret fuel ss m) = left (flush ran) := by
  unfold interpret
  cases program (evaluator fuel) ss m with
  | ok _ m' => exact .inr rfl
  | error stop m' =>
    cases stop with
    | outOfFuel => exact .inl rfl
    | fault f =>
      right
      dsimp only [left]
      cases flush m' <;> rfl

/-- However the part of a run ends, this is the same of the machine that it leaves. -/
def Preserves (f : Machine → γ) (act : Run α) : Prop := ∀ m, f (left (act m)) = f m

namespace Preserves

variable {f : Machine → γ}

theorem pure (a : α) : Preserves f (Pure.pure a : Run α) := fun _ => rfl

theorem fault (cause : Fault) : Preserves f (Run.fault cause : Run α) := fun _ => rfl

theorem outOfFuel : Preserves f (Run.outOfFuel : Run α) := fun _ => rfl

theorem bind {act : Run α} {next : α → Run β} (first : Preserves f act)
    (then_ : ∀ a, Preserves f (next a)) : Preserves f (act >>= next) := by
  intro m
  have before := first m
  simp only [Bind.bind, EStateM.bind]
  cases result : act m with
  | ok a m' =>
    rw [result] at before
    exact (then_ a m').trans before
  | error stop m' =>
    rw [result] at before
    exact before

theorem read (g : Machine → Except Fault α) : Preserves f (Run.read g) := by
  intro m
  unfold Run.read
  cases g m with
  | ok a => rfl
  | error cause => rfl

section

variable (store : ∀ m s, f { m with store := s } = f m)
include store

theorem assign (e : Environment) (name : Name) (v : Value) :
    Preserves f (Run.assign e name v) := by
  intro m
  unfold Run.assign
  cases m.store.assign e name v with
  | ok s => exact store m s
  | error cause => rfl

theorem assignAt (hops : Nat) (name : String) (v : Value) :
    Preserves f (Run.assignAt hops name v) := by
  intro m
  unfold Run.assignAt
  cases m.store.assignAt m.current hops name v with
  | ok s => exact store m s
  | error cause => rfl

end

theorem write (asked : ∀ m, f { m with sink := m.sink.asked } = f m)
    (take : ∀ m text, f { m with sink := m.sink.take text } = f m) (text : String) :
    Preserves f (Run.write text) := by
  intro m
  unfold Run.write
  cases m.sink.refusal .write m.sink.requests with
  | some message => exact asked m
  | none => exact take m text

theorem flush (asked : ∀ m, f { m with sink := m.sink.asked } = f m) :
    Preserves f Run.flush := by
  intro m
  unfold Run.flush
  cases m.sink.refusal .flush m.sink.requests with
  | some message => exact asked m
  | none => exact asked m

/-- No part of a run changes what looks at neither of the store, the requests to the sink and the
clock. -/
theorem uniform (store : ∀ m s, f { m with store := s } = f m)
    (asked : ∀ m, f { m with sink := m.sink.asked } = f m)
    (take : ∀ m text, f { m with sink := m.sink.take text } = f m)
    (clock : ∀ m c, f { m with clock := c } = f m)
    (within : ∀ {α : Type} (e : Environment) {act : Run α}, Preserves f act →
      Preserves f (Run.withEnvironment e act)) :
    Uniform (Preserves f) where
  pure := pure
  bind := bind
  fault := fault
  outOfFuel := outOfFuel
  read _ := read _
  current _ := rfl
  withEnvironment := within
  newFrame _ _ m := store m _
  newInstance _ m := store m _
  newObject m := store m _
  define _ _ m := store m _
  assign := assign store
  assignAt := assignAt store
  setField _ _ _ m := store m _
  write := write asked take
  flush := flush asked
  readClock m := clock m _

/-- It is the same behind a program, whether its sink can be flushed or not. -/
theorem interpret (u : Uniform (Preserves f)) (fuel : Nat) (ss : List (Stmt Place)) :
    Preserves f (Run.interpret fuel ss) := by
  intro m
  have ran := u.program (u.evaluator fuel) ss m
  rcases left_interpret fuel ss m with same | flushed
  · rw [same]
    exact ran
  · rw [flushed]
    exact (u.flush _).trans ran

end Preserves

end Run

end Lox
