import Lox.Proofs.Run.Commuting
import Lox.Proofs.Run.Preserved

/-!
# Programs in parts

A program of two parts runs the second one on the machine that the first one leaves. Where the parts
are run as programs of their own, the sink is flushed between them, that is asked once more. A run
does not notice how often the sink has been asked before it, as long as the sink answers its requests
as it would have answered them: `Machine.delayed` is a change of the machine that commutes with all
that is evaluated or run.
-/

namespace Lox

/-- The statements behind `ss` run if no statement of `ss` has stopped the run. -/
theorem Run.program_append (ev : Evaluator) (ss ts : List (Stmt Place)) :
    Run.program ev (ss ++ ts) = Run.program ev ss >>= fun _ => Run.program ev ts := by
  funext m
  induction ss generalizing m with
  | nil => rfl
  | cons s ss ih =>
    simp only [List.cons_append, Run.program, Bind.bind, EStateM.bind] at ih ⊢
    cases ev.exec s m with
    | error stop m' => rfl
    | ok completion m' =>
      cases completion with
      | normal => exact ih m'
      | returned v => rfl

/-- Behind a part that has come to its end, the rest of a program runs as a program. -/
theorem Run.interpret_append_ok {fuel : Nat} {ss ts : List (Stmt Place)} {m m' : Machine}
    (ran : Run.program (evaluator fuel) ss m = .ok () m') :
    Run.interpret fuel (ss ++ ts) m = Run.interpret fuel ts m' := by
  have whole : Run.program (evaluator fuel) (ss ++ ts) m = Run.program (evaluator fuel) ts m' := by
    rw [Run.program_append]
    simp only [Bind.bind, EStateM.bind, ran]
  simp only [Run.interpret, whole]

/-- Behind a part that has stopped, nothing else runs. -/
theorem Run.interpret_append_error {fuel : Nat} {ss ts : List (Stmt Place)} {m m' : Machine}
    {stop : Stop} (stopped : Run.program (evaluator fuel) ss m = .error stop m') :
    Run.interpret fuel (ss ++ ts) m = Run.interpret fuel ss m := by
  have whole : Run.program (evaluator fuel) (ss ++ ts) m = .error stop m' := by
    rw [Run.program_append]
    simp only [Bind.bind, EStateM.bind, stopped]
  simp only [Run.interpret, whole, stopped]

/-! ## One more request -/

/-- A sink that has been asked once more and answers further requests as it would have without. -/
def Sink.delayed (s : Sink) : Sink :=
  ⟨s.written, s.requests + 1, fun request n => s.refusal request (n - 1)⟩

/-- The machine with its sink asked once more. -/
def Machine.delayed (m : Machine) : Machine := { m with sink := m.sink.delayed }

namespace Run.Commutes

theorem write_delayed (text : String) : Commutes Machine.delayed (Run.write text) := by
  intro m
  have same : m.delayed.sink.refusal .write m.delayed.sink.requests =
      m.sink.refusal .write m.sink.requests := rfl
  simp only [Run.write, same]
  cases m.sink.refusal .write m.sink.requests with
  | some message => rfl
  | none => rfl

theorem flush_delayed : Commutes Machine.delayed Run.flush := by
  intro m
  have same : m.delayed.sink.refusal .flush m.delayed.sink.requests =
      m.sink.refusal .flush m.sink.requests := rfl
  simp only [Run.flush, same]
  cases m.sink.refusal .flush m.sink.requests with
  | some message => rfl
  | none => rfl

theorem withEnvironment_delayed {α : Type} (e : Environment) {act : Run α}
    (inner : Commutes Machine.delayed act) :
    Commutes Machine.delayed (Run.withEnvironment e act) := by
  intro m
  have same := inner { m with current := e }
  simp only [Machine.delayed] at same
  simp only [Run.withEnvironment, Machine.delayed]
  rw [same]
  cases act { m with current := e } with
  | ok a m' => rfl
  | error stop m' => rfl

theorem assign_delayed (e : Environment) (name : Name) (v : Value) :
    Commutes Machine.delayed (Run.assign e name v) := by
  intro m
  simp only [Run.assign, Machine.delayed]
  cases m.store.assign e name v with
  | ok store => rfl
  | error f => rfl

theorem assignAt_delayed (hops : Nat) (name : String) (v : Value) :
    Commutes Machine.delayed (Run.assignAt hops name v) := by
  intro m
  simp only [Run.assignAt, Machine.delayed]
  cases m.store.assignAt m.current hops name v with
  | ok store => rfl
  | error f => rfl

/-- No part of a run notices that the sink has been asked once more. -/
theorem delayed_uniform : Uniform (Commutes Machine.delayed) where
  pure := pure
  bind := bind
  fault := fault
  outOfFuel := outOfFuel
  read _ := read fun _ => rfl
  current _ := rfl
  withEnvironment e _ := withEnvironment_delayed e
  newFrame _ _ _ := rfl
  newInstance _ _ := rfl
  newObject _ := rfl
  define _ _ _ := rfl
  assign := assign_delayed
  assignAt := assignAt_delayed
  setField _ _ _ _ := rfl
  write := write_delayed
  flush := flush_delayed
  readClock _ := rfl

theorem interpret_delayed (fuel : Nat) (ss : List (Stmt Place)) :
    Commutes Machine.delayed (Run.interpret fuel ss) := by
  intro m
  have same := delayed_uniform.program (delayed_uniform.evaluator fuel) ss m
  unfold Run.interpret
  rw [same]
  cases Run.program (evaluator fuel) ss m with
  | ok _ m' => exact flush_delayed m'
  | error stop m' =>
    cases stop with
    | outOfFuel => rfl
    | fault f =>
      have flushed := flush_delayed m'
      dsimp only [Run.changed]
      rw [flushed]
      cases Run.flush m' with
      | ok _ m'' => rfl
      | error stop m'' => rfl

end Run.Commutes

/-! ## Sinks that refuse nothing -/

/-- The sink refuses nothing. -/
def Sink.Accepting (s : Sink) : Prop := ∀ request n, s.refusal request n = none

/-- The machine after its sink has been asked once more. -/
def Machine.asked (m : Machine) : Machine := { m with sink := m.sink.asked }

theorem Sink.Accepting.flush {m : Machine} (h : m.sink.Accepting) :
    Run.flush m = .ok () m.asked := by
  have accepts := h .flush m.sink.requests
  simp only [Run.flush, accepts]
  rfl

/-- To a sink that refuses nothing, one more request makes no difference. -/
theorem Sink.Accepting.delayed_eq {m : Machine} (h : m.sink.Accepting) : m.delayed = m.asked := by
  have refusal : (fun request n => m.sink.refusal request (n - 1)) = m.sink.refusal := by
    funext request n
    rw [h, h]
  simp only [Machine.delayed, Sink.delayed, Machine.asked, Sink.asked, refusal]

/-- What the sink refuses stays the same. -/
theorem Run.refusal_uniform : Uniform (Run.Preserves fun m => m.sink.refusal) := by
  apply Run.Preserves.uniform (fun _ _ => rfl) (fun _ => rfl) (fun _ _ => rfl) (fun _ _ => rfl)
  intro α e act inner m
  have same := inner { m with current := e }
  unfold Run.withEnvironment
  dsimp only at same ⊢
  cases result : act { m with current := e } with
  | ok a m' =>
    rw [result] at same
    exact same
  | error stop m' =>
    rw [result] at same
    exact same

/-- A sink that refuses nothing still refuses nothing behind a part of a run. -/
theorem Sink.Accepting.after {α : Type} {act : Run α} {m : Machine} (h : m.sink.Accepting)
    (same : Run.Preserves (fun m => m.sink.refusal) act) :
    (Run.left (act m)).sink.Accepting := by
  intro request n
  have refusal : (Run.left (act m)).sink.refusal = m.sink.refusal := same m
  rw [refusal]
  exact h request n

end Lox
