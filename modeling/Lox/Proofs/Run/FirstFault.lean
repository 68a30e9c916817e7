import Lox.Proofs.Run.Onward
import Lox.Proofs.Run.Parts

/-!
# The first fault of a program

The statements of a program are executed one after the other, up to the first one that does not
complete normally. That one stops the program with its fault, and what has been done and printed so
far stays. Behind the program the sink is flushed, however the program has ended; a sink that
refuses this puts its own fault in the place of the one that has stopped the program.
-/

namespace Lox

namespace Run

/-! ## Statements in order -/

/-- The statements are executed one after the other, and each of them completes normally. -/
inductive Completes (ev : Evaluator) : List (Stmt Place) → Machine → Machine → Prop
  | none {m : Machine} : Completes ev [] m m
  | more {s : Stmt Place} {ss : List (Stmt Place)} {m m₁ m₂ : Machine} :
    ev.exec s m = .ok .normal m₁ → Completes ev ss m₁ m₂ → Completes ev (s :: ss) m m₂

/-- The statement stops a program with this fault: it fails, or it returns to the top level. -/
inductive Raises (ev : Evaluator) (s : Stmt Place) (m : Machine) : Fault → Machine → Prop
  | failed {f : Fault} {m' : Machine} : ev.exec s m = .error (.fault f) m' → Raises ev s m f m'
  | returned {v : Value} {m' : Machine} : ev.exec s m = .ok (.returned v) m' →
    Raises ev s m (.mismatch .returnAtTopLevel) m'

variable {ev : Evaluator} {s : Stmt Place} {ss rest : List (Stmt Place)} {m m₁ m₂ : Machine}
  {f : Fault}

/-- A program comes to its end exactly if all its statements complete normally. -/
theorem program_eq_ok : program ev ss m = .ok () m₁ ↔ Completes ev ss m m₁ := by
  constructor
  · intro ran
    induction ss generalizing m with
    | nil =>
      cases ran
      exact .none
    | cons s ss ih =>
      simp only [program, Bind.bind, EStateM.bind] at ran
      cases result : ev.exec s m with
      | error stop m' =>
        rw [result] at ran
        cases ran
      | ok completion m' =>
        rw [result] at ran
        cases completion with
        | normal => exact .more result (ih ran)
        | returned v => cases ran
  · intro completes
    induction completes with
    | none => rfl
    | more normal _ ih =>
      simp only [program, Bind.bind, EStateM.bind, normal]
      exact ih

/-- Behind statements that complete normally, one that raises a fault stops the program. -/
theorem Raises.program_eq (raises : Raises ev s m₁ f m₂) (before : Completes ev ss m m₁) :
    program ev (ss ++ s :: rest) m = .error (.fault f) m₂ := by
  rw [program_append]
  simp only [Bind.bind, EStateM.bind, program_eq_ok.2 before, program]
  cases raises with
  | failed failed => simp only [failed]
  | returned returned =>
    simp only [returned]
    rfl

theorem Raises.onward {after : Machine → Machine → Prop} (raises : Raises ev s m₁ f m₂)
    (onward : Onward after (ev.exec s)) : after m₁ m₂ := by
  have next := onward m₁
  cases raises with
  | failed failed =>
    rw [failed] at next
    exact next
  | returned returned =>
    rw [returned] at next
    exact next

end Run

/-! ## Flushing -/

/-- The message with which the sink would refuse to be flushed now. -/
def Machine.flushRefusal (m : Machine) : Option String := m.sink.refusal .flush m.sink.requests

namespace Run

variable {fuel : Nat} {ss : List (Stmt Place)} {m m' : Machine} {f : Fault}

theorem flush_eq (m : Machine) : flush m =
    match m.flushRefusal with
    | none => .ok () m.asked
    | some message => .error (.fault (.io message)) m.asked := by
  unfold flush Machine.flushRefusal
  cases m.sink.refusal .flush m.sink.requests with
  | none => rfl
  | some message => rfl

/-- A program that comes to its end is answered by the flush behind it. -/
theorem interpret_of_completes (completes : Completes (evaluator fuel) ss m m') :
    interpret fuel ss m = flush m' := by
  simp only [interpret, program_eq_ok.2 completes]

/-- A fault that stops a program is reported if the sink can be flushed behind it. -/
theorem interpret_of_fault (stopped : program (evaluator fuel) ss m = .error (.fault f) m') :
    interpret fuel ss m = .error (.fault (m'.flushRefusal.elim f .io)) m'.asked := by
  simp only [interpret, stopped, flush_eq]
  cases m'.flushRefusal with
  | none => rfl
  | some message => rfl

/-- A program succeeds exactly if all its statements complete normally and the sink is flushed. -/
theorem interpret_eq_ok : interpret fuel ss m = .ok () m' ↔
    ∃ m₁, Completes (evaluator fuel) ss m m₁ ∧ m₁.flushRefusal = none ∧ m' = m₁.asked := by
  constructor
  · intro succeeds
    cases ran : program (evaluator fuel) ss m with
    | ok _ m₁ =>
      have completes := program_eq_ok.1 ran
      rw [interpret_of_completes completes, flush_eq] at succeeds
      cases refused : m₁.flushRefusal with
      | none =>
        rw [refused] at succeeds
        cases succeeds
        exact ⟨m₁, completes, refused, rfl⟩
      | some message =>
        rw [refused] at succeeds
        cases succeeds
    | error stop m₁ =>
      cases stop with
      | fault f =>
        rw [interpret_of_fault ran] at succeeds
        cases succeeds
      | outOfFuel =>
        simp only [interpret, ran] at succeeds
        cases succeeds
  · rintro ⟨m₁, completes, accepts, rfl⟩
    rw [interpret_of_completes completes, flush_eq, accepts]

end Run

open Run (Completes Raises)

/-- **A program reports its first fault, unless the sink refuses to be flushed behind it.** On any
machine, with any sink and any fuel: if the statements before one complete normally and that one
raises a fault, the program stops with this fault, or with that of the flush if the sink refuses it.
Whatever statements are behind it, none of them runs: the machine is left as the fault leaves it,
but for the request to flush, and what was printed before is still there. A program succeeds exactly
if all its statements complete normally and the sink is flushed. -/
theorem first_fault_reported (fuel : Nat) (m : Machine) :
    (∀ before s rest m₁ f m₂, Completes (evaluator fuel) before m m₁ →
      Raises (evaluator fuel) s m₁ f m₂ →
        Run.interpret fuel (before ++ s :: rest) m =
            .error (.fault (m₂.flushRefusal.elim f .io)) m₂.asked ∧
          ∃ output, m₂.asked.sink.written = m₁.sink.written ++ output) ∧
      (∀ ss m', Run.interpret fuel ss m = .ok () m' ↔
        ∃ m₁, Completes (evaluator fuel) ss m m₁ ∧ m₁.flushRefusal = none ∧ m' = m₁.asked) := by
  refine ⟨fun before s rest m₁ f m₂ completes raises => ⟨?_, ?_⟩, fun ss m' => ?_⟩
  · exact Run.interpret_of_fault (raises.program_eq completes)
  · exact raises.onward ((Run.PrintsOn.uniform.evaluator fuel).exec s)
  · exact Run.interpret_eq_ok

/-- A sink that writes everything and can never be flushed. -/
def Sink.unflushable : Sink :=
  ⟨"", 0, fun request _ => if request = .flush then some "sink flush failed" else none⟩

/-- The second statement reads a variable that is not there, but the program reports that its sink
cannot be flushed. -/
theorem first_fault_reported_unflushable :
    let print (e : Expr Place) : Stmt Place := .print e
    let answer := print (.literal (.boolean true))
    let nope := print (.variable ⟨⟨"nope", 2⟩, .global⟩)
    let m := Machine.start .unflushable (.ticking 0)
    let m₁ := Run.left (Run.program (evaluator 9) [answer] m)
    Completes (evaluator 9) [answer] m m₁ ∧
      Raises (evaluator 9) nope m₁ (.runtime (.undefinedVariable "nope") 2) m₁ ∧
        Run.interpret 9 [answer, nope, answer] m =
            .error (.fault (.io "sink flush failed")) m₁.asked ∧
          ∃ output, m₁.asked.sink.written = m₁.sink.written ++ output := by
  intro print answer nope m m₁
  have completes : Completes (evaluator 9) [answer] m m₁ := Run.program_eq_ok.1 rfl
  have raises : Raises (evaluator 9) nope m₁ (.runtime (.undefinedVariable "nope") 2) m₁ :=
    .failed rfl
  exact ⟨completes, raises, (first_fault_reported 9 m).1 _ _ [answer] _ _ _ completes raises⟩

end Lox
