import Lox.Proofs.Run.Activation
import Lox.Proofs.Run.Parts
import Lox.Proofs.Session.Scopes

/-!
# Returns stay inside calls

A program that is accepted has no `return` outside of functions, so none of its statements returns
to the top level; that shows in the watch of a session, which is good. Inside of a function, a
`return` ends the activation that it is part of.
-/

namespace Lox

variable {code : Node → Prop}

/-! ## The top level -/

/-- No statement of a program that is well-scoped returns to the top level. -/
theorem Watch.Good.program_contained {w : Watch} (good : w.Good code)
    (rooted : ∀ n, code n → n.Scoped .top) (current : w.machine.current = .globals)
    {ss : List (Stmt Place)} (isCode : code (.statements ss)) (fuel : Nat) (m : Machine) :
    Run.program (evaluator fuel) ss w.machine ≠ .error (.fault (.mismatch .returnAtTopLevel)) m := by
  intro returned
  have keeps := Keeps.program (watcher_keeps rooted fuel) good (Spot.top_fits current _)
    (.root isCode) rfl
  have same := Follows.program (watcher_follows fuel) .top ss w
  unfold Keeps at keeps
  cases result : Watched.program (watcher fuel) .top ss w with
  | ok _ w' =>
    rw [result, returned] at same
    cases same
  | error stop w' =>
    rw [result, returned] at same
    cases same
    rw [result] at keeps
    obtain ⟨-, m, target, -, -, cause⟩ := keeps
    cases cause

/-- Flushing the sink behind a program does not return to the top level. -/
theorem Run.interpret_contained {ss : List (Stmt Place)} {fuel : Nat} {m : Machine}
    (contained : ∀ m', Run.program (evaluator fuel) ss m ≠
      .error (.fault (.mismatch .returnAtTopLevel)) m') (m' : Machine) :
    Run.interpret fuel ss m ≠ .error (.fault (.mismatch .returnAtTopLevel)) m' := by
  have flush_io : ∀ m f m', Run.flush m = .error f m' → ∃ message, f = .fault (.io message) := by
    intro m f m' flushed
    unfold Run.flush at flushed
    split at flushed
    · cases flushed
      exact ⟨_, rfl⟩
    · cases flushed
  intro returned
  unfold Run.interpret at returned
  split at returned
  · cases returned
  · obtain ⟨message, isIo⟩ := flush_io _ _ _ returned
    cases isIo
  · next f m₁ ran =>
    split at returned
    · cases returned
      exact contained _ ran
    · next stop m₂ flushed =>
      cases returned
      obtain ⟨message, isIo⟩ := flush_io _ _ _ flushed
      cases isIo

/-- Whatever has been asked of a session, no program that it accepts returns to the top level. -/
theorem Session.program_contained (sink : Sink) (clock : Clock) (requests : List Request)
    {source : String} {located : List (Stmt (RefId × Place))} {firstRef : RefId}
    (accepted : checkProgram (readProgram source firstRef) = .ok located) (fuel : Nat)
    (m : Machine) :
    Run.program (evaluator fuel) (runnable located)
        ((Session.start sink clock).after requests).machine ≠
      .error (.fault (.mismatch .returnAtTopLevel)) m := by
  -- the program brings code of its own
  let all := Request.run fuel source :: requests
  have good : ((WatchedSession.start sink clock).after requests).Good (codeOf all) :=
    (WatchedSession.good_start _ sink clock).after (codeOf_scoped all) requests
      fun r mem _ reads => ⟨r, List.mem_cons_of_mem _ mem, reads⟩
  have isCode : codeOf all (.statements (runnable located)) :=
    ⟨_, List.mem_cons_self, firstRef, located, accepted, rfl⟩
  have contained := good.watch.program_contained (codeOf_scoped all) good.current isCode fuel m
  have same := WatchedSession.after_forget (.start sink clock) requests
  have machine : ((WatchedSession.start sink clock).after requests).watch.machine =
      ((Session.start sink clock).after requests).machine := congrArg Session.machine same
  rwa [machine] at contained

/-- Whatever has been asked of a session, the answer to a run is not that a `return` has escaped. -/
theorem Session.run_contained (sink : Sink) (clock : Clock) (requests : List Request) (fuel : Nat)
    (source : String) :
    (((Session.start sink clock).after requests).run fuel source).1 ≠
      .error (.stopped (.mismatch .returnAtTopLevel)) := by
  generalize session : (Session.start sink clock).after requests = s
  simp only [Session.run]
  cases accepted : checkProgram (readProgram source s.nextRef) with
  | error reports => simp
  | ok located =>
    have contained := Run.interpret_contained
      (Session.program_contained sink clock requests accepted fuel)
    rw [session] at contained
    simp only [Session.perform]
    cases result : Run.interpret fuel (runnable located) s.machine with
    | ok _ m => simp
    | error stop m =>
      cases stop with
      | outOfFuel => simp [RunError.ofStop]
      | fault f =>
        intro returned
        cases returned
        exact contained m result

/-- **A `return` ends the activation of the function that it stands in, and nothing more.** Whatever
has been asked of a session, no program that it accepts returns to the top level, and no statement
of it completes so there. A call, on any machine and with any fuel, is an activation of the function:
a `return` of it is the last statement of it that begins, nothing is evaluated behind its value, and
that is the value of the call unless it is one of an initializer; the scopes that it has opened are
left, and the scope of the caller is active again. -/
theorem return_contained (sink : Sink) (clock : Clock) (requests : List Request) (fuel : Nat) :
    let s := (Session.start sink clock).after requests
    (∀ source, (s.run fuel source).1 ≠ .error (.stopped (.mismatch .returnAtTopLevel))) ∧
      (∀ source located, checkProgram (readProgram source s.nextRef) = .ok located →
        ∀ before t after, runnable located = before ++ t :: after →
          ∀ m, Run.program (evaluator fuel) before s.machine = .ok () m →
            ∀ v m', (evaluator fuel).exec t m ≠ .ok (.returned v) m') ∧
        ∀ (c : Closure) arguments m,
          Trace.EndsAtReturn ⟨c.entered arguments m, []⟩ (c.activation fuel arguments m) ∧
            Trace.forget (c.activation fuel arguments m) =
              Run.execAll (evaluator fuel) c.declaration.body (c.entered arguments m) ∧
            (Run.left (Trace.forget (c.activation fuel arguments m))).current =
              (c.entered arguments m).current ∧
            Run.callClosure (evaluator fuel) c arguments m =
              c.leave m.current (c.activation fuel arguments m) := by
  intro s
  refine ⟨fun source => ?_, fun source located accepted before t after split m ran v m' => ?_,
    fun c arguments m => ?_⟩
  · exact Session.run_contained sink clock requests fuel source
  · intro returned
    apply Session.program_contained sink clock requests accepted fuel m'
    have rest : Run.program (evaluator fuel) (t :: after) m =
        .error (.fault (.mismatch .returnAtTopLevel)) m' := by
      simp only [Run.program, Bind.bind, EStateM.bind, returned]
      rfl
    rw [split, Run.program_append]
    simp only [Bind.bind, EStateM.bind]
    rw [show Run.program (evaluator fuel) before
      ((Session.start sink clock).after requests).machine = .ok () m from ran]
    exact rest
  · exact ⟨Traced.Contained.execAll (tracer_contained fuel) _ _, c.activation_forget fuel _ _,
      c.activation_current fuel arguments m, c.call_eq_leave fuel arguments m⟩

/-- The session of a function that returns out of a loop that would go on for ever. -/
def endlessLoop : Session :=
  (Session.start .reliable (.ticking 0)).after
    [.run 9 "fun f() \x7b while (true) \x7b return nil; \x7d \x7d"]

theorem return_contained_endlessLoop :
    let call {ρ : Type} (mark : ρ) : Stmt ρ := .expression (.call (.variable ⟨⟨"f", 1⟩, mark⟩) 1 [])
    let m := Run.left (Run.program (evaluator 9) [call .global] endlessLoop.machine)
    checkProgram (readProgram "f(); f();" endlessLoop.nextRef) =
        .ok [call (0, .global), call (1, .global)] ∧
      Run.program (evaluator 9) [call .global] endlessLoop.machine = .ok () m ∧
      ∀ v m', (evaluator 9).exec (call .global) m ≠ .ok (.returned v) m' := by
  intro call m
  have accepted : checkProgram (readProgram "f(); f();" endlessLoop.nextRef) =
      .ok [call (0, .global), call (1, .global)] := rfl
  have ran : Run.program (evaluator 9) [call .global] endlessLoop.machine = .ok () m := rfl
  exact ⟨accepted, ran, (return_contained .reliable (.ticking 0) _ 9).2.1 _ _ accepted
    [call .global] _ [] rfl m ran⟩

end Lox
