import Lox.Proofs.Run.Follows
import Lox.Proofs.Run.StatementRules
import Lox.Proofs.Parser.Origins
import Lox.Proofs.Scope.Resolved
import Lox.Proofs.Token.Words

/-!
# Requests to a session

A session serves one request after the other. A *watched* session serves the same requests with
watched runs; `WatchedSession.serve_forget` says that it gives the same answers and is left with the
same machine. What runs in it is well-scoped code, so its watch stays good from request to request.
-/

namespace Lox

/-- What can be asked of a session. -/
inductive Request where
  | run (fuel : Nat) (source : String)
  | evaluate (fuel : Nat) (source : String)
  | check (source : String)
  | takeOutput
  | setClock (clock : Clock)

/-- How a request ends; the value is that of an evaluation. -/
abbrev Answer := Except RunError (Option Value)

/-- The session after a request, with the answer to it. -/
def Session.serve (s : Session) : Request → Answer × Session
  | .run fuel source =>
    let served := s.run fuel source
    (served.1.map fun _ => none, served.2)
  | .evaluate fuel source =>
    let served := s.evaluate fuel source
    (served.1.map some, served.2)
  | .check source =>
    let served := s.check source
    (served.1.map fun _ => none, served.2)
  | .takeOutput => (.ok none, s.takeOutput.2)
  | .setClock clock => (.ok none, s.withClock clock)

/-- The session after requests. -/
def Session.after (s : Session) (requests : List Request) : Session :=
  requests.foldl (fun s r => (s.serve r).2) s

/-- A session that keeps records of its runs. -/
structure WatchedSession where
  watch : Watch
  nextRef : RefId

namespace WatchedSession

/-- The session without the records. -/
def forget (s : WatchedSession) : Session := ⟨s.watch.machine, s.nextRef⟩

/-- A session in which nothing has run. -/
def start (sink : Sink) (clock : Clock) : WatchedSession :=
  ⟨⟨.start sink clock, fun _ => .top, []⟩, 0⟩

/-- Carries out a part of a watched run. -/
def perform {α : Type} (s : WatchedSession) (act : Watched α) :
    Except RunError α × WatchedSession :=
  match act s.watch with
  | .ok a watch => (.ok a, { s with watch := watch })
  | .error stop watch => (.error (.ofStop stop), { s with watch := watch })

/-- The session with another machine. -/
def on (s : WatchedSession) (m : Machine) : WatchedSession := { s with watch := s.watch.on m }

/-- The session after a request, with the answer to it. -/
def serve (s : WatchedSession) : Request → Answer × WatchedSession
  | .run fuel source =>
    let reading := readProgram source s.nextRef
    let s := { s with nextRef := reading.nextRef }
    match checkProgram reading with
    | .error reports => (.error (.rejected reports), s)
    | .ok statements =>
      let served := s.perform (Watched.interpret fuel (runnable statements))
      (served.1.map fun _ => none, served.2)
  | .evaluate fuel source =>
    let reading := readExpression source s.nextRef
    let s := { s with nextRef := reading.nextRef }
    match checkExpression reading with
    | .error reports => (.error (.rejected reports), s)
    | .ok e =>
      let served := s.perform ((watcher fuel).eval .top (runnableExpr e))
      (served.1.map some, served.2)
  | .check source =>
    let reading := readProgram source s.nextRef
    (((checkProgram reading).mapError .rejected).map fun _ => none,
      { s with nextRef := reading.nextRef })
  | .takeOutput => (.ok none, s.on s.watch.machine.emptied)
  | .setClock clock => (.ok none, s.on { s.watch.machine with clock := clock })

/-- The session after requests. -/
def after (s : WatchedSession) (requests : List Request) : WatchedSession :=
  requests.foldl (fun s r => (s.serve r).2) s

theorem perform_forget {α : Type} (s : WatchedSession) {t : Watched α} {r : Run α}
    (follows : Follows t r) :
    (s.perform t).1 = (s.forget.perform r).1 ∧ (s.perform t).2.forget = (s.forget.perform r).2 := by
  have same := follows s.watch
  simp only [perform, Session.perform, forget]
  rw [← same]
  cases t s.watch <;> exact ⟨rfl, rfl⟩

/-- A watched session serves a request as the session does. -/
theorem serve_forget (s : WatchedSession) (r : Request) :
    (s.serve r).1 = (s.forget.serve r).1 ∧ (s.serve r).2.forget = (s.forget.serve r).2 := by
  cases r with
  | run fuel source =>
    simp only [serve, Session.serve, Session.run]
    rw [show s.forget.nextRef = s.nextRef from rfl]
    cases checkProgram (readProgram source s.nextRef) with
    | error reports => exact ⟨rfl, rfl⟩
    | ok statements =>
      obtain ⟨answer, session⟩ :=
        perform_forget { s with nextRef := (readProgram source s.nextRef).nextRef }
          (Follows.interpret fuel (runnable statements))
      exact ⟨congrArg (Except.map fun _ => none) answer, session⟩
  | evaluate fuel source =>
    simp only [serve, Session.serve, Session.evaluate]
    rw [show s.forget.nextRef = s.nextRef from rfl]
    cases checkExpression (readExpression source s.nextRef) with
    | error reports => exact ⟨rfl, rfl⟩
    | ok e =>
      obtain ⟨answer, session⟩ :=
        perform_forget { s with nextRef := (readExpression source s.nextRef).nextRef }
          ((watcher_follows fuel).eval .top (runnableExpr e))
      exact ⟨congrArg (Except.map some) answer, session⟩
  | check source | takeOutput | setClock clock => exact ⟨rfl, rfl⟩

/-- A watched session is the session with records added. -/
theorem after_forget (s : WatchedSession) (requests : List Request) :
    (s.after requests).forget = s.forget.after requests := by
  induction requests generalizing s with
  | nil => rfl
  | cons r rest ih =>
    simp only [after, Session.after, List.foldl_cons] at ih ⊢
    rw [ih, (s.serve_forget r).2]

end WatchedSession

/-! ## The code of a session -/

/-- The request runs this code: its text is accepted and reads so. -/
def Request.Reads : Request → Node → Prop
  | .run _ source, n => ∃ firstRef located,
    checkProgram (readProgram source firstRef) = .ok located ∧ n = .statements (runnable located)
  | .evaluate _ source, n => ∃ firstRef located,
    checkExpression (readExpression source firstRef) = .ok located ∧
      n = .expression (runnableExpr located)
  | .check _, _ | .takeOutput, _ | .setClock _, _ => False

/-- The code that is run for the requests. -/
def codeOf (requests : List Request) (n : Node) : Prop := ∃ r ∈ requests, r.Reads n

/-- The names in the tokens of a text are those of variables. -/
theorem token_names (source : String) : ∀ t ∈ tokensOf (lex source), t.Names IsVariable := by
  intro t mem identifier
  have noKeyword := ofText?_of_identifier mem identifier
  constructor
  · intro isThis
    rw [isThis] at noKeyword
    exact absurd noKeyword (by decide)
  · intro isSuper
    rw [isSuper] at noKeyword
    exact absurd noKeyword (by decide)

/-- A program that is accepted is well-scoped. -/
theorem checkProgram_scoped {source : String} {firstRef : RefId}
    {located : List (Stmt (RefId × Place))}
    (h : checkProgram (readProgram source firstRef) = .ok located) :
    Stmt.ScopedAll .top (runnable located) := by
  have shaped := parseProgram_shaped (tokensOf (lex source)) firstRef (token_names source)
  obtain ⟨-, resolved⟩ := checkProgram_eq_ok.1 h
  exact resolve_scoped shaped resolved

/-- An expression that is accepted is well-scoped. -/
theorem checkExpression_scoped {source : String} {firstRef : RefId}
    {located : Expr (RefId × Place)}
    (h : checkExpression (readExpression source firstRef) = .ok located) :
    (runnableExpr located).Scoped .top := by
  have shaped := parseExpression_shaped (tokensOf (lex source)) firstRef (token_names source)
  obtain ⟨-, e, result, resolved⟩ := checkExpression_eq_ok.1 h
  rw [show (parseExpression (tokensOf (lex source)) firstRef).result = some e from result] at shaped
  exact resolveExpression_scoped shaped resolved

/-- All code that is run for requests is well-scoped. -/
theorem codeOf_scoped (requests : List Request) : ∀ n, codeOf requests n → n.Scoped .top := by
  rintro n ⟨r, -, reads⟩
  cases r with
  | run fuel source =>
    obtain ⟨firstRef, located, accepted, rfl⟩ := reads
    exact checkProgram_scoped accepted
  | evaluate fuel source =>
    obtain ⟨firstRef, located, accepted, rfl⟩ := reads
    exact checkExpression_scoped accepted
  | check source | takeOutput | setClock clock => exact reads.elim

end Lox
