import Lox.Eval.Evaluator
import Lox.Parser.Program
import Lox.Scope.Violations
import Lox.Token.Lexer

/-!
# Sessions

A session runs source texts one after the other on one machine, so that globals last from one to
the next. A text is read, checked and resolved as a whole before anything of it runs; if that finds
an error, nothing runs. References are numbered on from text to text, and no two of a session have
the same number.
-/

namespace Lox

/-- What is read off a source text, with what is wrong with the text. -/
structure SourceReading (α : Type) where
  result : α
  reports : List Diagnostic
  /-- The number of the first reference of the next text. -/
  nextRef : RefId

/-- A parse of the tokens of a source text, with the errors of both. -/
def readSource {α : Type} (parse : List Token → RefId → Parsed α) (source : String)
    (firstRef : RefId) : SourceReading α :=
  let items := lex source
  let parsed := parse (tokensOf items) firstRef
  ⟨parsed.result,
    (errorsOf items).map LexError.diagnostic ++ parsed.errors.map SyntaxError.diagnostic,
    parsed.nextRef⟩

/-- The statements of a source text. -/
def readProgram : String → RefId → SourceReading (List (Stmt RefId)) := readSource parseProgram

/-- The expression that a source text is. -/
def readExpression : String → RefId → SourceReading (Option (Expr RefId)) :=
  readSource parseExpression

/-- A resolved part of a program, or what is wrong with it. -/
abbrev Checked (α : Type) := Except (List Diagnostic) α

/-- The resolved statements of a text that has been read. -/
def checkProgram (r : SourceReading (List (Stmt RefId))) :
    Checked (List (Stmt (RefId × Place))) :=
  if r.reports.isEmpty then
    (resolve r.result).mapError (·.map Violation.diagnostic)
  else .error r.reports

/-- The resolved expression of a text that has been read. -/
def checkExpression (r : SourceReading (Option (Expr RefId))) :
    Checked (Expr (RefId × Place)) :=
  match r.reports, r.result with
  | [], some e => (resolveExpression e).mapError (·.map Violation.diagnostic)
  | reports, _ => .error reports

/-- The statements as they run: of each reference, only its place is left. -/
def runnable {ρ : Type} (statements : List (Stmt (ρ × Place))) : List (Stmt Place) :=
  Stmt.mapMarksAll (fun _ mark => mark.2) statements

/-- The expression as it is evaluated. -/
def runnableExpr {ρ : Type} (e : Expr (ρ × Place)) : Expr Place :=
  e.mapMarks fun _ mark => mark.2

/-- Statements whose references are all looked up among the globals. -/
def unresolved {ρ : Type} (statements : List (Stmt ρ)) : List (Stmt Place) :=
  Stmt.mapMarksAll (fun _ _ => .global) statements

/-- An expression whose references are all looked up among the globals. -/
def unresolvedExpr {ρ : Type} (e : Expr ρ) : Expr Place := e.mapMarks fun _ _ => .global

/-- Why a text was not run to its end. -/
inductive RunError where
  /-- The text is in error, and nothing of it has run. -/
  | rejected (reports : List Diagnostic)
  /-- The run has stopped with a fault. What ran before has taken effect. -/
  | stopped (fault : Fault)
  /-- The run has taken more steps than it was given. -/
  | unfinished
  deriving DecidableEq, Repr

namespace RunError

def ofStop : Stop → RunError
  | .fault f => stopped f
  | .outOfFuel => unfinished

/-- What is reported. -/
def reports : RunError → List Diagnostic
  | rejected reports => reports
  | stopped f => [f.diagnostic]
  | unfinished => [.internal "the run takes too many steps"]

/-- Nothing has run. -/
def isStatic : RunError → Bool
  | rejected _ => true
  | stopped _ | unfinished => false

/-- The exit code of a command that ends so. -/
def exitCode (e : RunError) : Nat := if e.isStatic then 65 else 70

/-- The reports, one below the other. -/
def text (e : RunError) : String := Diagnostic.joinText e.reports

end RunError

/-- A machine and the number of the next reference. -/
structure Session where
  machine : Machine
  nextRef : RefId

namespace Session

/-- A session in which nothing has run. -/
def start (sink : Sink) (clock : Clock) : Session := ⟨.start sink clock, 0⟩

/-- The session with another clock. -/
def withClock (s : Session) (clock : Clock) : Session :=
  { s with machine := { s.machine with clock := clock } }

/-- Carries out a part of a run on the session's machine. -/
def perform {α : Type} (s : Session) (act : Run α) : Except RunError α × Session :=
  match act s.machine with
  | .ok a machine => (.ok a, { s with machine := machine })
  | .error stop machine => (.error (.ofStop stop), { s with machine := machine })

/-- Runs a program. -/
def run (fuel : Nat) (s : Session) (source : String) : Except RunError Unit × Session :=
  let reading := readProgram source s.nextRef
  let s := { s with nextRef := reading.nextRef }
  match checkProgram reading with
  | .error reports => (.error (.rejected reports), s)
  | .ok statements => s.perform (Run.interpret fuel (runnable statements))

/-- Evaluates an expression. -/
def evaluate (fuel : Nat) (s : Session) (source : String) : Except RunError Value × Session :=
  let reading := readExpression source s.nextRef
  let s := { s with nextRef := reading.nextRef }
  match checkExpression reading with
  | .error reports => (.error (.rejected reports), s)
  | .ok e => s.perform ((evaluator fuel).eval (runnableExpr e))

/-- Checks a program without running it. -/
def check (s : Session) (source : String) :
    Except RunError (List (Stmt (RefId × Place))) × Session :=
  let reading := readProgram source s.nextRef
  ((checkProgram reading).mapError .rejected, { s with nextRef := reading.nextRef })

/-- Takes what has been printed since it was taken last. -/
def takeOutput (s : Session) : String × Session :=
  (s.machine.sink.written, { s with machine := s.machine.emptied })

end Session

end Lox
