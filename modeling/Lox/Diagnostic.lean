/-!
# Diagnostics

What is reported about a source text or a run, in its final words. The phases have error types of
their own, which say what went wrong; a diagnostic is what becomes of them when they are shown.
-/

namespace Lox

/-- A report about a source text or a run. -/
inductive Diagnostic where
  /-- Text that forms no token. -/
  | lexical (line : Nat) (message : String)
  /-- Tokens that form no program. -/
  | syntactic (line : Nat) (location message : String)
  /-- A misplaced or repeated declaration, or a reference that makes no sense where it stands. -/
  | scoping (line : Nat) (message : String)
  /-- A failure of the running program. -/
  | runtime (line : Nat) (message : String)
  /-- A program that does not fit the scopes it runs in. -/
  | internal (message : String)
  /-- A failure of input or output. -/
  | io (message : String)
  /-- Bytes that are no text. -/
  | encoding (message : String)
  deriving DecidableEq, Repr

namespace Diagnostic

/-- The report as it is written. -/
def text : Diagnostic → String
  | lexical line message => s!"[line {line}] Error: {message}"
  | syntactic line location message => s!"[line {line}] Error {location}: {message}"
  | scoping line message => s!"[line {line}] Error: {message}"
  | runtime line message => s!"{message}\n[line {line}]"
  | internal message => s!"Internal error: {message}"
  | io message => message
  | encoding message => message

/-- The line it is about, if it is about one. -/
def line? : Diagnostic → Option Nat
  | lexical line _ | syntactic line _ _ | scoping line _ | runtime line _ => some line
  | internal _ | io _ | encoding _ => none

/-- It is found without running anything. -/
def isStatic : Diagnostic → Bool
  | lexical .. | syntactic .. | scoping .. => true
  | runtime .. | internal _ | io _ | encoding _ => false

/-- Reports one below the other. -/
def joinText (reports : List Diagnostic) : String := "\n".intercalate (reports.map text)

end Diagnostic

end Lox
