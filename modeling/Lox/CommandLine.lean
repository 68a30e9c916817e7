import Lox.Session
import Lox.Syntax.Document
import Lox.Syntax.Text
import Lox.Text.Quoted
import Lox.Text.Utf8

/-!
# The command line

`Invocation.ofArgs?` reads the arguments and `Invocation.execute` says what a command writes and how
it exits, given the contents of its file and what is typed. Exit codes are 0, 1 for a file that
cannot be read, 64 for a command without its file, 65 for a text in error and 70 for a run that
stops with a fault.
-/

namespace Lox

/-- What can be asked for. -/
inductive Command where
  | tokenize
  | parse (json : Bool)
  | evaluate
  | resolve
  | run
  | repl
  deriving DecidableEq, Repr

/-- A command with its file and whether a log is kept. -/
structure Invocation where
  command : Command
  file : Option String
  log : Bool
  deriving DecidableEq, Repr

/-- What a command writes and how it exits. -/
structure Outcome where
  exit : Nat
  stdout : String
  stderr : String
  deriving DecidableEq, Repr

/-- The command of this name. The option goes with `parse` alone. -/
def Command.ofName? (name : String) (json : Bool) : Option Command :=
  match name, json with
  | "parse", json => some (.parse json)
  | "tokenize", false => some .tokenize
  | "evaluate", false => some .evaluate
  | "resolve", false => some .resolve
  | "run", false => some .run
  | "repl", false => some .repl
  | _, _ => none

/-- An argument that begins with a dash and has more behind it is an option. -/
def isOption (arg : String) : Bool :=
  match arg.toList with
  | '-' :: _ :: _ => true
  | _ => false

/-- The invocation that the arguments ask for. Options stand anywhere before the argument `--`;
behind it stand files alone. -/
def Invocation.ofArgs? (args : List String) : Option Invocation :=
  let front := args.takeWhile (· != "--")
  let options := front.filter isOption
  if options.any fun a => a != "--log" && a != "--json" then none
  else match front.filter (!isOption ·) with
    | [] => none
    | name :: files =>
      let files := files ++ (args.dropWhile (· != "--")).drop 1
      match Command.ofName? name (options.contains "--json"), files with
      | some c, [] => some ⟨c, none, options.contains "--log"⟩
      | some .repl, _ => none
      | some c, [file] => some ⟨c, some file, options.contains "--log"⟩
      | _, _ => none

/-- What comes of reading a file. -/
inductive FileReading where
  | contents (bytes : List UInt8)
  /-- The file cannot be opened. -/
  | unopened (cause : String)
  /-- The file is open, but its bytes cannot be had. -/
  | unmapped (cause : String)
  deriving DecidableEq, Repr

namespace Outcome

/-- The command has done what it was asked for. -/
def success (stdout : String) : Outcome := ⟨0, stdout, ""⟩

/-- The text or its run is in error. -/
def failure (e : RunError) (stdout : String) : Outcome := ⟨e.exitCode, stdout, e.text ++ "\n"⟩

/-- The command has no file. -/
def noFile : Outcome := ⟨64, "", "No input filepath was provided. Exiting...\n"⟩

/-- The file cannot be read. -/
def unreadable (problem cause : String) : Outcome :=
  ⟨1, "", s!"Error: {problem}\n\nCaused by:\n    {cause}\n"⟩

end Outcome

namespace CommandLine

/-- The cause for which a file that does not exist cannot be opened. -/
def noSuchFile : String := "No such file or directory (os error 2)"

/-- The cause for which the bytes of a directory cannot be had. -/
def noSuchDevice : String := "No such device (os error 19)"

/-- The text of a file, or how a command exits that cannot read it. -/
def sourceOf (name : String) : FileReading → Except Outcome String
  | .unopened cause => .error (.unreadable s!"Failed to open file {Text.quote name}" cause)
  | .unmapped cause => .error (.unreadable s!"Failed to map file {Text.quote name}" cause)
  | .contents bytes =>
    match Utf8.decode bytes with
    | .error e => .error (.unreadable s!"{Text.quote name} is not valid UTF-8" e.message)
    | .ok source => .ok source

/-- Texts with a line end behind each. -/
def asLines (texts : List String) : String := String.join (texts.map (· ++ "\n"))

/-- Lists the tokens, and the errors beside them. -/
def tokenize (source : String) : Outcome :=
  let items := lex source
  let errors := errorsOf items
  ⟨if errors.isEmpty then 0 else 65, asLines ((tokensOf items).map Token.listing),
    asLines (errors.map fun e => e.diagnostic.text)⟩

/-- Writes the trees of the statements. -/
def parse (json : Bool) (source : String) : Outcome :=
  let reading := readProgram source 0
  if !reading.reports.isEmpty then .failure (.rejected reading.reports) ""
  else if json then .success ((Json.array (Stmt.documents reading.result)).render ++ "\n")
  else .success (asLines (reading.result.map Stmt.text))

/-- The distances of a program as a JSON document, in the order of the references. -/
def distanceDocument (statements : List (Stmt (RefId × Place))) : Json :=
  let entries := (distances (Stmt.marksAll statements)).mergeSort fun a b => a.1 ≤ b.1
  .object (entries.map fun (id, hops) => (toString id, .number (toString hops)))

/-- Writes the distances of the references to variables in scopes. -/
def resolve (source : String) : Outcome :=
  match checkProgram (readProgram source 0) with
  | .error reports => .failure (.rejected reports) ""
  | .ok statements => .success ((distanceDocument statements).render ++ "\n")

/-- Evaluates an expression and writes its value. -/
def evaluate (fuel : Nat) (clock : Clock) (source : String) : Outcome :=
  let (result, s) := (Session.start .reliable clock).evaluate fuel source
  let printed := s.machine.sink.written
  match result with
  | .ok value => .success (printed ++ value.text ++ "\n")
  | .error e => .failure e printed

/-- Runs a program. -/
def run (fuel : Nat) (clock : Clock) (source : String) : Outcome :=
  let (result, s) := (Session.start .reliable clock).run fuel source
  let printed := s.machine.sink.written
  match result with
  | .ok () => .success printed
  | .error e => .failure e printed

/-- What stands before each line that is typed. -/
def prompt : String := "> "

/-- Runs a line in a session. Gives what it prints and what it reports. -/
def replLine (fuel : Nat) (s : Session) (line : String) : String × String × Session :=
  let (result, s) := s.run fuel line
  let (printed, s) := s.takeOutput
  match result with
  | .ok () => (printed, "", s)
  | .error e => (printed, e.text ++ "\n", s)

/-- A line without the carriage return at its end. -/
def stripReturn (line : List Char) : List Char :=
  match line.reverse with
  | '\r' :: rest => rest.reverse
  | _ => line

/-- The lines of a text; `line` is what has been read of the first one, last character first. -/
def linesFrom (line : List Char) : List Char → List String
  | [] => if line.isEmpty then [] else [String.ofList line.reverse]
  | '\n' :: rest => String.ofList (stripReturn line.reverse) :: linesFrom [] rest
  | c :: rest => linesFrom (c :: line) rest

/-- Runs the lines that are typed, one after the other, in one session. -/
def repl (fuel : Nat) (clock : Clock) (typed : String) : Outcome :=
  let step (state : Outcome × Session) (line : String) : Outcome × Session :=
    let (printed, reported, s) := replLine fuel state.2 line
    (⟨0, state.1.stdout ++ printed ++ prompt, state.1.stderr ++ reported⟩, s)
  let (outcome, _) :=
    (linesFrom [] typed.toList).foldl step (⟨0, prompt, ""⟩, Session.start .reliable clock)
  { outcome with stdout := outcome.stdout ++ "\n" }

end CommandLine

/-- What a command does with the text of its file. -/
def Command.onSource (c : Command) (fuel : Nat) (clock : Clock) (source : String) : Outcome :=
  match c with
  | tokenize => CommandLine.tokenize source
  | parse json => CommandLine.parse json source
  | evaluate => CommandLine.evaluate fuel clock source
  | resolve => CommandLine.resolve source
  | run => CommandLine.run fuel clock source
  | repl => CommandLine.repl fuel clock source

/-- What an invocation does, given what comes of reading files and what is typed. -/
def Invocation.execute (i : Invocation) (fuel : Nat) (clock : Clock)
    (files : String → FileReading) (typed : String) : Outcome :=
  match i.command, i.file with
  | .repl, _ => CommandLine.repl fuel clock typed
  | _, none => .noFile
  | c, some name =>
    match CommandLine.sourceOf name (files name) with
    | .error outcome => outcome
    | .ok source => c.onSource fuel clock source

end Lox
