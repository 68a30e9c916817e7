import Lox.CommandLine
import Std.Time.DateTime.Timestamp

/-!
# The program

Reads arguments, files and typed lines, and writes what the commands give.
-/

namespace Lox.Program

/-- What the system says about a failure. -/
def causeText (e : IO.Error) : String :=
  let numbered (code : UInt32) (details : String) : String := s!"{details} (os error {code})"
  match e with
  | .noFileOrDirectory _ code details => numbered code details
  | .permissionDenied _ code details => numbered code details
  | .inappropriateType _ code details => numbered code details
  | .invalidArgument _ code details => numbered code details
  | .resourceExhausted _ code details => numbered code details
  | .otherError code details => numbered code details
  | e => toString e

/-- Reads a file that is open. -/
def readOpen (handle : IO.FS.Handle) : IO FileReading := do
  try
    return .contents (← handle.readBinToEnd).toList
  catch _ => return .unmapped CommandLine.noSuchDevice

/-- Reads a file. -/
def readFile (name : String) : IO FileReading := do
  try
    readOpen (← IO.FS.Handle.mk name .read)
  catch e => return .unopened (causeText e)

/-- A clock that begins at the time of day, counted from the start of 1970. -/
def systemClock : IO Clock := do
  let now ← Std.Time.Timestamp.now
  return .ticking (now.toNanosecondsSinceUnixEpoch.val.toNat / 1000)

/-- Runs typed lines until there are no more. -/
partial def replLoop (s : Session) : IO Unit := do
  let stdout ← IO.getStdout
  stdout.putStr CommandLine.prompt
  stdout.flush
  let typed ← (← IO.getStdin).getLine
  match CommandLine.linesFrom [] typed.toList with
  | line :: _ =>
    let s := s.withClock (← systemClock)
    let (printed, reported, s) := CommandLine.replLine ampleFuel s line
    stdout.putStr printed
    (← IO.getStderr).putStr reported
    replLoop s
  | [] => stdout.putStr "\n"

/-- What is written when the arguments ask for nothing. -/
def usage : String := "usage: lox [--log] tokenize|parse [--json]|evaluate|resolve|run FILE, or repl"

/-- Does what the arguments ask for and gives the exit code. -/
def runArguments (args : List String) : IO UInt32 := do
  match Invocation.ofArgs? args with
  | none =>
    IO.eprintln usage
    return 2
  | some invocation =>
    if invocation.log then IO.FS.writeFile "app.log" ""
    let clock ← systemClock
    if invocation.command = .repl then
      replLoop (Session.start .reliable clock)
      return 0
    else
      let file ← match invocation.file with
        | some name => readFile name
        | none => pure (.contents [])
      let outcome := invocation.execute ampleFuel clock (fun _ => file) ""
      IO.print outcome.stdout
      IO.eprint outcome.stderr
      return outcome.exit.toUInt32

end Lox.Program

def main (args : List String) : IO UInt32 := Lox.Program.runArguments args
