import LittleComputer.CommandLine.Arguments
import LittleComputer.Debugger.Completion

/-!
# The program

Everything that is decided is decided elsewhere. Here files are read, lines are taken from the
standard input, and what came of it is printed.
-/

namespace LittleComputer.CommandLine

/-- The level from which log entries are printed. -/
def threshold : Level := .info

/-- Instructions after which the debugger gives up on a program. -/
def patience : Nat := 4611686018427387904

def say (l : Log) : IO Unit := IO.println l.line

/-- Answer command lines until the session is over, given what is read of the next one. -/
partial def converse (s : Debugger.Session) (read : List Char) : IO (Machine × Bool) := do
  let input ← IO.getStdin
  if ← input.isTty then
    IO.print Debugger.shownPrompt
    (← IO.getStdout).flush
  let piece ← input.getLine
  if piece.isEmpty then
    say Debugger.Event.endOfInput.log
    return (s.machine, true)
  match Debugger.readPiece read piece.toList with
  | .incomplete read => converse s read
  | .complete line =>
    let reply := s.enter patience line
    reply.events.forM fun e => say e.log
    match reply.ending with
    | none => converse reply.session []
    | some .exited | some .endOfInput => return (reply.session.machine, true)
    | some .overflow | some .exhausted => return (reply.session.machine, false)

/-- Run a program under the debugger. -/
def debug (options : RunOptions) (source : String) : IO Outcome := do
  match assembleSource options.strict source with
  | .error e => return .ofError source e
  | .ok p =>
    match loaded options p with
    | .error f => return { outputs := [faulted f], failed := true }
    | .ok m =>
      IO.print (starting.shown threshold)
      say Debugger.Event.started.log
      let (m, well) ← converse (.ofMachine m p) []
      return { outputs := if well then finished m else [], failed := !well }

/-- Do what an invocation asks for. -/
def perform (i : Invocation) : IO UInt32 := do
  say ⟨.info, some "Reading program", [("path", .text i.path)]⟩
  let source ← IO.FS.readFile i.path
  let outcome ←
    match i.action with
    | .assemble options => pure (assemble options source)
    | .run options => pure (run options source)
    | .debug options => debug options source
  IO.print (outcome.stdout threshold)
  if let some report := outcome.report then IO.eprint (report.text i.path)
  return outcome.exitCode.toUInt32

end LittleComputer.CommandLine

open LittleComputer CommandLine

def main (arguments : List String) : IO UInt32 := do
  match Invocation.ofArguments arguments with
  | none =>
    IO.eprint usage
    return 2
  | some i =>
    try perform i
    catch e =>
      say (.plain .error e.toString)
      return 1
