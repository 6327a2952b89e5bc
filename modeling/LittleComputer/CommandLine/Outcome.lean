import LittleComputer.Assembly.Report
import LittleComputer.Log

/-!
# Outcomes of the program

What an invocation prints is worked out as a value: log entries and text in the order in which they
are printed, whether it fails, and the report of a source that does not assemble.
-/

namespace LittleComputer.CommandLine

/-- Something printed. -/
inductive Output where
  | log (l : Log)
  | text (s : String)
deriving DecidableEq, Repr

/-- What is printed, without log entries below a level. -/
def Output.shown (threshold : Level) : Output → String
  | .log l => if threshold.rank ≤ l.level.rank then l.line ++ "\n" else ""
  | .text s => s

structure Outcome where
  outputs : List Output
  failed : Bool := false
  report : Option Assembly.Report := none
deriving DecidableEq, Repr

namespace Outcome

/-- All that is printed. -/
def stdout (threshold : Level) (o : Outcome) : String :=
  String.join (o.outputs.map (·.shown threshold))

def exitCode (o : Outcome) : Nat := if o.failed then 1 else 0

/-- A source does not assemble. -/
def ofError (source : String) (e : Assembly.Error) : Outcome where
  outputs := []
  failed := true
  report := some (.ofError source e)

end Outcome

end LittleComputer.CommandLine
