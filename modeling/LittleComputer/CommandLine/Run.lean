import LittleComputer.CommandLine.Assemble
import LittleComputer.Debugger.Session
import LittleComputer.Machine.Advance

/-!
# Running from the command line

Running a source assembles it, loads it and executes a number of instructions. What the program
wrote is printed when it ends, but not after a fault. A run under the debugger starts and ends the
same way.
-/

namespace LittleComputer.CommandLine

structure RunOptions where
  /-- Whether the source has to set its address. -/
  strict : Bool := false
  /-- Number of instructions to execute. -/
  maxSteps : Nat := 100000
  /-- What can be read from the console. -/
  input : Option String := none
deriving DecidableEq, Repr

/-- A machine that is about to execute a program. -/
def loaded (options : RunOptions) (p : Program) : Except Fault Machine :=
  (Machine.ofProgram p).map fun m =>
    match options.input with
    | some text => m.pushInput text
    | none => m

/-- The content of the console, ended by a line end if there is any. -/
def endedLine (text : String) : String :=
  match text.toList.getLast? with
  | none | some '\n' => text
  | some _ => text ++ "\n"

/-- What is printed after a run. -/
def finished (m : Machine) : List Output :=
  [.text (endedLine m.console),
    .log ⟨.info, some "End of program",
      [("registers", .text m.registers.text), ("steps", .number m.steps)]⟩]

/-- What is reported when a run begins. -/
def starting : Output := .log (.plain .info "Running program")

/-- The end of a run by a fault. -/
def faulted (f : Fault) : Output := .log (.plain .error f.fullMessage)

/-- What is printed from the start of a run to its end. -/
def ran (a : Machine.Advance) : Outcome :=
  let before := starting :: a.notices.map fun n => .log n.log
  match a.stop with
  | .faulted f => { outputs := before ++ [faulted f], failed := true }
  | .limit =>
    let steps := ("steps", .number a.machine.steps)
    let reached : Log := ⟨.warn, some "Step limit reached before the program halted", [steps]⟩
    { outputs := before ++ .log reached :: finished a.machine }
  | _ => { outputs := before ++ finished a.machine }

def run (options : RunOptions) (source : String) : Outcome :=
  match assembleSource options.strict source with
  | .error e => .ofError source e
  | .ok p =>
    match loaded options p with
    | .error f => { outputs := [faulted f], failed := true }
    | .ok m => ran (m.advance (fun _ => false) options.maxSteps)

end LittleComputer.CommandLine
