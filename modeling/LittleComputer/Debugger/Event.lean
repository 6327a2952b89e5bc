import LittleComputer.Debugger.Command
import LittleComputer.Machine.Effect

/-!
# What the debugger reports

Everything that the debugger shows is an event, which `Event.log` puts into words.
-/

namespace LittleComputer.Debugger

inductive Event where
  | started
  /-- A line was empty, and there is no command to repeat. -/
  | nothingToRepeat
  | endOfInput
  /-- A line ends between quotes. -/
  | openQuote
  | refused (reason : Refusal)
  | noAddress (error : AddressError)
  /-- The machine is halted, and a command was to run it. -/
  | alreadyHalted
  | notice (n : Notice)
  | programHalted
  | faulted (fault : Fault)
  | stoppedAt (address : Word)
  | breakpointSet (address : Word)
  | breakpointKept (address : Word)
  | breakpointRemoved (address : Word)
  | breakpointMissing (address : Word)
  /-- A label of the instruction shown next. -/
  | heading (label : String)
  | instruction (breakpoint current : Bool) (address word : Word)
  | registers (all : Registers)
  | register (r : Register) (value : Word)
  | cell (address value : Word)
  | console (text : String)
  | breakpointCount (count : Nat)
  | labelCount (count : Nat)
  | label (name : String) (address : Word)
  | stepCount (count : Nat)
  | separator
deriving DecidableEq

/-- How a command line that is no command is answered. -/
def Refusal.message : Refusal → String
  | .help =>
    "commands are " ++ ", ".intercalate (commandTree.subcommands.map (·.name)) ++
      "; an empty line repeats the last one"
  | .usage => "unknown command, or wrong arguments"
  | .overflow => LocationError.overflow.message

/-- A count of things with a name. -/
def shownCount (name : String) : Nat → String
  | 0 => s!"No {name}s"
  | 1 => s!"1 {name}:"
  | count => s!"{count} {name}s:"

/-- What stands in front of an instruction: whether it has a breakpoint, and whether it is next. -/
def gutter (breakpoint current : Bool) : String :=
  (if breakpoint then "B" else " ") ++ (if current then ">" else " ")

/-- What stands for something that is not there. -/
def dash : String := "\u2013"

/-- The text of the instruction that a word encodes. -/
def shownInstruction (w : Word) : String :=
  match Instruction.decode w with
  | .ok i => i.text
  | .error _ => dash

namespace Event

/-- The log entry of an event. -/
def log : Event → Log
  | .started =>
    .plain .info "Running in interactive mode. Type \"help\" to list available commands."
  | .nothingToRepeat => .plain .info "Type \"help\" to get the list of available commands"
  | .endOfInput => .plain .info "EOF, exiting"
  | .openQuote => .plain .warn "Invalid input"
  | .refused reason => ⟨.warn, none, [("error", .text reason.message)]⟩
  | .noAddress error => ⟨.warn, none, [("error", .text error.message)]⟩
  | .alreadyHalted => .plain .warn "Computer is halted. Use \"exit\" to quit"
  | .notice n => n.log
  | .programHalted => .plain .info "Program halted"
  | .faulted fault => ⟨.warn, some "Could not step", [("error", .text fault.fullMessage)]⟩
  | .stoppedAt address => about .info "Stopped at a breakpoint" address
  | .breakpointSet address => about .info "Setting a breakpoint" address
  | .breakpointKept address => about .warn "A breakpoint was already set" address
  | .breakpointRemoved address => about .info "Removing breakpoint" address
  | .breakpointMissing address => about .warn "No breakpoint was set here" address
  | .heading name => .plain .info s!"          {name}:"
  | .instruction breakpoint current address word =>
    let front := s!"{gutter breakpoint current} {Word.text address}  {Word.text word}"
    .plain .info s!"{front}    {shownInstruction word}"
  | .registers all => .plain .info s!"Registers: {all.text}"
  | .register r value => .plain .info s!"Register {r.name} = {Word.text value} ({value.toInt})"
  | .cell address value =>
    .plain .info s!"{Word.text address}: {Word.text value} ({value.toInt})"
  | .console text => .plain .info s!"Console output: {Text.quoted text}"
  | .breakpointCount count => .plain .info (shownCount "breakpoint" count)
  | .labelCount count => .plain .info (shownCount "label" count)
  | .label name address => .plain .info s!"  {name} => {Word.text address}"
  | .stepCount count => .plain .info s!"Steps: {count}"
  | .separator => .plain .info dash
where
  /-- An entry about an address. -/
  about (level : Level) (message : String) (address : Word) : Log :=
    ⟨level, some message, [("address", .number address.toNat)]⟩

end Event

end LittleComputer.Debugger
