import LittleComputer.Debugger.Breakpoints
import LittleComputer.Debugger.Event
import LittleComputer.Debugger.Input
import LittleComputer.Machine.Advance

/-!
# Sessions of the debugger

A session holds a machine and answers command lines with events. Each answer is worked out from the
session alone, so a session over many lines is a fold over them.

A program can run for ever, so the command that resumes it has a bound on the instructions that it
executes. A session that meets the bound is over.
-/

namespace LittleComputer.Debugger

/-- What is shown of the notices on the way, and of a halt or a fault at the end. -/
def advanceEvents (a : Machine.Advance) : List Event :=
  a.notices.map .notice ++
    match a.stop with
    | .halted => [.programHalted]
    | .faulted f => [.faulted f]
    | _ => []

/-- Why a session is over. -/
inductive Ending where
  | exited
  | endOfInput
  /-- A location was too large to work with. -/
  | overflow
  /-- A program ran for too long. -/
  | exhausted
deriving DecidableEq, Repr

structure Session where
  machine : Machine
  symbols : Assembly.Symbols
  breakpoints : Breakpoints := []
  /-- Where the next `list` starts, if not at the program counter. -/
  listAt : Option Word := none
  /-- The last command that was accepted. -/
  last : Option Command := none

/-- The session after a line, what it shows, and whether it is over. -/
structure Reply where
  session : Session
  events : List Event
  ending : Option Ending := none

/-- The addresses of instructions to list, which do not go past the end of memory. -/
def listAddresses (start : Word) (count : Nat) : List Word :=
  (List.range count).filterMap fun i : Nat => Word.address? (start.toNat + wordSize * i)

/-- The addresses of words to show, in descending order if the count is negative. -/
def cellAddresses (start : Word) (count : Int) : List Word :=
  let stride : Int := if count < 0 then -wordSize else wordSize
  (List.range (min count.natAbs memorySize)).filterMap fun i : Nat =>
    Word.address? (start.toNat + i * stride)

namespace Session

/-- A session with a machine that has a program loaded. -/
def ofMachine (machine : Machine) (program : Program) : Session where
  machine
  symbols := program.symbols.sorted

/-- An instruction with its labels. -/
def instructionAt (s : Session) (address : Word) : List Event :=
  (s.symbols.labelsAt address).map .heading ++
    [.instruction (s.breakpoints.contains address) (s.machine.registers.pc == address) address
      (s.machine.memory.peek address)]

def breakpointEvents (s : Session) : List Event :=
  .breakpointCount s.breakpoints.length :: s.breakpoints.flatMap s.instructionAt

def labelEvents (s : Session) : List Event :=
  .labelCount s.symbols.length :: s.symbols.map fun (name, address) => .label name address

def stepEvents (s : Session) : List Event := [.stepCount s.machine.steps]

/-- What `info` shows. -/
def topicEvents (s : Session) : Option Topic → List Event
  | some .breakpoints => s.breakpointEvents
  | some .labels => s.labelEvents
  | some .steps => s.stepEvents
  | none =>
    s.breakpointEvents ++ .separator :: s.labelEvents ++ .separator :: s.stepEvents

def registerEvents (s : Session) : Option Register → List Event
  | some r => [.register r (s.machine.registers.get r)]
  | none => [.registers s.machine.registers]

/-- A reply that needs the address of a location. -/
def withAddress (s : Session) (location : Location) (reply : Word → Reply) : Reply :=
  match location.evaluate s.machine.registers s.symbols with
  | .ok address => reply address
  | .error .overflow => ⟨s, [], some .overflow⟩
  | .error e => ⟨s, [.noAddress e], none⟩

def setBreakpoint (s : Session) (address : Word) : Reply :=
  if s.breakpoints.contains address then ⟨s, [.breakpointKept address], none⟩
  else
    ⟨{ s with breakpoints := s.breakpoints.insert address }, [.breakpointSet address], none⟩

def removeBreakpoint (s : Session) (address : Word) : Reply :=
  if s.breakpoints.contains address then
    ⟨{ s with breakpoints := s.breakpoints.remove address }, [.breakpointRemoved address], none⟩
  else ⟨s, [.breakpointMissing address], none⟩

/-- Show instructions, from where the last list ended. -/
def list (s : Session) (count : Nat) : Reply :=
  let start := s.listAt.getD s.machine.registers.pc
  let s := { s with listAt := some (start + BitVec.ofNat 16 (wordSize * count)) }
  ⟨s, (listAddresses start count).flatMap s.instructionAt, none⟩

/-- The session with its machine taken further. -/
def advanced (s : Session) (a : Machine.Advance) : Session :=
  { s with machine := a.machine, listAt := none }

/-- Execute instructions, and show the next one if the machine can go on. -/
def step (s : Session) (count : Nat) : Reply :=
  let a := s.machine.advance (fun _ => false) count
  let s := s.advanced a
  let next :=
    match a.stop with
    | .limit => s.instructionAt s.machine.registers.pc
    | _ => []
  ⟨s, advanceEvents a ++ next, none⟩

/-- Execute instructions up to a breakpoint. -/
def resume (fuel : Nat) (s : Session) : Reply :=
  let a := s.machine.advance s.breakpoints.contains fuel
  let s := s.advanced a
  match a.stop with
  | .limit => ⟨s, advanceEvents a, some .exhausted⟩
  | .arrived => ⟨s, advanceEvents a ++ [.stoppedAt s.machine.registers.pc], none⟩
  | _ => ⟨s, advanceEvents a, none⟩

/-- Carry out a command. -/
def execute (fuel : Nat) (s : Session) : Command → Reply
  | .step count =>
    if s.machine.halted then ⟨s, [.alreadyHalted], none⟩ else s.step count
  | .exit => ⟨s, [], some .exited⟩
  | .registers register => ⟨s, s.registerEvents register, none⟩
  | .memory location count =>
    s.withAddress location fun start =>
      ⟨s, (cellAddresses start count).map fun a => .cell a (s.machine.memory.peek a), none⟩
  | .list count => s.list count
  | .setBreakpoint location => s.withAddress location s.setBreakpoint
  | .removeBreakpoint location => s.withAddress location s.removeBreakpoint
  | .resume =>
    if s.machine.halted then ⟨s, [.alreadyHalted], none⟩ else s.resume fuel
  | .output => ⟨s, [.console s.machine.console], none⟩
  | .info topic => ⟨s, s.topicEvents topic, none⟩

/-- Answer the words of a line. -/
def enterWords (fuel : Nat) (s : Session) (words : List String) : Reply :=
  match Command.ofWords words with
  | .ok command => { s with last := some command }.execute fuel command
  | .error .overflow => ⟨s, [], some .overflow⟩
  | .error reason => ⟨s, [.refused reason], none⟩

/-- Answer a line. An empty one repeats the last command. -/
def enter (fuel : Nat) (s : Session) (line : List Char) : Reply :=
  match line with
  | [] =>
    match s.last with
    | some command => s.execute fuel command
    | none => ⟨s, [.nothingToRepeat], none⟩
  | _ =>
    match splitWords line with
    | some words => s.enterWords fuel words
    | none => ⟨s, [.openQuote], none⟩

end Session

/-- A session that is over. -/
structure Transcript where
  session : Session
  events : List Event
  ending : Ending

namespace Session

/-- Answer lines until the session or the input is over, given the events before them. -/
def runFrom (fuel : Nat) (events : List Event) (s : Session) : List (List Char) → Transcript
  | [] => ⟨s, events ++ [.endOfInput], .endOfInput⟩
  | line :: rest =>
    let reply := s.enter fuel line
    match reply.ending with
    | some ending => ⟨reply.session, events ++ reply.events, ending⟩
    | none => reply.session.runFrom fuel (events ++ reply.events) rest

/-- The whole session over some lines. -/
def run (fuel : Nat) (s : Session) (lines : List (List Char)) : Transcript :=
  s.runFrom fuel [.started] lines

end Session

end LittleComputer.Debugger
