import LittleComputer.Assembly.Program
import LittleComputer.Instruction.Decode
import LittleComputer.Machine.Memory
import LittleComputer.Machine.Registers

/-!
# The machine

The whole state of a machine: registers, memory, what is on the console, what waits to be read from
it, and a count of the instructions executed. Loading a program starts from a fresh state.
-/

namespace LittleComputer

/-- Why the machine cannot execute an instruction. -/
inductive Fault where
  | undecodable (address : Word) (error : DecodeError)
  | addressOutOfRange (address : Int)
  | halted
  | unknownTrap (vector : Nat)
deriving DecidableEq, Repr

namespace Fault

def message : Fault → String
  | .undecodable address _ =>
    s!"could not decode instruction at 0x{Text.Hex.lower 4 address.toNat}"
  | .addressOutOfRange address => OutOfRange.message ⟨address⟩
  | .halted => "the machine is halted"
  | .unknownTrap vector => s!"unknown trap vector 0x{Text.Hex.lower 2 vector}"

/-- The message with that of the error behind the fault, if there is one. -/
def fullMessage (f : Fault) : String :=
  match f with
  | .undecodable _ error => s!"{f.message}: {error.message}"
  | _ => f.message

def ofOutOfRange (e : OutOfRange) : Fault := .addressOutOfRange e.address

end Fault

structure Machine where
  registers : Registers
  memory : Memory
  halted : Bool
  /-- Everything written to the console. -/
  console : String
  /-- The bytes that wait to be read, the next one first. -/
  input : List Byte
  /-- The register that the last instruction wrote. -/
  lastModified : Option Register
  /-- Number of instructions executed since the last load. -/
  steps : Nat

namespace Machine

/-- A machine with empty memory. -/
def initial : Machine where
  registers := .initial
  memory := .zero
  halted := false
  console := ""
  input := []
  lastModified := none
  steps := 0

/-- A fresh machine that is about to execute the first of some words. -/
def ofWords (base : Word) (words : List Word) : Except Fault Machine :=
  match Memory.zero.load base words with
  | .ok memory => .ok { initial with registers := { Registers.initial with pc := base }, memory }
  | .error e => .error (.ofOutOfRange e)

/-- A fresh machine that is about to execute a program. -/
def ofProgram (p : Program) : Except Fault Machine := ofWords p.origin p.words

/-- Queue the bytes of a text to be read. -/
def pushInput (m : Machine) (text : String) : Machine :=
  { m with input := m.input ++ text.toUTF8.toList.map fun b => b.toBitVec }

/-- Overwrite a register, leaving the condition codes alone. -/
def setRegister (m : Machine) (i : Register) (w : Word) : Machine :=
  { m with registers := m.registers.set i w }

def setPc (m : Machine) (a : Word) : Machine :=
  { m with registers := { m.registers with pc := a } }

def setByte (m : Machine) (a : Word) (b : Byte) : Machine :=
  { m with memory := m.memory.setByte a b }

/-- Write a word to memory, or nothing if part of it is out of range. -/
def writeWord (m : Machine) (a w : Word) : Except Fault Machine :=
  match m.memory.writeWord a w with
  | .ok memory => .ok { m with memory }
  | .error e => .error (.ofOutOfRange e)

/-- The instruction that the program counter points to. -/
def current (m : Machine) : Except Fault Instruction := do
  let w ← (m.memory.readWord m.registers.pc).mapError Fault.ofOutOfRange
  (Instruction.decode w).mapError (Fault.undecodable m.registers.pc)

end Machine

end LittleComputer
