import LittleComputer.Log
import LittleComputer.Machine.State

/-!
# Effects

What an instruction does is worked out as a value before any of it is done, and done at once by
`Machine.commit`. So an instruction that faults has done nothing.
-/

namespace LittleComputer

/-- What an instruction writes to memory. -/
inductive Store where
  | nothing
  | byte (address : Word) (value : Byte)
  | word (address : Word) (value : Word)
deriving DecidableEq, Repr

/-- Do what a store says. -/
def Memory.store (m : Memory) : Store → Memory
  | .nothing => m
  | .byte a b => m.setByte a b
  | .word a w => m.setWord a w

/-- What is reported while the machine runs. -/
inductive Notice where
  /-- The routine that stops the machine was called. -/
  | halting
  | halted (steps : Nat)
  /-- A character was to be read, and none was there. -/
  | noInput
deriving DecidableEq, Repr

def Notice.log : Notice → Log
  | .halting => .plain .info "HALT"
  | .halted steps => ⟨.info, some "Machine halted", [("steps", .number steps)]⟩
  | .noInput => .plain .warn "No input available, R0 left unchanged"

structure Effect where
  registers : Registers
  /-- The register written. -/
  modified : Option Register
  store : Store := .nothing
  /-- What is written to the console. -/
  output : String := ""
  /-- Whether a byte is taken off the input. -/
  reads : Bool := false
  /-- Whether a byte was to be read, and none was there. -/
  starved : Bool := false
  halts : Bool := false

namespace Effect

/-- What is reported about an effect, after which the given number of steps is done. -/
def notices (e : Effect) (steps : Nat) : List Notice :=
  (if e.starved then [.noInput] else []) ++ (if e.halts then [.halting, .halted steps] else [])

end Effect

namespace Machine

/-- Do what an effect says. -/
def commit (m : Machine) (e : Effect) : Machine where
  registers := e.registers
  memory := m.memory.store e.store
  halted := m.halted || e.halts
  console := m.console ++ e.output
  input := if e.reads then m.input.tail else m.input
  lastModified := e.modified
  steps := m.steps + 1

/-- An effect carries all registers. -/
@[simp] theorem registers_commit (m : Machine) (e : Effect) :
    (m.commit e).registers = e.registers := rfl

/-- An effect carries what is stored. -/
@[simp] theorem memory_commit (m : Machine) (e : Effect) :
    (m.commit e).memory = m.memory.store e.store := rfl

/-- An effect can halt the machine, and cannot start it again. -/
@[simp] theorem halted_commit (m : Machine) (e : Effect) :
    (m.commit e).halted = (m.halted || e.halts) := rfl

/-- An effect is counted as one step. -/
@[simp] theorem steps_commit (m : Machine) (e : Effect) : (m.commit e).steps = m.steps + 1 := rfl

end Machine

/-- The address at a distance in bytes, which has to be one of memory. -/
def Word.offset (a : Word) (distance : Int) : Except Fault Word :=
  match Word.address? (a.toNat + distance) with
  | some b => .ok b
  | none => .error (.addressOutOfRange (a.toNat + distance))

/-- The word at an address, as an instruction reads it. -/
def Memory.fetch (m : Memory) (a : Word) : Except Fault Word :=
  (m.readWord a).mapError .ofOutOfRange

/-- An address has another at a distance if their exact sum is one of memory. -/
theorem Word.offset_eq_ok_iff {a b : Word} {distance : Int} :
    a.offset distance = .ok b ↔ (a.toNat : Int) + distance = b.toNat := by
  unfold Word.offset
  rw [← Word.address?_eq_some_iff]
  split <;> simp_all

end LittleComputer
