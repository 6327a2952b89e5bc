import LittleComputer.Condition
import LittleComputer.Instruction.Service
import LittleComputer.Register

/-!
# Instructions

The structured form of the instruction set. Immediates and offsets are unbounded integers here:
which of them fit a field of the instruction word is for the encoder to say. Offsets count words,
except those of a byte access, which count bytes.
-/

namespace LittleComputer

/-- The two-operand operations. -/
inductive Operation where
  | add
  | and
  | xor
deriving DecidableEq, Repr

/-- The second operand of an operation. -/
inductive Argument where
  | register (sr2 : Register)
  | immediate (imm5 : Int)
deriving DecidableEq, Repr

/-- What a load or store moves, and whether the address is that of a pointer. -/
inductive Access where
  | byte
  | word
  | indirect
deriving DecidableEq, Repr

inductive Shift where
  | left
  /-- Zeros come in on the left. -/
  | rightLogical
  /-- Copies of the sign come in on the left. -/
  | rightArithmetic
deriving DecidableEq, Repr

inductive Instruction where
  | operate (op : Operation) (dr sr1 : Register) (argument : Argument)
  | not (dr sr : Register)
  | branch (condition : Condition) (offset9 : Int)
  | jump (base : Register)
  | ret
  /-- Call a routine at an offset from the program counter. -/
  | call (offset11 : Int)
  /-- Call the routine whose address is in a register. -/
  | callRegister (base : Register)
  | load (access : Access) (dr base : Register) (offset6 : Int)
  | store (access : Access) (sr base : Register) (offset6 : Int)
  /-- Put an address at an offset from the program counter into a register. -/
  | loadAddress (dr : Register) (offset9 : Int)
  | shift (direction : Shift) (dr sr : Register) (amount4 : Nat)
  | returnFromInterrupt
  | trap (vector : Nat)
deriving DecidableEq, Repr

namespace Instruction

/-- The register that an instruction computes a result for, setting the condition codes from it. -/
def result? : Instruction → Option Register
  | .operate _ dr _ _ | .not dr _ | .load _ dr _ _ | .loadAddress dr _ | .shift _ dr _ _ => some dr
  | _ => none

/-- Whether the condition codes follow the result. -/
def setsConditionCodes (i : Instruction) : Bool := i.result?.isSome

/-- The instruction that does nothing: a branch on no condition. -/
def nop : Instruction := .branch .empty 0

end Instruction

end LittleComputer
