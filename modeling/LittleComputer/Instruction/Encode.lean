import LittleComputer.Instruction.Basic
import LittleComputer.Instruction.Field

/-!
# Encoding instructions

An instruction word has a four-bit opcode, two three-bit fields that mostly name registers, and six
bits of operand. Two spellings are refused because another instruction has the same word: an
exclusive or with minus one is `not`, and a jump to `R7` is `ret`.
-/

namespace LittleComputer

inductive EncodeError where
  | fieldOutOfRange (field : Field) (value : Int)
  | aliased (i : Instruction)
deriving DecidableEq, Repr

namespace Operation

def opcode : Operation → Nat
  | .add => 1
  | .and => 5
  | .xor => 9

/-- The opcode of an operation takes four bits. -/
theorem opcode_lt (op : Operation) : op.opcode < 16 := by
  cases op <;> decide

end Operation

namespace Access

def loadOpcode : Access → Nat
  | .byte => 2
  | .word => 6
  | .indirect => 10

def storeOpcode : Access → Nat
  | .byte => 3
  | .word => 7
  | .indirect => 11

/-- The opcode of a load takes four bits. -/
theorem loadOpcode_lt (access : Access) : access.loadOpcode < 16 := by
  cases access <;> decide

/-- The opcode of a store takes four bits. -/
theorem storeOpcode_lt (access : Access) : access.storeOpcode < 16 := by
  cases access <;> decide

end Access

namespace Shift

/-- The two bits above the amount. -/
def mode : Shift → Nat
  | .left => 0
  | .rightLogical => 1
  | .rightArithmetic => 3

/-- The direction of a shift takes two bits. -/
theorem mode_lt (direction : Shift) : direction.mode < 4 := by
  cases direction <;> decide

end Shift

namespace Word

/-- Put the parts of an instruction word together. The operand may run over into the fields of the
two registers, where they are given as zero. -/
def pack (opcode first second operand : Nat) : Word :=
  BitVec.ofNat 16 (opcode * 4096 + first * 512 + second * 64 + operand)

end Word

namespace Field

/-- The bits that hold a number. -/
def insert (f : Field) (value : Int) : Except EncodeError Nat :=
  match f.insert? value with
  | some n => .ok n
  | none => .error (.fieldOutOfRange f value)

end Field

namespace Instruction

/-- The word of an instruction. -/
def encode : Instruction → Except EncodeError Word
  | .operate op dr sr1 (.register sr2) => .ok (.pack op.opcode dr sr1 sr2)
  | .operate op dr sr1 (.immediate imm5) =>
    if op = .xor ∧ imm5 = -1 then .error (.aliased (.operate op dr sr1 (.immediate imm5)))
    else (Field.imm5.insert imm5).map fun n => .pack op.opcode dr sr1 (32 + n)
  | .not dr sr => .ok (.pack 9 dr sr 63)
  | .branch condition offset9 =>
    (Field.pcOffset9.insert offset9).map fun n => .pack 0 condition.bits 0 n
  | .jump base =>
    if base = .link then .error (.aliased (.jump base)) else .ok (.pack 12 0 base 0)
  | .ret => .ok (.pack 12 0 7 0)
  | .call offset11 => (Field.pcOffset11.insert offset11).map fun n => .pack 4 4 0 n
  | .callRegister base => .ok (.pack 4 0 base 0)
  | .load access dr base offset6 =>
    (Field.offset6.insert offset6).map fun n => .pack access.loadOpcode dr base n
  | .store access sr base offset6 =>
    (Field.offset6.insert offset6).map fun n => .pack access.storeOpcode sr base n
  | .loadAddress dr offset9 => (Field.pcOffset9.insert offset9).map fun n => .pack 14 dr 0 n
  | .shift direction dr sr amount4 =>
    (Field.amount4.insert amount4).map fun n => .pack 13 dr sr (16 * direction.mode + n)
  | .returnFromInterrupt => .ok (.pack 8 0 0 0)
  | .trap vector => (Field.trapVector8.insert vector).map fun n => .pack 15 0 0 n

end Instruction

end LittleComputer
