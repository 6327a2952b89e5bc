import LittleComputer.Instruction.Encode
import LittleComputer.Text.Hex

/-!
# Decoding instructions

A word is decoded by its opcode. Bits that an instruction leaves unused have to be zero, so that
every word has at most one instruction and every instruction one word.
-/

namespace LittleComputer

structure DecodeError where
  word : Word
deriving DecidableEq, Repr

namespace DecodeError

def message (e : DecodeError) : String :=
  s!"word 0x{Text.Hex.lower 4 e.word.toNat} does not encode any instruction"

end DecodeError

namespace Word

def opcode (w : Word) : Nat := w.toNat / 4096

/-- The three bits below the opcode. -/
def first (w : Word) : Nat := w.toNat / 512 % 8

/-- The three bits above the operand. -/
def second (w : Word) : Nat := w.toNat / 64 % 8

/-- The six lowest bits. -/
def operand (w : Word) : Nat := w.toNat % 64

end Word

namespace Instruction

/-- An operation, whose operand is an immediate if the sixth bit is set. Otherwise the operand is a
register, with two zero bits before it. -/
def decodeOperation (op : Operation) (w : Word) : Option Instruction :=
  let dr := Register.ofBits w.first
  let sr1 := Register.ofBits w.second
  if 32 ≤ w.operand then
    let imm5 := Field.imm5.extract w
    if op = .xor ∧ imm5 = -1 then some (.not dr sr1)
    else some (.operate op dr sr1 (.immediate imm5))
  else if w.operand < 8 then some (.operate op dr sr1 (.register (Register.ofBits w.operand)))
  else none

/-- A jump to a register, `ret` being the one to `R7`. All other bits are zero. -/
def decodeJump (w : Word) : Option Instruction :=
  if w.first = 0 ∧ w.operand = 0 then
    if w.second = 7 then some .ret else some (.jump (Register.ofBits w.second))
  else none

/-- A call, by an offset if the highest bit below the opcode is set, else by a register. -/
def decodeCall (w : Word) : Option Instruction :=
  if 4 ≤ w.first then some (.call (Field.pcOffset11.extract w))
  else if w.first = 0 ∧ w.operand = 0 then some (.callRegister (Register.ofBits w.second))
  else none

/-- A shift. One of the four modes has no meaning. -/
def decodeShift (w : Word) : Option Instruction :=
  let dr := Register.ofBits w.first
  let sr := Register.ofBits w.second
  let amount4 := (Field.amount4.extract w).toNat
  match w.operand / 16 with
  | 0 => some (.shift .left dr sr amount4)
  | 1 => some (.shift .rightLogical dr sr amount4)
  | 3 => some (.shift .rightArithmetic dr sr amount4)
  | _ => none

/-- The instruction that a word encodes, if any. -/
def decode? (w : Word) : Option Instruction :=
  let first := Register.ofBits w.first
  let second := Register.ofBits w.second
  match w.opcode with
  | 0 => some (.branch (Condition.ofBits w.first) (Field.pcOffset9.extract w))
  | 1 => decodeOperation .add w
  | 2 => some (.load .byte first second (Field.offset6.extract w))
  | 3 => some (.store .byte first second (Field.offset6.extract w))
  | 4 => decodeCall w
  | 5 => decodeOperation .and w
  | 6 => some (.load .word first second (Field.offset6.extract w))
  | 7 => some (.store .word first second (Field.offset6.extract w))
  | 8 => if w.toNat % 4096 = 0 then some .returnFromInterrupt else none
  | 9 => decodeOperation .xor w
  | 10 => some (.load .indirect first second (Field.offset6.extract w))
  | 11 => some (.store .indirect first second (Field.offset6.extract w))
  | 12 => decodeJump w
  | 13 => decodeShift w
  | 14 => some (.loadAddress first (Field.pcOffset9.extract w))
  | 15 =>
    if w.toNat % 4096 < 256 then some (.trap (Field.trapVector8.extract w).toNat) else none
  | _ => none

/-- The instruction that a word encodes. -/
def decode (w : Word) : Except DecodeError Instruction :=
  match decode? w with
  | some i => .ok i
  | none => .error ⟨w⟩

/-- A word decodes to an instruction or is reported. -/
theorem decode_eq_ok_iff {w : Word} {i : Instruction} : decode w = .ok i ↔ decode? w = some i := by
  unfold decode
  split <;> simp_all

end Instruction

end LittleComputer
