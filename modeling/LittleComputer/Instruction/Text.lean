import LittleComputer.Instruction.Encode
import LittleComputer.Text.Hex

/-!
# Disassembly

The text of an instruction is one that the assembler reads back as the same word. A branch on no
condition has no mnemonic that keeps an offset, so it is written as the word it is.
-/

namespace LittleComputer

namespace Operation

def name : Operation → String
  | .add => "ADD"
  | .and => "AND"
  | .xor => "XOR"

end Operation

namespace Access

def loadName : Access → String
  | .byte => "LDB"
  | .word => "LDW"
  | .indirect => "LDI"

def storeName : Access → String
  | .byte => "STB"
  | .word => "STW"
  | .indirect => "STI"

end Access

namespace Shift

def name : Shift → String
  | .left => "LSHF"
  | .rightLogical => "RSHFL"
  | .rightArithmetic => "RSHFA"

end Shift

namespace Argument

def text : Argument → String
  | .register sr2 => sr2.name
  | .immediate imm5 => s!"#{imm5}"

end Argument

/-- A word as data. -/
def Word.fillText (w : Word) : String := ".FILL " ++ w.text

namespace Instruction

def text : Instruction → String
  | .operate op dr sr1 argument => s!"{op.name} {dr.name}, {sr1.name}, {argument.text}"
  | .not dr sr => s!"NOT {dr.name}, {sr.name}"
  | .branch condition offset9 =>
    if condition = .empty then
      if offset9 = 0 then "NOP"
      else Word.fillText (BitVec.ofNat 16 (offset9 % 512).toNat)
    else s!"BR{condition.letters} #{offset9}"
  | .jump base => s!"JMP {base.name}"
  | .ret => "RET"
  | .call offset11 => s!"JSR #{offset11}"
  | .callRegister base => s!"JSRR {base.name}"
  | .load access dr base offset6 => s!"{access.loadName} {dr.name}, {base.name}, #{offset6}"
  | .store access sr base offset6 => s!"{access.storeName} {sr.name}, {base.name}, #{offset6}"
  | .loadAddress dr offset9 => s!"LEA {dr.name}, #{offset9}"
  | .shift direction dr sr amount4 => s!"{direction.name} {dr.name}, {sr.name}, #{amount4}"
  | .returnFromInterrupt => "RTI"
  | .trap vector =>
    match Service.ofVector? vector with
    | some service => service.name
    | none => "TRAP x" ++ Text.Hex.upper 2 vector

end Instruction

namespace EncodeError

def message : EncodeError → String
  | .fieldOutOfRange field value =>
    s!"{field.name} value {value} does not fit (expected {field.min} to {field.max})"
  | .aliased i => s!"\x60{i.text}\x60 is encoded as a different instruction"

end EncodeError

end LittleComputer
