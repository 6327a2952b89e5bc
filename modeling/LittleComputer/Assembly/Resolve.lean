import LittleComputer.Assembly.Layout

/-!
# Resolving operands

Once every label has an address, an instruction at a given address becomes one with numbers in place
of its operands, and every item becomes the words that it takes. Operands are checked from left to
right, after their number.
-/

namespace LittleComputer.Assembly

open Source

/-- Where an item stands: its address, and the labels that it can refer to. -/
structure Scope where
  symbols : Symbols
  address : Word

def registerOf : Operand → Except Cause Register
  | .register r => .ok r
  | operand => .error (.malformedOperand operand.text)

/-- A number for a field of the instruction word. -/
def immediateOf (field : Field) : Operand → Except Cause Int
  | .number value =>
    if field.contains value then .ok value
    else .error (.immediateOutOfRange value field.min field.max)
  | operand => .error (.malformedOperand operand.text)

/-- An offset from a base register, which is always a number. -/
def displacementOf (field : Field) : Operand → Except Cause Int
  | .number offset =>
    if field.contains offset then .ok offset else .error (.offsetOutOfRange offset field.bits)
  | operand => .error (.malformedOperand operand.text)

namespace Scope

def labelAddress (s : Scope) (label : String) : Except Cause Word :=
  match s.symbols.address? label with
  | some address => .ok address
  | none => .error (.undefinedLabel label)

/-- The offset in words from the next instruction to a label. -/
def distance (s : Scope) (field : Field) (label : String) : Except Cause Int := do
  let target ← s.labelAddress label
  let bytes : Int := target.toNat - (s.address.toNat + wordSize)
  if bytes % wordSize = 0 then return bytes / wordSize
  else .error (.offsetOutOfRange bytes field.bits)

/-- An offset from the program counter. A label gives the distance to it, a number is the offset. -/
def offset (s : Scope) (field : Field) (operand : Operand) : Except Cause Int := do
  let offset ←
    match operand with
    | .number offset => .ok offset
    | .label label => s.distance field label
    | operand => .error (.malformedOperand operand.text)
  if field.contains offset then return offset
  else .error (.offsetOutOfRange offset field.bits)

/-- The second operand of an operation. -/
def argument : Operand → Except Cause Argument
  | .register r => .ok (.register r)
  | operand => do
    let imm5 ← immediateOf .imm5 operand
    return .immediate imm5

/-- The instruction that a mnemonic stands for with its operands. Of two instructions with the same
word, it is the one that can be encoded. -/
def resolve (s : Scope) (name : String) (operands : List Operand) :
    Mnemonic → Except Cause Instruction
  | .operate op => do
    let (dr, sr1, second) ← takeThree name operands
    let dr ← registerOf dr
    let sr1 ← registerOf sr1
    let argument ← argument second
    if op = .xor ∧ argument = .immediate (-1) then return .not dr sr1
    else return .operate op dr sr1 argument
  | .not => do
    let (dr, sr) ← takeTwo name operands
    return .not (← registerOf dr) (← registerOf sr)
  | .branch condition => do
    let target ← takeOne name operands
    return .branch condition (← s.offset .pcOffset9 target)
  | .nop => do
    takeNone name operands
    return .nop
  | .jump => do
    let base ← registerOf (← takeOne name operands)
    if base = .link then return .ret else return .jump base
  | .ret => do
    takeNone name operands
    return .ret
  | .call => do
    let target ← takeOne name operands
    return .call (← s.offset .pcOffset11 target)
  | .callRegister => do
    let base ← takeOne name operands
    return .callRegister (← registerOf base)
  | .load access => do
    let (dr, base, offset6) ← takeThree name operands
    return .load access (← registerOf dr) (← registerOf base) (← displacementOf .offset6 offset6)
  | .store access => do
    let (sr, base, offset6) ← takeThree name operands
    return .store access (← registerOf sr) (← registerOf base) (← displacementOf .offset6 offset6)
  | .loadAddress => do
    let (dr, target) ← takeTwo name operands
    return .loadAddress (← registerOf dr) (← s.offset .pcOffset9 target)
  | .shift direction => do
    let (dr, sr, amount4) ← takeThree name operands
    let dr ← registerOf dr
    let sr ← registerOf sr
    let amount4 ← immediateOf .amount4 amount4
    return .shift direction dr sr amount4.toNat
  | .returnFromInterrupt => do
    takeNone name operands
    return .returnFromInterrupt
  | .trap => do
    let vector ← immediateOf .trapVector8 (← takeOne name operands)
    return .trap vector.toNat
  | .service routine => do
    takeNone name operands
    return .trap routine.vector

/-- The instruction that a line stands for. -/
def instruction (s : Scope) (name : String) (operands : List Operand) :
    Except Cause Instruction :=
  match Mnemonic.ofName? name with
  | none => .error (.unknownMnemonic name)
  | some mnemonic => s.resolve name operands mnemonic

/-- The word of an instruction line. -/
def instructionWord (s : Scope) (name : String) (operands : List Operand) :
    Except Cause Word := do
  let i ← s.instruction name operands
  match i.encode with
  | .ok w => .ok w
  | .error e => .error (.ofEncodeError e)

/-- The word that `.FILL` stores: a number, signed or not, or the address of a label. -/
def fill (s : Scope) : Operand → Except Cause Word
  | .number value =>
    if -32768 ≤ value ∧ value ≤ 65535 then .ok (BitVec.ofInt 16 value)
    else .error (.immediateOutOfRange value (-32768) 65535)
  | .label label => s.labelAddress label
  | operand => .error (.malformedOperand operand.text)

/-- The words of an item. -/
def words (s : Scope) : Item → Except Cause (List Word)
  | .instruction name operands => (s.instructionWord name operands).map fun w => [w]
  | .fill value => (s.fill value).map fun w => [w]
  | .block count => .ok (List.replicate count 0)
  | .string text => .ok (text.toList.map (fun c => BitVec.ofNat 16 c.toNat) ++ [0])

end Scope

end LittleComputer.Assembly
