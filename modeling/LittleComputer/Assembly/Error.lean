import LittleComputer.Instruction.Text

/-!
# Why a source does not assemble

An error has a cause and the line that it was found on. A cause has a message, a code to look it up
by, and sometimes advice.
-/

namespace LittleComputer.Assembly

inductive Cause where
  | undefinedLabel (name : String)
  | duplicateLabel (name : String)
  | offsetOutOfRange (offset : Int) (bits : Nat)
  | immediateOutOfRange (value min max : Int)
  | unknownMnemonic (name : String)
  | unknownDirective (name : String)
  | missingOrigin
  | misplacedOrigin
  | unalignedOrigin (address : Word)
  | malformedOperand (name : String)
  | wrongOperandCount (mnemonic : String) (expected got : Nat)
  | addressOverflow
deriving DecidableEq, Repr

structure Error where
  /-- Lines are numbered from one. -/
  line : Nat
  cause : Cause
deriving DecidableEq, Repr

namespace Cause

def message : Cause → String
  | .undefinedLabel name => s!"undefined label \x60{name}\x60"
  | .duplicateLabel name => s!"label \x60{name}\x60 is already defined"
  | .offsetOutOfRange offset bits => s!"offset {offset} does not fit in a {bits}-bit field"
  | .immediateOutOfRange value min max =>
    s!"immediate {value} is out of range ({min} to {max})"
  | .unknownMnemonic name => s!"unknown mnemonic \x60{name}\x60"
  | .unknownDirective name => s!"unknown directive \x60.{name}\x60"
  | .missingOrigin => "missing .ORIG directive"
  | .misplacedOrigin => ".ORIG must be the first directive, and appear only once"
  | .unalignedOrigin address =>
    s!"origin 0x{Text.Hex.lower 4 address.toNat} is not word-aligned"
  | .malformedOperand name => s!"malformed operand \x60{name}\x60"
  | .wrongOperandCount mnemonic expected got =>
    s!"\x60{mnemonic}\x60 expects {expected} operand(s), got {got}"
  | .addressOverflow => "program does not fit in memory"

/-- The code to look the cause up by. -/
def code : Cause → String
  | .undefinedLabel .. => "asm::undefined_label"
  | .duplicateLabel .. => "asm::duplicate_label"
  | .offsetOutOfRange .. => "asm::offset_out_of_range"
  | .immediateOutOfRange .. => "asm::immediate_out_of_range"
  | .unknownMnemonic .. => "asm::unknown_mnemonic"
  | .unknownDirective .. => "asm::unknown_directive"
  | .missingOrigin => "asm::missing_orig"
  | .misplacedOrigin => "asm::misplaced_orig"
  | .unalignedOrigin .. => "asm::unaligned_origin"
  | .malformedOperand .. => "asm::malformed_operand"
  | .wrongOperandCount .. => "asm::wrong_operand_count"
  | .addressOverflow => "asm::address_overflow"

/-- What to do about it, where that is not obvious. -/
def advice? : Cause → Option String
  | .duplicateLabel .. => some "labels must be unique"
  | .offsetOutOfRange .. => some "the target is too far, or not word-aligned"
  | .unknownDirective .. =>
    some "supported directives are .ORIG, .END, .FILL, .BLKW and .STRINGZ"
  | .missingOrigin => some "start the program with \x60.ORIG x3000\x60"
  | _ => none

/-- The fields that hold an offset from a base register or from the program counter. -/
def offsetFields : List Field := [.offset6, .pcOffset9, .pcOffset11]

/-- The cause to report for an instruction that has no word. -/
def ofEncodeError : EncodeError → Cause
  | .fieldOutOfRange field value =>
    if field ∈ offsetFields then .offsetOutOfRange value field.bits
    else .immediateOutOfRange value field.min field.max
  | .aliased i => .malformedOperand i.text

end Cause

namespace Error

def message (e : Error) : String := s!"line {e.line}: {e.cause.message}"

end Error

end LittleComputer.Assembly
