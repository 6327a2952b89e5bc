import LittleComputer.Instruction.Text
import LittleComputer.Source.Scan
import LittleComputer.Text.Case

/-!
# Mnemonics and directives

Both are read in either letter case. A branch names its condition by a suffix, any letters of `NZP`
in that order; without a suffix it is taken on every condition.
-/

namespace LittleComputer.Source

inductive Mnemonic where
  | operate (op : Operation)
  | not
  | branch (condition : Condition)
  | nop
  | jump
  | ret
  | call
  | callRegister
  | load (access : Access)
  | store (access : Access)
  | loadAddress
  | shift (direction : Shift)
  | returnFromInterrupt
  | trap
  | service (routine : Service)
deriving DecidableEq, Repr

/-- The condition of a branch, from its upper-case suffix. -/
def branchCondition? (suffix : List Char) : Option Condition :=
  if suffix.isEmpty then some .all
  else
    let (negative, s) := dropChar 'N' suffix
    let (zero, s) := dropChar 'Z' s
    let (positive, s) := dropChar 'P' s
    if s.isEmpty then some ⟨negative, zero, positive⟩ else none

namespace Mnemonic

/-- The mnemonic that a word is, in either letter case. -/
def ofName? (name : String) : Option Mnemonic :=
  match Text.upperCase name with
  | "ADD" => some (.operate .add)
  | "AND" => some (.operate .and)
  | "XOR" => some (.operate .xor)
  | "NOT" => some .not
  | "JMP" => some .jump
  | "JSR" => some .call
  | "JSRR" => some .callRegister
  | "RET" => some .ret
  | "LDB" => some (.load .byte)
  | "LDW" => some (.load .word)
  | "LDI" => some (.load .indirect)
  | "LEA" => some .loadAddress
  | "STB" => some (.store .byte)
  | "STW" => some (.store .word)
  | "STI" => some (.store .indirect)
  | "LSHF" => some (.shift .left)
  | "RSHFL" => some (.shift .rightLogical)
  | "RSHFA" => some (.shift .rightArithmetic)
  | "RTI" => some .returnFromInterrupt
  | "TRAP" => some .trap
  | "GETC" => some (.service .getc)
  | "OUT" => some (.service .out)
  | "PUTS" => some (.service .puts)
  | "IN" => some (.service .read)
  | "PUTSP" => some (.service .putsp)
  | "HALT" => some (.service .halt)
  | "NOP" => some .nop
  | upper =>
    match upper.toList with
    | 'B' :: 'R' :: suffix => (branchCondition? suffix).map .branch
    | _ => none

/-- The canonical spelling. -/
def name : Mnemonic → String
  | .operate op => op.name
  | .not => "NOT"
  | .branch condition => "BR" ++ condition.letters
  | .nop => "NOP"
  | .jump => "JMP"
  | .ret => "RET"
  | .call => "JSR"
  | .callRegister => "JSRR"
  | .load access => access.loadName
  | .store access => access.storeName
  | .loadAddress => "LEA"
  | .shift direction => direction.name
  | .returnFromInterrupt => "RTI"
  | .trap => "TRAP"
  | .service routine => routine.name

/-- The canonical spelling is read back, but for a branch on no condition, which has none. -/
theorem ofName?_name {m : Mnemonic} (h : m ≠ .branch .empty) : ofName? m.name = some m := by
  cases m with
  | branch c =>
    obtain ⟨n, z, p⟩ := c
    cases n <;> cases z <;> cases p <;> first | rfl | exact absurd rfl h
  | operate x | load x | store x | shift x | service x => cases x <;> rfl
  | _ => rfl

end Mnemonic

inductive Directive where
  /-- Set the address of the program. -/
  | orig
  /-- Stop, leaving out the rest of the source. -/
  | finish
  /-- Store a word. -/
  | fill
  /-- Reserve a number of zero words. -/
  | block
  /-- Store a string with a zero after it, one character a word. -/
  | string
deriving DecidableEq, Repr

namespace Directive

/-- The directive that a word after the dot is, in either letter case. -/
def ofName? (name : String) : Option Directive :=
  match Text.upperCase name with
  | "ORIG" => some .orig
  | "END" => some .finish
  | "FILL" => some .fill
  | "BLKW" => some .block
  | "STRINGZ" => some .string
  | _ => none

def name : Directive → String
  | .orig => "ORIG"
  | .finish => "END"
  | .fill => "FILL"
  | .block => "BLKW"
  | .string => "STRINGZ"

/-- A directive is found by its name. -/
@[simp] theorem ofName?_name (d : Directive) : ofName? d.name = some d := by
  cases d <;> decide

end Directive

/-- A word that a line can define as a label: one that is no mnemonic and no register. -/
def isLabelName (word : String) : Bool :=
  (Mnemonic.ofName? word).isNone && (Register.ofName? word).isNone

end LittleComputer.Source
