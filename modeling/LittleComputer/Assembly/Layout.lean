import LittleComputer.Assembly.Error
import LittleComputer.Assembly.Symbols
import LittleComputer.Source.Line
import LittleComputer.Text.Lines
import LittleComputer.Text.Utf8

/-!
# Layout

The first pass over a source gives every instruction and every piece of data its address, and every
label the address of what follows it. It stops at `.END` or at the first error. Operands are looked
at only as far as they decide how much room a line takes.
-/

namespace LittleComputer.Assembly

open Source

structure Options where
  /-- The address of a program that does not set one. -/
  defaultOrigin : Word := programStart
  /-- Whether a program has to set its address. -/
  requireOrigin : Bool := false
deriving DecidableEq, Repr

/-- Something that takes room in memory. -/
inductive Item where
  | instruction (mnemonic : String) (operands : List Operand)
  | fill (value : Operand)
  /-- A number of zero words. -/
  | block (count : Nat)
  /-- Characters of one byte, a word for each, and a zero word. -/
  | string (text : String)
deriving DecidableEq, Repr

/-- Number of words that an item takes. The bytes of a string are counted in 32 bits, so the count
starts over for one that no memory could hold. -/
def Item.size : Item → Nat
  | .instruction .. | .fill _ => 1
  | .block count => count
  | .string text => (UInt32.ofNat (Text.utf8Size text.toList) + 1).toNat

/-- An item at its address, with the number of the line that it comes from. -/
structure Placement where
  line : Nat
  address : Word
  item : Item
deriving DecidableEq, Repr

/-- What the lines so far have laid out. -/
structure Layout where
  origin : Word
  /-- Where the next item goes, which is one past the last address when memory is full. -/
  address : Nat
  /-- Whether any line was more than a comment. -/
  started : Bool
  /-- Whether `.END` was met. -/
  ended : Bool
  symbols : Symbols
  placements : List Placement
deriving DecidableEq, Repr

/-- No operand, for a mnemonic or directive that takes none. -/
def takeNone (name : String) : List Operand → Except Cause Unit
  | [] => .ok ()
  | operands => .error (.wrongOperandCount name 0 operands.length)

/-- The only operand. -/
def takeOne (name : String) : List Operand → Except Cause Operand
  | [a] => .ok a
  | operands => .error (.wrongOperandCount name 1 operands.length)

/-- The only two operands. -/
def takeTwo (name : String) : List Operand → Except Cause (Operand × Operand)
  | [a, b] => .ok (a, b)
  | operands => .error (.wrongOperandCount name 2 operands.length)

/-- The only three operands. -/
def takeThree (name : String) : List Operand → Except Cause (Operand × Operand × Operand)
  | [a, b, c] => .ok (a, b, c)
  | operands => .error (.wrongOperandCount name 3 operands.length)

/-- The address that `.ORIG` gives. -/
def originOf : Operand → Except Cause Word
  | .number value =>
    match Word.address? value with
    | some address =>
      if address.toNat % wordSize = 0 then .ok address else .error (.unalignedOrigin address)
    | none => .error (.immediateOutOfRange value 0 65535)
  | operand => .error (.malformedOperand operand.text)

/-- The words that `.BLKW` reserves. -/
def blockOf : Operand → Except Cause Item
  | .number value =>
    if 0 ≤ value then .ok (.block value.toNat) else .error (.immediateOutOfRange value 0 65535)
  | operand => .error (.malformedOperand operand.text)

/-- Whether every character is one of the first 128. -/
def isAscii (text : String) : Bool := text.toList.all fun c => c.toNat < 128

/-- The string that `.STRINGZ` stores. -/
def stringOf : Operand → Except Cause Item
  | .string text =>
    if isAscii text then .ok (.string text)
    else .error (.malformedOperand (Operand.string text).text)
  | operand => .error (.malformedOperand operand.text)

namespace Layout

/-- The layout before the first line. -/
def initial (options : Options) : Layout where
  origin := options.defaultOrigin
  address := options.defaultOrigin.toNat
  started := false
  ended := false
  symbols := []
  placements := []

/-- Begin the program with a line other than `.ORIG`. -/
def start (requireOrigin : Bool) (l : Layout) : Except Cause Layout :=
  if !l.started && requireOrigin then .error .missingOrigin else .ok { l with started := true }

/-- Begin the program with an address. -/
def setOrigin (operands : List Operand) (l : Layout) : Except Cause Layout := do
  if l.started then .error .misplacedOrigin
  let origin ← originOf (← takeOne "ORIG" operands)
  return { l with origin, address := origin.toNat, started := true }

/-- Give a label the current address, which must be one of memory. -/
def define (label : String) (l : Layout) : Except Cause Layout :=
  match Word.address? l.address with
  | none => .error .addressOverflow
  | some address =>
    if (l.symbols.address? label).isSome then .error (.duplicateLabel label)
    else .ok { l with symbols := l.symbols ++ [(label, address)] }

/-- Define the label of a line, if it has one. -/
def defineAll (label : Option String) (l : Layout) : Except Cause Layout :=
  match label with
  | some label => l.define label
  | none => .ok l

/-- Put an item at the current address. Even an item without words needs an address of memory. -/
def place (line : Nat) (item : Item) (l : Layout) : Except Cause Layout :=
  let next := l.address + wordSize * item.size
  if memorySize < next then .error .addressOverflow
  else
    match Word.address? l.address with
    | none => .error .addressOverflow
    | some address =>
      .ok { l with address := next, placements := l.placements ++ [⟨line, address, item⟩] }

/-- Add an item and the label before it. -/
def add (requireOrigin : Bool) (line : Nat) (label : Option String) (item : Item) (l : Layout) :
    Except Cause Layout := do
  let l ← l.start requireOrigin
  let l ← l.defineAll label
  l.place line item

/-- Add a directive and the label before it. -/
def addDirective (requireOrigin : Bool) (line : Nat) (label : Option String) (name : String)
    (operands : List Operand) (l : Layout) : Except Cause Layout :=
  match Directive.ofName? name with
  | none => .error (.unknownDirective name)
  | some .orig => do
    let l ← l.setOrigin operands
    l.defineAll label
  | some .finish => do
    takeNone name operands
    let l ← l.start requireOrigin
    let l ← l.defineAll label
    return { l with ended := true }
  | some .fill => do
    let value ← takeOne name operands
    l.add requireOrigin line label (.fill value)
  | some .block => do
    let item ← blockOf (← takeOne name operands)
    l.add requireOrigin line label item
  | some .string => do
    let item ← stringOf (← takeOne name operands)
    l.add requireOrigin line label item

/-- Add a line. A comment changes nothing, nor does an empty line. -/
def addLine (requireOrigin : Bool) (number : Nat) (line : Line) (l : Layout) :
    Except Cause Layout :=
  match line.content with
  | some (.instruction mnemonic operands) =>
    l.add requireOrigin number line.label (.instruction mnemonic operands)
  | some (.directive name operands) =>
    l.addDirective requireOrigin number line.label name operands
  | none =>
    match line.label with
    | some label => do
      let l ← l.start requireOrigin
      l.define label
    | none => .ok l

/-- Read a line and add it. -/
def addText (requireOrigin : Bool) (number : Nat) (text : List Char) (l : Layout) :
    Except Error Layout :=
  match Line.parse text with
  | .error unreadable => .error ⟨number, .malformedOperand unreadable.token⟩
  | .ok line =>
    match l.addLine requireOrigin number line with
    | .error cause => .error ⟨number, cause⟩
    | .ok l => .ok l

/-- Add lines up to `.END`, the first of which has the given number. -/
def addTexts (requireOrigin : Bool) : Nat → List (List Char) → Layout → Except Error Layout
  | _, [], l => .ok l
  | number, text :: rest, l =>
    if l.ended then .ok l
    else
      match l.addText requireOrigin number text with
      | .error e => .error e
      | .ok l => addTexts requireOrigin (number + 1) rest l

/-- Lay out the lines of a source. -/
def ofLines (options : Options) (texts : List (List Char)) : Except Error Layout := do
  let l ← addTexts options.requireOrigin 1 texts (.initial options)
  if !l.started && options.requireOrigin then .error ⟨1, .missingOrigin⟩
  return l

end Layout

end LittleComputer.Assembly
