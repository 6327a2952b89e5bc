import LittleComputer.Assembly.Symbols
import LittleComputer.Machine.Registers
import LittleComputer.Source.Operand

/-!
# Locations

Where a command of the debugger applies: a number, a label, the address in a register, or an address
at an offset in bytes from that. Offsets and sums are 32-bit integers, and one that is not is an
overflow, which no command can report.
-/

namespace LittleComputer.Debugger

open Source

inductive Location where
  | literal (value : Int)
  | label (name : String)
  | register (base : Register)
  | indexed (base : Register) (offset : Int)
deriving DecidableEq, Repr

/-- Why a text is no location. -/
inductive LocationError where
  | malformed (text : String)
  | overflow
deriving DecidableEq, Repr

/-- Why a location has no address. -/
inductive AddressError where
  | unknownLabel (name : String)
  | outOfRange (address : Int)
  | overflow
deriving DecidableEq, Repr

namespace LocationError

def message : LocationError → String
  | .malformed text => s!"could not parse location {Text.quoted text}"
  | .overflow => "arithmetic overflow"

end LocationError

namespace AddressError

def message : AddressError → String
  | .unknownLabel name => s!"unknown label {Text.quoted name}"
  | .outOfRange address => s!"address 0x{Text.Hex.signed address} is out of range"
  | .overflow => "arithmetic overflow"

end AddressError

/-- What a scanner takes, if that is all of the text. -/
def whole {α : Type} (p : Scanner α) (s : List Char) : Option α :=
  match p s with
  | some (a, []) => some a
  | _ => none

/-- A plus or a minus, and whether it is a minus. -/
def sign : Scanner Bool
  | '+' :: r => some (false, r)
  | '-' :: r => some (true, r)
  | _ => none

/-- A register, a sign and a number, with blanks between them. -/
def indexed : Scanner (Register × Bool × Int) := fun s => do
  let (base, r) ← register s
  let (negative, r) ← sign (Text.skipBlanks r)
  let (offset, r) ← numeral (Text.skipBlanks r)
  some ((base, negative, offset), r)

namespace Location

/-- The location at an offset, added to the register or taken from it. -/
def ofIndexed (base : Register) (negative : Bool) (offset : Int) : Except LocationError Location :=
  match number? (if negative then -offset else offset) with
  | some offset => .ok (.indexed base offset)
  | none => .error .overflow

/-- Read a location. White space around it is ignored. -/
def parse (text : String) : Except LocationError Location :=
  let s := Text.trim text.toList
  match Debugger.indexed s with
  | some ((base, negative, offset), rest) => do
    let location ← ofIndexed base negative offset
    if rest.isEmpty then return location else .error (.malformed text)
  | none =>
    match whole Source.register s with
    | some base => .ok (.register base)
    | none =>
      match whole numeral s with
      | some value => .ok (.literal value)
      | none =>
        match whole word s with
        | some name => .ok (.label name)
        | none => .error (.malformed text)

/-- The address, without regard to the bounds of memory. -/
def target (registers : Registers) (symbols : Assembly.Symbols) :
    Location → Except AddressError Int
  | .literal value => .ok value
  | .label name =>
    match symbols.address? name with
    | some address => .ok address.toNat
    | none => .error (.unknownLabel name)
  | .register base => .ok (registers.get base).toNat
  | .indexed base offset =>
    match number? ((registers.get base).toNat + offset) with
    | some address => .ok address
    | none => .error .overflow

/-- The address of a location, which has to be one of memory. -/
def evaluate (registers : Registers) (symbols : Assembly.Symbols) (location : Location) :
    Except AddressError Word := do
  let address ← location.target registers symbols
  match Word.address? address with
  | some a => return a
  | none => .error (.outOfRange address)

end Location

end LittleComputer.Debugger
