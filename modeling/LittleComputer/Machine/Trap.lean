import LittleComputer.Machine.Effect

/-!
# Service routines

There is no operating system in memory: a routine runs as part of the `TRAP` instruction that calls
it. Each leaves the return address in `R7`.
-/

namespace LittleComputer

/-- The character of a byte. -/
def Byte.text (b : Byte) : String := String.ofList [b.char]

namespace Memory

/-- The low bytes of the words from an address up to the first zero word, added in reverse to those
before them. -/
def wordStringFrom (m : Memory) (before : List Byte) (a : Word) : Except Fault (List Byte) :=
  match m.fetch a with
  | .error f => .error f
  | .ok w =>
    if w = 0 then .ok before.reverse
    else
      match h : a.offset 2 with
      | .error f => .error f
      | .ok next =>
        have : memorySize - next.toNat < memorySize - a.toNat := by
          have := Word.offset_eq_ok_iff.1 h
          have := next.toNat_lt_memorySize
          omega
        m.wordStringFrom (w.low :: before) next
termination_by memorySize - a.toNat

/-- The bytes from an address up to the first zero byte, word by word, added in reverse to those
before them. -/
def byteStringFrom (m : Memory) (before : List Byte) (a : Word) : Except Fault (List Byte) :=
  match m.fetch a with
  | .error f => .error f
  | .ok w =>
    if w.low = 0 then .ok before.reverse
    else if w.high = 0 then .ok (w.low :: before).reverse
    else
      match h : a.offset 2 with
      | .error f => .error f
      | .ok next =>
        have : memorySize - next.toNat < memorySize - a.toNat := by
          have := Word.offset_eq_ok_iff.1 h
          have := next.toNat_lt_memorySize
          omega
        m.byteStringFrom (w.high :: w.low :: before) next
termination_by memorySize - a.toNat

/-- The string at an address, one character in the low byte of each word, ended by a zero word. -/
def wordString (m : Memory) (a : Word) : Except Fault (List Byte) := m.wordStringFrom [] a

/-- The string at an address, two characters in each word, ended by a zero byte. -/
def byteString (m : Memory) (a : Word) : Except Fault (List Byte) := m.byteStringFrom [] a

end Memory

/-- The text that bytes stand for. -/
def Byte.string (bytes : List Byte) : String := String.ofList (bytes.map Byte.char)

namespace Machine

/-- Read a byte into `R0`, or leave it if there is none. -/
def readByte (m : Machine) (r : Registers) (echo : Bool) : Effect :=
  match m.input with
  | b :: _ => {
      registers := r.set .io (BitVec.ofNat 16 b.toNat)
      modified := some .io
      output := if echo then b.text else ""
      reads := true }
  | [] => { registers := r, modified := some .link, starved := true }

/-- What a routine does, given the registers with the return address in `R7`. `R0` is the address of
a string before that, which matters to no routine as `R7` is another register. -/
def serve (m : Machine) (r : Registers) : Service → Except Fault Effect
  | .getc => .ok (m.readByte r false)
  | .read => .ok (m.readByte r true)
  | .out => .ok { registers := r, modified := some .link, output := (r.get .io).low.text }
  | .puts => do
    let bytes ← m.memory.wordString (r.get .io)
    return { registers := r, modified := some .link, output := Byte.string bytes }
  | .putsp => do
    let bytes ← m.memory.byteString (r.get .io)
    return { registers := r, modified := some .link, output := Byte.string bytes }
  | .halt => .ok { registers := r, modified := some .link, halts := true }

/-- What the `TRAP` instruction does. -/
def trap (m : Machine) (r : Registers) (vector : Nat) : Except Fault Effect :=
  match Service.ofVector? vector with
  | some routine => m.serve (r.set .link r.pc) routine
  | none => .error (.unknownTrap vector)

end Machine

end LittleComputer
