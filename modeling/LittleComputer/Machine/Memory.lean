import LittleComputer.Text.Hex
import LittleComputer.Word

/-!
# Memory

One byte at every address. A word takes the byte at its address and the one after it, whether its
address is even or not, so there is no word at the last address. What a write does is said in terms
of `Memory.byte`, the content of one cell.
-/

namespace LittleComputer

structure Memory where
  bytes : Vector Byte memorySize

/-- An access past the last byte, with the first address that is not one of memory. -/
structure OutOfRange where
  address : Int
deriving DecidableEq, Repr

def OutOfRange.message (e : OutOfRange) : String :=
  s!"address 0x{Text.Hex.signed e.address} is out of range"

/-- Every word is an address. -/
theorem Word.toNat_lt_memorySize (a : Word) : a.toNat < memorySize := a.isLt

namespace Memory

/-- Memory that holds zeros. -/
def zero : Memory := ⟨Vector.replicate memorySize 0⟩

/-- The byte at an address. -/
def byte (m : Memory) (a : Word) : Byte := getElem m.bytes a.toNat a.toNat_lt_memorySize

def setByte (m : Memory) (a : Word) (b : Byte) : Memory :=
  ⟨m.bytes.set a.toNat b a.toNat_lt_memorySize⟩

/-- Set the two bytes of a word. -/
def setWord (m : Memory) (a w : Word) : Memory := (m.setByte a w.low).setByte (a + 1) w.high

/-- Whether a word at an address has both its bytes in memory. -/
def checkWord (a : Word) : Except OutOfRange Unit :=
  if a.toNat + 1 < memorySize then .ok () else .error ⟨a.toNat + 1⟩

/-- The word at an address. -/
def readWord (m : Memory) (a : Word) : Except OutOfRange Word :=
  (checkWord a).map fun _ => Word.ofBytes (m.byte a) (m.byte (a + 1))

/-- Write a word, or nothing if part of it is out of range. -/
def writeWord (m : Memory) (a w : Word) : Except OutOfRange Memory :=
  (checkWord a).map fun _ => m.setWord a w

/-- The word at an address, for inspection. The byte missing at the last address reads as zero. -/
def peek (m : Memory) (a : Word) : Word :=
  match m.readWord a with
  | .ok w => w
  | .error _ => Word.ofBytes (m.byte a) 0

/-- Set words one after the other. -/
def setWords (m : Memory) (a : Word) : List Word → Memory
  | [] => m
  | w :: ws => (m.setWord a w).setWords (a + 2) ws

/-- The largest address that an error can report. -/
def maxReported : Nat := 2147483647

/-- Write words one after the other, or nothing if they do not fit. -/
def load (m : Memory) (base : Word) (ws : List Word) : Except OutOfRange Memory :=
  let past := base.toNat + wordSize * ws.length
  if past ≤ memorySize then .ok (m.setWords base ws)
  else .error ⟨(min (past - 1) maxReported : Nat)⟩

/-- The bytes from an address on, as many as there are up to a number. -/
def dump (m : Memory) (a : Word) (count : Nat) : List Byte :=
  (m.bytes.toArray.extract a.toNat (a.toNat + count)).toList

/-- Number of bytes that are not zero. -/
def used (m : Memory) : Nat := m.bytes.foldl (fun n b => if b = 0 then n else n + 1) 0

/-- A summary of the content. -/
def summary (m : Memory) : String :=
  "Memory \x7b non_zero_bytes: " ++ toString m.used ++ ", .. \x7d"

/-- Empty memory has zeros everywhere. -/
@[simp] theorem byte_zero (a : Word) : zero.byte a = 0 := by
  simp [byte, zero]

/-- A byte that is set is at its address, and the others are as they were. -/
theorem byte_setByte (m : Memory) (a b : Word) (v : Byte) :
    (m.setByte a v).byte b = if a = b then v else m.byte b := by
  simp only [byte, setByte, Vector.getElem_set, BitVec.toNat_inj]

/-- A byte that is set is at its address. -/
@[simp] theorem byte_setByte_self (m : Memory) (a : Word) (v : Byte) :
    (m.setByte a v).byte a = v := by
  simp [byte_setByte]

/-- A byte that is set leaves the others alone. -/
theorem byte_setByte_of_ne {m : Memory} {a b : Word} {v : Byte} (h : a ≠ b) :
    (m.setByte a v).byte b = m.byte b := by
  simp [byte_setByte, h]

/-- The low byte of a word comes first. -/
theorem byte_setWord (m : Memory) (a b w : Word) :
    (m.setWord a w).byte b =
      if a + 1 = b then w.high else if a = b then w.low else m.byte b := by
  simp only [setWord, byte_setByte]

/-- Two memories with the same bytes are the same. -/
theorem ext_byte {m n : Memory} (h : ∀ a, m.byte a = n.byte a) : m = n := by
  obtain ⟨m⟩ := m
  obtain ⟨n⟩ := n
  congr 1
  refine Vector.ext fun i hi => ?_
  have hi' : i < 65536 := hi
  simpa [byte, Nat.mod_eq_of_lt hi'] using h (BitVec.ofNat 16 i)

end Memory

end LittleComputer
