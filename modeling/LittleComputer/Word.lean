import LittleComputer.Text.Hex

/-!
# Words and bytes

Memory holds bytes, and everything that has an address or lives in a register is a word of two
bytes, the low one first. Effective addresses are computed in `Int`, where nothing wraps, and come
back to words through `Word.address?`.
-/

namespace LittleComputer

/-- One cell of memory. -/
abbrev Byte := BitVec 8

/-- The content of a register, and also an address. -/
abbrev Word := BitVec 16

/-- Number of bytes that have an address. -/
def memorySize : Nat := 65536

/-- Number of bytes in a word. -/
def wordSize : Nat := 2

/-- Where a program is placed when nothing says otherwise. -/
def programStart : Word := 0x3000#16

/-- The character that a byte stands for on the console. -/
def Byte.char (b : Byte) : Char := Char.ofNat b.toNat

namespace Word

def low (w : Word) : Byte := BitVec.ofNat 8 w.toNat

def high (w : Word) : Byte := BitVec.ofNat 8 (w.toNat / 256)

/-- The word in hexadecimal, after an `x`. -/
def text (w : Word) : String := "x" ++ Text.Hex.upper 4 w.toNat

/-- The word whose low byte comes first. -/
def ofBytes (low high : Byte) : Word := BitVec.ofNat 16 (low.toNat + 256 * high.toNat)

/-- The word at an unbounded address, if it is one of memory. -/
def address? (n : Int) : Option Word :=
  if 0 ≤ n ∧ n.toNat < memorySize then some (BitVec.ofNat 16 n.toNat) else none

/-- The low byte is the remainder by 256. -/
@[simp] theorem toNat_low (w : Word) : (low w).toNat = w.toNat % 256 := by
  simp [low]

/-- The high byte is the quotient by 256. -/
@[simp] theorem toNat_high (w : Word) : (high w).toNat = w.toNat / 256 := by
  have := w.isLt
  simp only [high, BitVec.toNat_ofNat]
  omega

/-- The high byte counts 256 times. -/
@[simp] theorem toNat_ofBytes (l h : Byte) : (ofBytes l h).toNat = l.toNat + 256 * h.toNat := by
  have := l.isLt
  have := h.isLt
  simp only [ofBytes, BitVec.toNat_ofNat]
  omega

/-- A word is made of its two bytes. -/
@[simp] theorem ofBytes_low_high (w : Word) : ofBytes (low w) (high w) = w := by
  apply BitVec.eq_of_toNat_eq
  simp only [toNat_ofBytes, toNat_low, toNat_high]
  omega

/-- The low byte of two. -/
@[simp] theorem low_ofBytes (l h : Byte) : low (ofBytes l h) = l := by
  have := l.isLt
  apply BitVec.eq_of_toNat_eq
  simp only [toNat_low, toNat_ofBytes]
  omega

/-- The high byte of two. -/
@[simp] theorem high_ofBytes (l h : Byte) : high (ofBytes l h) = h := by
  have := l.isLt
  apply BitVec.eq_of_toNat_eq
  simp only [toNat_high, toNat_ofBytes]
  omega

/-- An unbounded address is one of memory exactly when it is the value of a word. -/
theorem address?_eq_some_iff {n : Int} {a : Word} : address? n = some a ↔ n = a.toNat := by
  have := a.isLt
  unfold address? memorySize
  split
  · rw [Option.some.injEq, ← BitVec.toNat_inj, BitVec.toNat_ofNat]
    omega
  · simp only [reduceCtorEq, false_iff]
    omega

/-- The number of an address is that address. -/
@[simp] theorem address?_toNat (a : Word) : address? (a.toNat : Int) = some a :=
  address?_eq_some_iff.2 rfl

end Word

end LittleComputer
