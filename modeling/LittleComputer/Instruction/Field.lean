import LittleComputer.Word

/-!
# Numeric fields of the instruction word

A field takes the low bits of the word and is read as a signed or an unsigned number. Reading back
what was written gives the number again, for every number that fits: `extract_insert`.
-/

namespace LittleComputer

structure Field where
  name : String
  bits : Nat
  signed : Bool
deriving DecidableEq, Repr

namespace Field

def imm5 : Field := ⟨"imm5", 5, true⟩

def offset6 : Field := ⟨"offset6", 6, true⟩

def pcOffset9 : Field := ⟨"PCoffset9", 9, true⟩

def pcOffset11 : Field := ⟨"PCoffset11", 11, true⟩

def amount4 : Field := ⟨"amount4", 4, false⟩

def trapVector8 : Field := ⟨"trapvect8", 8, false⟩

/-- How many numbers the field tells apart. -/
def size (f : Field) : Nat := 1 <<< f.bits

/-- The weight of the highest bit, which is the sign of a signed number. -/
def signBit (f : Field) : Nat := 1 <<< (f.bits - 1)

/-- The smallest number that the field can hold. -/
def min (f : Field) : Int := if f.signed then -f.signBit else 0

/-- The largest number that the field can hold. -/
def max (f : Field) : Int := if f.signed then f.signBit - 1 else f.size - 1

/-- Whether the field can hold a number. -/
def contains (f : Field) (value : Int) : Bool := f.min ≤ value && value ≤ f.max

/-- The number in the field of a word. -/
def extract (f : Field) (w : Word) : Int :=
  let raw := w.toNat % f.size
  if f.signed && f.signBit ≤ raw then (raw : Int) - f.size else raw

/-- The bits that hold a number, if it fits. -/
def insert? (f : Field) (value : Int) : Option Nat :=
  if f.contains value then some (value % f.size).toNat else none

/-- A field contains the numbers in its range. -/
theorem contains_iff {f : Field} {value : Int} :
    f.contains value = true ↔ f.min ≤ value ∧ value ≤ f.max := by
  simp [contains]

/-- A number that a field does not contain has no bits in it. -/
theorem insert?_eq_none_iff {f : Field} {value : Int} :
    f.insert? value = none ↔ f.contains value = false := by
  simp [insert?]

/-- A number that a field contains has its low bits in it. -/
theorem insert?_eq_some_iff {f : Field} {value : Int} {n : Nat} :
    f.insert? value = some n ↔ f.contains value = true ∧ n = (value % f.size).toNat := by
  cases h : f.contains value <;> simp [insert?, h, eq_comm]

end Field

end LittleComputer
