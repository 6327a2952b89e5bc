/-!
# Hexadecimal numerals

Numerals are written with a fixed number of digits, or with as few as the number needs. The digits
of either letter case are read back by `value?`.
-/

namespace LittleComputer.Text.Hex

def lowerDigit (n : Nat) : Char := Nat.digitChar n

def upperDigit (n : Nat) : Char := (Nat.digitChar n).toUpper

/-- The last `width` digits of a number, the most significant one first. -/
def fixed (digit : Nat → Char) : Nat → Nat → List Char
  | 0, _ => []
  | width + 1, n => fixed digit width (n / 16) ++ [digit (n % 16)]

/-- Upper-case digits, filled with zeros on the left. -/
def upper (width n : Nat) : String := String.ofList (fixed upperDigit width n)

/-- Lower-case digits, filled with zeros on the left. -/
def lower (width n : Nat) : String := String.ofList (fixed lowerDigit width n)

/-- As many lower-case digits as the number needs. A negative number is written as the 32-bit word
that holds it in two's complement. -/
def signed (n : Int) : String := String.ofList (Nat.toDigits 16 (BitVec.ofInt 32 n).toNat)

/-- The value of a hexadecimal digit of either letter case. -/
def value? (c : Char) : Option Nat :=
  if c.isDigit then some (c.toNat - '0'.toNat)
  else if 'a' ≤ c ∧ c ≤ 'f' then some (c.toNat - 'a'.toNat + 10)
  else if 'A' ≤ c ∧ c ≤ 'F' then some (c.toNat - 'A'.toNat + 10)
  else none

def isDigit (c : Char) : Bool := (value? c).isSome

/-- The number that a list of digits denotes. -/
def ofDigits (ds : List Char) : Nat := ds.foldl (fun n c => 16 * n + (value? c).getD 0) 0

/-- There are as many digits as the width says. -/
@[simp] theorem length_fixed (digit : Nat → Char) (width n : Nat) :
    (fixed digit width n).length = width := by
  induction width generalizing n with
  | zero => rfl
  | succ width ih => simp [fixed, ih]

/-- A digit in lower case has the value that it is for. -/
theorem value?_lowerDigit : ∀ n < 16, value? (lowerDigit n) = some n := by decide

/-- A digit in upper case has the value that it is for. -/
theorem value?_upperDigit : ∀ n < 16, value? (upperDigit n) = some n := by decide

/-- The last digit is the least significant. -/
theorem ofDigits_append (ds : List Char) (c : Char) :
    ofDigits (ds ++ [c]) = 16 * ofDigits ds + (value? c).getD 0 := by
  simp [ofDigits]

end LittleComputer.Text.Hex
