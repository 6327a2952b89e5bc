import LittleComputer.Word

/-!
# Condition codes

Three flags tell whether the last result was negative, zero or positive. A branch carries a mask of
the same three flags, and is taken when the two have one in common.
-/

namespace LittleComputer

/-- A set of the flags N, Z and P. -/
structure Condition where
  negative : Bool
  zero : Bool
  positive : Bool
deriving DecidableEq, Repr

namespace Condition

def empty : Condition := ⟨false, false, false⟩

def all : Condition := ⟨true, true, true⟩

/-- The flags in the low three bits, N being the highest. -/
def ofBits (n : Nat) : Condition := ⟨n / 4 % 2 == 1, n / 2 % 2 == 1, n % 2 == 1⟩

def bits (c : Condition) : Nat := 4 * c.negative.toNat + 2 * c.zero.toNat + c.positive.toNat

/-- The flag that tells the sign of a word, read in two's complement. -/
def ofValue (w : Word) : Condition :=
  if w.toInt < 0 then ⟨true, false, false⟩
  else if w = 0 then ⟨false, true, false⟩
  else ⟨false, false, true⟩

def intersects (c d : Condition) : Bool :=
  c.negative && d.negative || c.zero && d.zero || c.positive && d.positive

/-- The letters of the flags in the set, in the order `n`, `z`, `p`. -/
def letters (c : Condition) : String :=
  (if c.negative then "n" else "") ++ (if c.zero then "z" else "") ++
    (if c.positive then "p" else "")

/-- Exactly one flag is in the set. -/
def Exclusive (c : Condition) : Prop :=
  c = ⟨true, false, false⟩ ∨ c = ⟨false, true, false⟩ ∨ c = ⟨false, false, true⟩

/-- The codes are told by their bits. -/
@[simp] theorem ofBits_bits (c : Condition) : ofBits (bits c) = c := by
  obtain ⟨n, z, p⟩ := c
  cases n <;> cases z <;> cases p <;> rfl

/-- The codes take three bits. -/
theorem bits_lt (c : Condition) : bits c < 8 := by
  obtain ⟨n, z, p⟩ := c
  cases n <;> cases z <;> cases p <;> decide

/-- The codes of a number have its low three bits. -/
@[simp] theorem bits_ofBits (n : Nat) : bits (ofBits n) = n % 8 := by
  have h (m : Nat) : (m % 2 == 1).toNat = m % 2 := by
    rcases Nat.mod_two_eq_zero_or_one m with h | h <;> simp [h]
  simp only [bits, ofBits, h]
  omega

/-- A word has exactly one sign. -/
theorem exclusive_ofValue (w : Word) : (ofValue w).Exclusive := by
  unfold ofValue Exclusive
  split
  · simp
  · split <;> simp

end Condition

end LittleComputer
