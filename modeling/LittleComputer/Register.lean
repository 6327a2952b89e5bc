/-!
# General purpose registers

There are eight of them, `R0` to `R7`. A name is read in either letter case.
-/

namespace LittleComputer

/-- A general purpose register, by its number. -/
abbrev Register := Fin 8

namespace Register

/-- All registers, in the order of their numbers. -/
def all : List Register := [0, 1, 2, 3, 4, 5, 6, 7]

/-- The register through which traps take and give a value. -/
def io : Register := 0

/-- The register that points to the top of the stack. -/
def stack : Register := 6

/-- The register that a call leaves the address to return to in. -/
def link : Register := 7

/-- The register whose number is given by the low three bits. -/
def ofBits (n : Nat) : Register := ⟨n % 8, Nat.mod_lt _ (by decide)⟩

/-- The digit that a register's name ends with. -/
def digit (r : Register) : Char := Nat.digitChar r.val

def name (r : Register) : String := String.ofList ['R', digit r]

/-- The register of that name, in either letter case. -/
def ofName? (name : String) : Option Register :=
  match name.toList with
  | [letter, digit] =>
    if (letter = 'R' ∨ letter = 'r') ∧ '0' ≤ digit ∧ digit ≤ '7' then
      some (ofBits (digit.toNat - '0'.toNat))
    else none
  | _ => none

/-- What is reported for a word that names no register. -/
def unknownMessage : String := "could not parse register"

/-- A register is found by its name. -/
@[simp] theorem ofName?_name (r : Register) : ofName? (name r) = some r := by
  simp only [name, ofName?, String.toList_ofList]
  revert r
  decide

/-- A register is found by its number. -/
@[simp] theorem ofBits_val (r : Register) : ofBits r.val = r := by
  ext
  simp [ofBits]

/-- The register of the return address is not the one that routines use. -/
@[simp] theorem link_ne_io : link ≠ io := by decide

/-- The list of registers is complete. -/
theorem mem_all (r : Register) : r ∈ all := by
  revert r
  decide

end Register

end LittleComputer
