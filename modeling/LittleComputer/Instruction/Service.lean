/-!
# Trap service routines

Six trap vectors lead to a routine. Each has a name of its own, which stands for the `TRAP`
instruction with that vector.
-/

namespace LittleComputer

inductive Service where
  /-- Read a character into `R0`. -/
  | getc
  /-- Write the character in `R0`. -/
  | out
  /-- Write the string at the address in `R0`, one character a word. -/
  | puts
  /-- Read a character into `R0` and write it. -/
  | read
  /-- Write the string at the address in `R0`, two characters a word. -/
  | putsp
  /-- Stop the machine. -/
  | halt
deriving DecidableEq, Repr

namespace Service

def vector : Service → Nat
  | .getc => 0x20
  | .out => 0x21
  | .puts => 0x22
  | .read => 0x23
  | .putsp => 0x24
  | .halt => 0x25

def ofVector? : Nat → Option Service
  | 0x20 => some .getc
  | 0x21 => some .out
  | 0x22 => some .puts
  | 0x23 => some .read
  | 0x24 => some .putsp
  | 0x25 => some .halt
  | _ => none

def name : Service → String
  | .getc => "GETC"
  | .out => "OUT"
  | .puts => "PUTS"
  | .read => "IN"
  | .putsp => "PUTSP"
  | .halt => "HALT"

/-- A routine is found by its vector. -/
@[simp] theorem ofVector?_vector (s : Service) : ofVector? s.vector = some s := by
  cases s <;> rfl

/-- A vector is that of one routine. -/
theorem ofVector?_eq_some_iff {v : Nat} {s : Service} : ofVector? v = some s ↔ v = s.vector := by
  constructor
  · intro h
    unfold ofVector? at h
    split at h <;> first | (cases h; rfl) | simp at h
  · rintro rfl
    exact ofVector?_vector s

end Service

end LittleComputer
