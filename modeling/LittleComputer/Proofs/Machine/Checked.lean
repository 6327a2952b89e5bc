import LittleComputer.Machine.Step
import LittleComputer.Proofs.Instruction.Inverse
import LittleComputer.Proofs.Machine.Strings
import Mathlib

/-!
# Arithmetic and memory under checks

What an instruction computes, with every sum, product, shift and index checked as a type of limited
size would have it. A check that does not hold is a breach, which is told apart from the faults that
a program can bring about. For numbers that come out of an instruction word, every check holds, and
the outcome is the same as without them.
-/

namespace LittleComputer

/-- What no program may bring about. -/
inductive Breach where
  /-- A number that its type does not have. -/
  | overflow (n : Int)
  /-- A shift by at least the number of bits. -/
  | shift (amount : Nat)
  /-- A byte beyond the end of memory. -/
  | index (i : Nat)
  /-- A range of bytes that ends beyond the end of memory. -/
  | slice (past : Nat)
  /-- None or several of the condition codes after a result. -/
  | notOneCode (c : Condition)
  /-- Condition codes changed by an instruction that is not to change them. -/
  | changedCodes (before after : Condition)
  /-- Input taken by an instruction that faulted. -/
  | takenInput
  /-- A text cut inside of a character. -/
  | cut (size : Nat)
deriving DecidableEq, Repr

inductive Failure where
  | fault (f : Fault)
  | breach (b : Breach)
deriving DecidableEq, Repr

/-- The numbers that count and index, up to the largest. The size of memory is one of them. -/
class IndexRange where
  largest : Nat
  memorySize_le : memorySize ≤ largest

abbrev Checked := Except Failure

namespace Checked

/-! ## Computations without checks -/

section Plain

variable {α β : Type}

/-- A computation that needs no check. -/
def plain (x : Except Fault α) : Checked α := x.mapError .fault

/-- An answer needs no check. -/
@[simp] theorem plain_ok (a : α) : plain (.ok a) = .ok a := rfl

/-- Two steps without checks are one without checks. -/
theorem plain_bind (x : Except Fault α) (next : α → Except Fault β) :
    plain (x >>= next) = plain x >>= fun a => plain (next a) := by
  cases x <;> rfl

end Plain

/-! ## Numbers -/

def ensure (p : Prop) [Decidable p] (b : Breach) : Checked Unit :=
  if p then .ok () else .error (.breach b)

/-- A check that holds lets the computation go on. -/
theorem ensure_of {p : Prop} [Decidable p] {b : Breach} (h : p) : ensure p b = .ok () := if_pos h

/-- A signed number of 32 bits. -/
def int (n : Int) : Checked Int := do
  ensure ((BitVec.ofInt 32 n).toInt = n) (.overflow n)
  return n

/-- A number that 32 bits can hold is computed as it is. -/
theorem int_of_le {n : Int} (h : -2147483648 ≤ n ∧ n ≤ 2147483647) : int n = .ok n := by
  rw [int, ensure_of]
  · rfl
  · rw [BitVec.toInt_ofInt]
    exact Int.bmod_eq_of_le (by omega) (by omega)

/-- The address at a distance in bytes. -/
def offset (a : Word) (distance : Int) : Checked Word := do
  let n ← int (a.toNat + distance)
  match Word.address? n with
  | some b => return b
  | none => throw (.fault (.addressOutOfRange n))

/-- The address at a distance in units. -/
def offsetBy (unit : Int) (a : Word) (n : Int) : Checked Word := do
  let distance ← int (unit * n)
  offset a distance

/-- An address at a distance of a few bytes needs no check. -/
theorem offset_eq (a : Word) {distance : Int} (h : -2048 ≤ distance ∧ distance ≤ 2047) :
    offset a distance = plain (a.offset distance) := by
  have ha : a.toNat < 65536 := a.isLt
  rw [offset, int_of_le (by omega), Word.offset, Except.ok_bind]
  cases Word.address? (a.toNat + distance) <;> rfl

/-- An address at a distance that an instruction can have needs no check. -/
theorem offsetBy_eq {unit n : Int} (hunit : unit = 1 ∨ unit = 2) (hn : -1024 ≤ n ∧ n ≤ 1023)
    (a : Word) : offsetBy unit a n = plain (a.offset (unit * n)) := by
  have hdistance : -2048 ≤ unit * n ∧ unit * n ≤ 2047 := by
    rcases hunit with rfl | rfl <;> omega
  rw [offsetBy, int_of_le (by omega)]
  exact offset_eq a hdistance

/-- The next word of a string is closer to the end of memory. -/
theorem lt_of_offset_two {a next : Word} (h : offset a 2 = .ok next) :
    memorySize - next.toNat < memorySize - a.toNat := by
  rw [offset_eq a (by decide), plain, Except.mapError_eq_ok_iff, Word.offset_eq_ok_iff] at h
  have hnext := next.toNat_lt_memorySize
  omega

def shift (direction : Shift) (w : Word) (amount : Nat) : Checked Word := do
  ensure (amount < 16) (.shift amount)
  return direction.apply w amount

/-- A word can be shifted by less than its width. -/
theorem shift_of_lt {direction : Shift} {w : Word} {amount : Nat} (h : amount < 16) :
    shift direction w amount = .ok (direction.apply w amount) := by
  rw [shift, ensure_of h]
  rfl

/-! ## Instructions -/

/-- Reading a field shifts by its width, and for the sign by one less. -/
def field (f : Field) : Checked Unit := do
  ensure (f.bits < 32) (.shift f.bits)
  if f.signed then
    ensure (1 ≤ f.bits) (.overflow (f.bits - 1))
    ensure (f.bits - 1 < 16) (.shift (f.bits - 1))

/-- All fields of instruction words. Which of them are read depends on the opcode. -/
def fields : List Field :=
  [.imm5, .offset6, .pcOffset9, .pcOffset11, .amount4, .trapVector8]

/-- No field of an instruction is too wide to be read. -/
theorem forM_fields : fields.forM field = .ok () := rfl

/-! ## Memory -/

def byte (m : Memory) (i : Nat) : Checked Byte :=
  match m.bytes[i]? with
  | some b => .ok b
  | none => .error (.breach (.index i))

def setByte (m : Memory) (i : Nat) (b : Byte) : Checked Memory :=
  if h : i < memorySize then .ok ⟨m.bytes.set i b h⟩ else .error (.breach (.index i))

/-- Every address has a byte. -/
theorem byte_toNat (m : Memory) (a : Word) : byte m a.toNat = .ok (m.byte a) := by
  rw [byte, Vector.getElem?_eq_getElem a.toNat_lt_memorySize]
  rfl

/-- Every address has a byte to overwrite. -/
theorem setByte_toNat (m : Memory) (a : Word) (b : Byte) :
    setByte m a.toNat b = .ok (m.setByte a b) :=
  dif_pos a.toNat_lt_memorySize

variable [IndexRange]

/-- A number that counts or indexes. -/
def index (n : Nat) : Checked Nat := do
  ensure (n ≤ IndexRange.largest) (.overflow n)
  return n

/-- A number up to the largest can index. -/
theorem index_of_le {n : Nat} (h : n ≤ IndexRange.largest) : index n = .ok n := by
  rw [index, ensure_of h]
  rfl

/-- A number above the largest is a breach. -/
theorem index_of_lt {n : Nat} (h : IndexRange.largest < n) :
    index n = .error (.breach (.overflow n)) := by
  rw [index, ensure, if_neg (Nat.not_le_of_lt h)]
  rfl

/-- The size of memory and what is below can index. -/
theorem index_of_le_memorySize {n : Nat} (h : n ≤ memorySize) : index n = .ok n :=
  index_of_le (h.trans IndexRange.memorySize_le)

/-- The index of the low byte of the word at an address. -/
def wordIndex (a : Word) : Checked Nat := do
  let next ← index (a.toNat + 1)
  if next < memorySize then return a.toNat
  else
    let past ← int (a.toNat + 1)
    throw (.fault (.addressOutOfRange past))

def fetch (m : Memory) (a : Word) : Checked Word := do
  let i ← wordIndex a
  let low ← byte m i
  let next ← index (i + 1)
  let high ← byte m next
  return Word.ofBytes low high

def writeWord (m : Memory) (a w : Word) : Checked Memory := do
  let i ← wordIndex a
  let past ← index (i + 2)
  ensure (past ≤ memorySize) (.slice past)
  let m ← setByte m i w.low
  setByte m (i + 1) w.high

/-- A word with both its bytes in memory has an index. -/
theorem wordIndex_of_lt {a : Word} (h : a.toNat + 1 < memorySize) :
    wordIndex a = .ok a.toNat := by
  rw [wordIndex, index_of_le_memorySize h.le, Except.ok_bind, if_pos h]
  rfl

/-- A word at the last address is a fault and no breach. -/
theorem wordIndex_of_not_lt {a : Word} (h : ¬a.toNat + 1 < memorySize) :
    wordIndex a = .error (.fault (.addressOutOfRange (a.toNat + 1))) := by
  have ha : a.toNat < 65536 := a.isLt
  rw [wordIndex, index_of_le_memorySize a.toNat_lt_memorySize, Except.ok_bind, if_neg h,
    int_of_le (by omega)]
  rfl

/-- To fetch a word needs no check besides its own. -/
theorem fetch_eq (m : Memory) (a : Word) : fetch m a = plain (m.fetch a) := by
  rw [fetch]
  by_cases h : a.toNat + 1 < memorySize
  · rw [wordIndex_of_lt h, Except.ok_bind, byte_toNat, Except.ok_bind,
      index_of_le_memorySize h.le, Except.ok_bind, ← Word.toNat_add_one h, byte_toNat,
      Memory.fetch_of_lt h]
    rfl
  · rw [wordIndex_of_not_lt h, Memory.fetch_of_not_lt h]
    rfl

/-- To write a word needs no check besides its own. -/
theorem writeWord_eq (m : Memory) (a w : Word) :
    writeWord m a w = plain ((m.writeWord a w).mapError .ofOutOfRange) := by
  rw [writeWord, Memory.writeWord, Memory.checkWord]
  by_cases h : a.toNat + 1 < memorySize
  · have hpast : a.toNat + 2 ≤ memorySize := h
    rw [if_pos h, wordIndex_of_lt h, Except.ok_bind, index_of_le_memorySize hpast,
      Except.ok_bind, ensure_of hpast, Except.ok_bind, setByte_toNat, Except.ok_bind,
      ← Word.toNat_add_one h, setByte_toNat]
    rfl
  · rw [wordIndex_of_not_lt h, if_neg h]
    rfl

def loaded (m : Memory) (access : Access) (a : Word) : Checked Word :=
  match access with
  | .byte => do
    let b ← byte m a.toNat
    return b.signExtend 16
  | .word => fetch m a
  | .indirect => do
    let pointer ← fetch m a
    fetch m pointer

/-- To load needs no check besides those of its words. -/
theorem loaded_eq (m : Machine) (access : Access) (a : Word) :
    loaded m.memory access a = plain (m.loaded access a) := by
  cases access with
  | byte =>
    rw [loaded, byte_toNat]
    rfl
  | word => exact fetch_eq m.memory a
  | indirect =>
    rw [loaded, Machine.loaded, fetch_eq, plain_bind]
    simp only [fetch_eq]

/-! ## Strings -/

/-- The bytes up to a zero, one or two in a word, added in reverse to those before them. -/
def stringFrom (packed : Bool) (m : Memory) (before : List Byte) (a : Word) :
    Checked (List Byte) :=
  match fetch m a with
  | .error e => .error e
  | .ok w =>
    if w = 0 then .ok before.reverse
    else if packed ∧ w.low = 0 then .ok before.reverse
    else if packed ∧ w.high = 0 then .ok (w.low :: before).reverse
    else
      match h : offset a 2 with
      | .error e => .error e
      | .ok next =>
        have := lt_of_offset_two h
        stringFrom packed m (if packed then w.high :: w.low :: before else w.low :: before) next
termination_by memorySize - a.toNat

/-- A string is read from its first word and then from the word after that. -/
theorem stringFrom_eq (packed : Bool) (m : Memory) (before : List Byte) (a : Word) :
    stringFrom packed m before a = fetch m a >>= fun w =>
      if w = 0 then .ok before.reverse
      else if packed ∧ w.low = 0 then .ok before.reverse
      else if packed ∧ w.high = 0 then .ok (w.low :: before).reverse
      else offset a 2 >>= stringFrom packed m
        (if packed then w.high :: w.low :: before else w.low :: before) := by
  rw [stringFrom]
  cases fetch m a with
  | error e => rfl
  | ok w =>
    rw [Except.ok_bind]
    change ite _ _ _ = _
    congr 3
    split <;> simp only [*, Except.ok_bind, Except.error_bind]

/-- By recursion on what is left of memory. -/
theorem stringFrom_word (m : Memory) (before : List Byte) (a : Word) :
    stringFrom false m before a = plain (m.wordStringFrom before a) := by
  rw [stringFrom_eq, Memory.wordStringFrom_eq, plain_bind, fetch_eq]
  refine congrArg (plain (m.fetch a) >>= ·) (funext fun w => ?_)
  by_cases hw : w = 0
  · rw [if_pos hw, if_pos hw]
    rfl
  rw [if_neg hw, if_neg hw, if_neg nofun, if_neg nofun, if_neg Bool.false_ne_true, plain_bind,
    ← offset_eq a (by decide)]
  cases h : offset a 2 with
  | error e => rfl
  | ok next =>
    have := lt_of_offset_two h
    exact stringFrom_word m (w.low :: before) next
termination_by memorySize - a.toNat

/-- A string of two bytes a word needs no check besides those of its words. -/
theorem stringFrom_byte (m : Memory) (before : List Byte) (a : Word) :
    stringFrom true m before a = plain (m.byteStringFrom before a) := by
  rw [stringFrom_eq, Memory.byteStringFrom_eq, plain_bind, fetch_eq]
  refine congrArg (plain (m.fetch a) >>= ·) (funext fun w => ?_)
  by_cases hlow : w.low = 0
  · rw [if_pos (Or.inl hlow), if_pos hlow, if_pos (And.intro rfl hlow), ite_self]
    rfl
  have hw : w ≠ 0 := by
    rintro rfl
    exact hlow rfl
  rw [if_neg hw, if_neg fun h => hlow h.2]
  by_cases hhigh : w.high = 0
  · rw [if_pos (Or.inr hhigh), if_neg hlow, if_pos (And.intro rfl hhigh)]
    rfl
  rw [if_neg fun h => hhigh h.2, if_neg (not_or.2 ⟨hlow, hhigh⟩), if_pos rfl, plain_bind,
    ← offset_eq a (by decide)]
  cases h : offset a 2 with
  | error e => rfl
  | ok next =>
    have := lt_of_offset_two h
    exact stringFrom_byte m (w.high :: w.low :: before) next
termination_by memorySize - a.toNat

/-! ## The next instruction -/

/-- The instruction that the program counter points to. -/
def current (m : Machine) : Checked Instruction := do
  let w ← fetch m.memory m.registers.pc
  fields.forM field
  plain ((Instruction.decode w).mapError (Fault.undecodable m.registers.pc))

/-- To decode the next instruction needs no check. -/
theorem current_eq (m : Machine) : current m = plain m.current := by
  rw [current, fetch_eq, forM_fields]
  exact (plain_bind (m.memory.fetch m.registers.pc) _).symm

/-! ## The numbers of an instruction -/

omit [IndexRange]

/-- The numbers of a decoded instruction fit their fields. -/
theorem fits_of_decode {w : Word} {i : Instruction} (h : Instruction.decode w = .ok i) : i.Fits :=
  ((Instruction.exists_encode_iff i).1 ⟨w, Instruction.encode_eq_ok_iff.2 h⟩).1

/-- The numbers of the next instruction fit their fields. -/
theorem fits_of_current {m : Machine} {i : Instruction} (h : m.current = .ok i) : i.Fits := by
  obtain ⟨w, _, h⟩ := Except.bind_eq_ok_iff.1 h
  exact fits_of_decode (Except.mapError_eq_ok_iff.1 h)

/-- No field is wider than that of a call. -/
theorem range_of_mem_fields {f : Field} (hf : f ∈ fields) : -1024 ≤ f.min ∧ f.max ≤ 1023 := by
  simp only [fields, List.mem_cons, List.not_mem_nil, or_false] at hf
  rcases hf with rfl | rfl | rfl | rfl | rfl | rfl <;> decide

/-- An instruction whose numbers fit computes its address without a breach. -/
theorem offsetBy_of_fits {i : Instruction} {f : Field} {unit n : Int} (hi : i.Fits)
    (hnumbers : i.numbers = [(f, n)]) (hf : f ∈ fields) (hunit : unit = 1 ∨ unit = 2) (a : Word) :
    offsetBy unit a n = plain (a.offset (unit * n)) := by
  obtain ⟨hmin, hmax⟩ := (Instruction.fits_iff_of_numbers_eq hnumbers).1 hi
  obtain ⟨hlow, hhigh⟩ := range_of_mem_fields hf
  exact offsetBy_eq hunit ⟨hlow.trans hmin, hmax.trans hhigh⟩ a

/-- An instruction whose numbers fit shifts by less than the width of a word. -/
theorem amount_lt {direction : Shift} {dr sr : Register} {amount : Nat}
    (hi : (Instruction.shift direction dr sr amount).Fits) : amount < 16 := by
  obtain ⟨_, hmax⟩ := (Instruction.fits_iff_of_numbers_eq rfl).1 hi
  have hsize : Field.amount4.max = 15 := rfl
  omega

end Checked

end LittleComputer
