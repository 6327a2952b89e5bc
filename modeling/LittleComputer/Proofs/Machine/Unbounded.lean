import LittleComputer.Machine.Step
import Mathlib

/-!
# The machine in unbounded integers

A second account of what instructions do, in which nothing can wrap. Registers, addresses and bytes
are integers, and memory goes on with zeros on both sides. For every instruction it lists the
addresses that are needed, in the order in which they are (`Unbounded.needs`), and what becomes of
the state if all of them are in memory (`Unbounded.effect`).
-/

namespace LittleComputer

/-- Whether an address is one of memory. -/
def InMemory (a : Int) : Prop := 0 ≤ a ∧ a ≤ 0xFFFF

instance : DecidablePred InMemory := fun _ => inferInstanceAs (Decidable (_ ∧ _))

/-- The flag that tells the sign of a number. -/
def Condition.ofSign (n : Int) : Condition := ⟨decide (n < 0), decide (n = 0), decide (0 < n)⟩

/-- The operations on words without a sign. The sum is the only one that is reduced; what an
immediate adds to the other two are the low bits of its two's complement. -/
def Operation.exact : Operation → Int → Int → Int
  | .add, a, b => (a + b) % 65536
  | .and, a, b => ((a % 65536).toNat &&& (b % 65536).toNat : Nat)
  | .xor, a, b => ((a % 65536).toNat ^^^ (b % 65536).toNat : Nat)

/-- Shifts multiply and divide by a power of two. Division rounds down; the arithmetic one is that
of the number in two's complement. -/
def Shift.exact : Shift → Int → Nat → Int
  | .left, w, n => w * 2 ^ n % 65536
  | .rightLogical, w, n => w / 2 ^ n
  | .rightArithmetic, w, n => w.bmod 65536 / 2 ^ n % 65536

/-- A machine in unbounded integers. Words are from 0 to 65535, bytes from 0 to 255. -/
@[ext]
structure Unbounded where
  register : Register → Int
  pc : Int
  condition : Condition
  byte : Int → Int
  input : List Byte

namespace Unbounded

variable (s : Unbounded)

/-! ## Parts of the state -/

/-- The word at an address, the low byte first. -/
def word (a : Int) : Int := s.byte a + 256 * s.byte (a + 1)

def set (i : Register) (n : Int) : Unbounded :=
  { s with register := Function.update s.register i n }

/-- Overwrite a register, and set the condition codes from its value in two's complement. -/
def setResult (i : Register) (n : Int) : Unbounded :=
  { s.set i n with condition := .ofSign (n.bmod 65536) }

def setByte (a n : Int) : Unbounded := { s with byte := Function.update s.byte a n }

def setWord (a n : Int) : Unbounded := (s.setByte a (n % 256)).setByte (a + 1) (n / 256)

/-- The value of the second operand of an operation. -/
def value : Argument → Int
  | .register sr2 => s.register sr2
  | .immediate imm5 => imm5

/-- The value that a load puts into its register. A byte is extended by its sign. -/
def loaded : Access → Int → Int
  | .byte, a => (s.byte a).bmod 256 % 65536
  | .word, a => s.word a
  | .indirect, a => s.word (s.word a)

/-- What a store of a word leaves. Of the word, a byte access stores the low byte. -/
def stored : Access → Int → Int → Unbounded
  | .byte, a, n => s.setByte a (n % 256)
  | .word, a, n => s.setWord a n
  | .indirect, a, n => s.setWord (s.word a) n

/-- Read a byte into `R0`, if there is one. -/
def takeByte : Unbounded :=
  match s.input with
  | b :: rest => { s.set .io b.toNat with input := rest }
  | [] => s

/-- What a routine does, after the return address is in `R7`. -/
def served : Option Service → Unbounded
  | some .getc | some .read => s.takeByte
  | _ => s

/-- What an instruction does, with the program counter already at the next one. -/
def effect : Instruction → Unbounded
  | .operate op dr sr1 argument => s.setResult dr (op.exact (s.register sr1) (s.value argument))
  | .not dr sr => s.setResult dr (65535 - s.register sr)
  | .branch condition offset9 =>
    if condition.intersects s.condition then { s with pc := s.pc + 2 * offset9 } else s
  | .jump base => { s with pc := s.register base }
  | .ret => { s with pc := s.register .link }
  | .call offset11 => { s.set .link s.pc with pc := s.pc + 2 * offset11 }
  | .callRegister base => { s.set .link s.pc with pc := s.register base }
  | .load access dr base offset6 =>
    s.setResult dr (s.loaded access (s.register base + access.unit * offset6))
  | .store access sr base offset6 =>
    s.stored access (s.register base + access.unit * offset6) (s.register sr)
  | .loadAddress dr offset9 => s.setResult dr (s.pc + 2 * offset9)
  | .shift direction dr sr amount4 => s.setResult dr (direction.exact (s.register sr) amount4)
  | .returnFromInterrupt =>
    let sp := s.register .stack
    { s.set .stack (sp + 4) with
      pc := s.word sp, condition := .ofBits (s.word (sp + 2)).toNat }
  | .trap vector => (s.set .link s.pc).served (Service.ofVector? vector)

/-! ## Addresses -/

/-- What a load or store needs besides its effective address. -/
def further : Access → Int → List Int
  | .byte, _ => []
  | .word, a => [a + 1]
  | .indirect, a => [a + 1, s.word a, s.word a + 1]

/-- The bytes of the words of a string, with the word that ends it. A string is not followed any
further than to the first address after memory. -/
def stringBytes (ends : Int → Bool) (a : Int) : List Int :=
  if ends (s.word a) ∨ 0xFFFF < a then [a, a + 1] else a :: (a + 1) :: stringBytes ends (a + 2)
termination_by (0x10000 - a).toNat

/-- The addresses that an instruction needs, with the program counter already at the next one. -/
def needs : Instruction → List Int
  | .branch condition offset9 =>
    if condition.intersects s.condition then [s.pc + 2 * offset9] else []
  | .call offset | .loadAddress _ offset => [s.pc + 2 * offset]
  | .load access _ base offset6 | .store access _ base offset6 =>
    let a := s.register base + access.unit * offset6
    a :: s.further access a
  | .returnFromInterrupt =>
    let sp := s.register .stack
    [sp, sp + 1, sp + 2, sp + 3, sp + 4]
  | .trap vector =>
    match Service.ofVector? vector with
    | some .puts => s.stringBytes (fun w => w = 0) (s.register .io)
    | some .putsp => s.stringBytes (fun w => w % 256 = 0 ∨ w / 256 = 0) (s.register .io)
    | _ => []
  | _ => []

/-- The instruction that the word at the program counter encodes. -/
def instruction? : Option Instruction := Instruction.decode? (BitVec.ofInt 16 (s.word s.pc))

/-- The state with the program counter at the next instruction. -/
def advanced : Unbounded := { s with pc := s.pc + 2 }

/-- All addresses that the next step needs, in order. Where there is no instruction, none is needed
after those of the word that was to be one. -/
def addresses : List Int :=
  s.pc :: (s.pc + 1) ::
    match s.instruction? with
    | some i => (s.pc + 2) :: s.advanced.needs i
    | none => []

/-- A string needs the address that it begins at. -/
theorem exists_stringBytes_eq_cons (ends : Int → Bool) (a : Int) :
    ∃ rest, s.stringBytes ends a = a :: rest := by
  rw [stringBytes]
  split
  · exact ⟨_, rfl⟩
  · exact ⟨_, rfl⟩

/-! ## What is kept -/

/-- A branch leaves codes and memory alone, whether it is taken or not. -/
theorem kept_branch (condition : Condition) (offset9 : Int) :
    (s.effect (.branch condition offset9)).condition = s.condition ∧
      (s.effect (.branch condition offset9)).byte = s.byte := by
  rw [effect]
  split
  · exact ⟨rfl, rfl⟩
  · exact ⟨rfl, rfl⟩

/-- A byte that is read leaves codes and memory alone. -/
theorem kept_takeByte : s.takeByte.condition = s.condition ∧ s.takeByte.byte = s.byte := by
  unfold takeByte
  cases s.input with
  | nil => exact ⟨rfl, rfl⟩
  | cons b rest => exact ⟨rfl, rfl⟩

/-- Every routine leaves codes and memory alone. -/
theorem kept_served (routine : Option Service) :
    (s.served routine).condition = s.condition ∧ (s.served routine).byte = s.byte := by
  cases routine with
  | none => exact ⟨rfl, rfl⟩
  | some routine =>
    cases routine with
    | getc | read => exact s.kept_takeByte
    | out | puts | putsp | halt => exact ⟨rfl, rfl⟩

end Unbounded

/-! ## The machine as it is seen -/

/-- The byte at an unbounded address, with zeros on both sides of memory. -/
def Memory.byteAt (m : Memory) (n : Int) : Int :=
  match Word.address? n with
  | some a => (m.byte a).toNat
  | none => 0

namespace Machine

/-- A machine in unbounded integers, with the given registers. -/
def viewOf (m : Machine) (r : Registers) : Unbounded where
  register i := (r.get i).toNat
  pc := r.pc.toNat
  condition := r.condition
  byte := m.memory.byteAt
  input := m.input

/-- A machine in unbounded integers. -/
def view (m : Machine) : Unbounded := m.viewOf m.registers

end Machine

/-- Every address of sixteen bits is one of memory. -/
theorem inMemory_toNat (a : Word) : InMemory a.toNat := by
  have := a.isLt
  unfold InMemory
  omega

/-- An integer is an address of memory if it is one of sixteen bits. -/
theorem inMemory_iff {n : Int} : InMemory n ↔ ∃ a, Word.address? n = some a := by
  constructor
  · intro h
    unfold InMemory at h
    exact ⟨_, if_pos ⟨h.1, show n.toNat < 65536 by omega⟩⟩
  · rintro ⟨a, ha⟩
    rw [Word.address?_eq_some_iff.1 ha]
    exact inMemory_toNat a

namespace Memory

/-- The unbounded memory has the bytes of the memory. -/
theorem byteAt_toNat (m : Memory) (a : Word) : m.byteAt a.toNat = (m.byte a).toNat := by
  rw [byteAt, Word.address?_toNat]

/-- A byte that is written is one of the unbounded memory. -/
theorem byteAt_setByte (m : Memory) (a : Word) (b : Byte) :
    (m.setByte a b).byteAt = Function.update m.byteAt a.toNat (b.toNat : Int) := by
  funext n
  rw [Function.update_apply]
  cases hn : Word.address? n with
  | some c =>
    obtain rfl := Word.address?_eq_some_iff.1 hn
    rw [byteAt_toNat, byteAt_toNat, byte_setByte]
    by_cases h : a = c
    · rw [if_pos h, if_pos (h ▸ rfl)]
    · rw [if_neg h, if_neg fun hc => h (BitVec.eq_of_toNat_eq (Int.ofNat_inj.1 hc.symm))]
  | none =>
    have hne : n ≠ a.toNat := by
      rintro rfl
      rw [Word.address?_toNat] at hn
      cases hn
    rw [if_neg hne, byteAt, byteAt, hn]

end Memory

namespace Word

/-- The value in two's complement is the balanced remainder. -/
theorem toInt_eq_bmod (w : Word) : w.toInt = (w.toNat : Int).bmod 65536 :=
  BitVec.toInt_eq_toNat_bmod w

/-- The value without a sign is the remainder. -/
theorem toNat_eq_toInt_emod (w : Word) : (w.toNat : Int) = w.toInt % 65536 := by
  have hlt := w.isLt
  have hmod : (w.toNat : Int).bmod 65536 % (65536 : Nat) = w.toNat % (65536 : Nat) := Int.bmod_emod
  rw [toInt_eq_bmod]
  omega

/-- The word of an integer is its remainder. -/
theorem toNat_ofInt_eq (n : Int) : ((BitVec.ofInt 16 n : Word).toNat : Int) = n % 65536 := by
  rw [BitVec.toNat_ofInt]
  omega

/-- The word of an integer that a word has is that word. -/
theorem ofInt_eq {w : Word} {n : Int} (h : (w.toNat : Int) = n) : BitVec.ofInt 16 n = w := by
  rw [← h, BitVec.ofInt_natCast, BitVec.ofNat_toNat, BitVec.setWidth_eq]

end Word

/-- The codes of a word are those of its value in two's complement. -/
theorem Condition.ofValue_eq_ofSign (w : Word) :
    Condition.ofValue w = .ofSign ((w.toNat : Int).bmod 65536) := by
  rw [← Word.toInt_eq_bmod]
  have hzero : w = 0 ↔ w.toInt = 0 := BitVec.toInt_inj.symm
  unfold Condition.ofValue Condition.ofSign
  rcases lt_trichotomy w.toInt 0 with h | h | h
  · rw [if_pos h]
    simp [h, h.ne, h.not_gt]
  · rw [if_neg h.not_lt, if_pos (hzero.2 h)]
    simp [h]
  · rw [if_neg h.not_gt, if_neg fun hw => h.ne' (hzero.1 hw)]
    simp [h, h.ne', h.not_gt]

/-! ## Words and what they stand for -/

/-- A second operand has its exact value, up to a multiple of 65536. -/
theorem Argument.value_toNat_mod (m : Machine) (r : Registers) (argument : Argument) :
    ((argument.value r).toNat : Int) = (m.viewOf r).value argument % 65536 := by
  cases argument with
  | register sr2 =>
    have := (r.get sr2).isLt
    change ((r.get sr2).toNat : Int) = ((r.get sr2).toNat : Int) % 65536
    omega
  | immediate imm5 => exact Word.toNat_ofInt_eq imm5

/-- An operation on words is the exact one, for a second operand up to such a multiple. -/
theorem Operation.toNat_apply (op : Operation) {a b : Word} {n : Int}
    (hb : (b.toNat : Int) = n % 65536) :
    ((op.apply a b).toNat : Int) = op.exact a.toNat n := by
  have ha := a.isLt
  have hamod : ((a.toNat : Int) % 65536).toNat = a.toNat := by omega
  have hbmod : (n % 65536).toNat = b.toNat := by omega
  cases op with
  | add =>
    rw [Operation.apply, Operation.exact, BitVec.toNat_add]
    omega
  | and => rw [Operation.apply, Operation.exact, BitVec.toNat_and, hamod, hbmod]
  | xor => rw [Operation.apply, Operation.exact, BitVec.toNat_xor, hamod, hbmod]

/-- A shift of a word is the exact one. -/
theorem Shift.toNat_apply (direction : Shift) (w : Word) (n : Nat) :
    ((direction.apply w n).toNat : Int) = direction.exact w.toNat n := by
  cases direction with
  | left =>
    rw [Shift.apply, Shift.exact, BitVec.toNat_shiftLeft, Nat.shiftLeft_eq]
    push_cast
    rfl
  | rightLogical =>
    rw [Shift.apply, Shift.exact, BitVec.toNat_ushiftRight, Nat.shiftRight_eq_div_pow]
    push_cast
    rfl
  | rightArithmetic =>
    rw [Shift.apply, Shift.exact, Word.toNat_eq_toInt_emod, BitVec.toInt_sshiftRight,
      Int.shiftRight_eq_div_pow, Word.toInt_eq_bmod]
    push_cast
    rfl

/-- A byte that is extended keeps its value in two's complement. -/
theorem Byte.toNat_signExtend (b : Byte) :
    (((b.signExtend 16 : Word)).toNat : Int) = (b.toNat : Int).bmod 256 % 65536 := by
  rw [Word.toNat_eq_toInt_emod, BitVec.toInt_signExtend_of_le (by decide),
    BitVec.toInt_eq_toNat_bmod]

end LittleComputer
