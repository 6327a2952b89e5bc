import LittleComputer.Machine.Step
import LittleComputer.Proofs.Outcome
import Mathlib

/-!
# Loaded programs

Words that fit into memory are found there again, each at its address, and a word that encodes an
instruction is executed as that instruction.
-/

namespace LittleComputer

namespace Word

/-- The next word's address, where there is one. -/
theorem toNat_add_two {a : Word} (h : a.toNat + wordSize < memorySize) :
    (a + 2).toNat = a.toNat + wordSize := by
  rw [BitVec.toNat_add]
  exact Nat.mod_eq_of_lt h

/-- The next address, where there is one. -/
theorem toNat_add_one {a : Word} (h : a.toNat + 1 < memorySize) :
    (a + 1).toNat = a.toNat + 1 := by
  rw [BitVec.toNat_add]
  exact Nat.mod_eq_of_lt h

end Word

namespace Memory

variable {m : Memory} {base a b w : Word} {ws : List Word}

/-- A word with both its bytes in memory can be read. -/
theorem readWord_of_lt (h : a.toNat + 1 < memorySize) :
    m.readWord a = .ok (Word.ofBytes (m.byte a) (m.byte (a + 1))) := by
  rw [readWord, checkWord, if_pos h]
  rfl

/-- A word with both its bytes in memory can be fetched. -/
theorem fetch_of_lt (h : a.toNat + 1 < memorySize) :
    m.fetch a = .ok (Word.ofBytes (m.byte a) (m.byte (a + 1))) :=
  congrArg (Except.mapError _) (readWord_of_lt h)

/-- To fetch a word at the last address is a fault at the address after it. -/
theorem fetch_of_not_lt (h : ¬a.toNat + 1 < memorySize) :
    m.fetch a = .error (.addressOutOfRange (a.toNat + 1)) := by
  rw [fetch, readWord, checkWord, if_neg h]
  rfl

/-- A word changes no byte but its own two. -/
theorem byte_setWord_of_outside (ha : a.toNat + wordSize ≤ memorySize)
    (hb : b.toNat < a.toNat ∨ a.toNat + wordSize ≤ b.toNat) :
    (m.setWord a w).byte b = m.byte b := by
  have hnext : (a + 1).toNat = a.toNat + 1 := Word.toNat_add_one ha
  have hne : a ≠ b := by
    rintro rfl
    unfold wordSize at hb
    omega
  have hne' : a + 1 ≠ b := by
    rintro rfl
    unfold wordSize at hb
    omega
  rw [byte_setWord, if_neg hne', if_neg hne]

/-- A word is found where it was written. -/
theorem readWord_setWord_self (ha : a.toNat + wordSize ≤ memorySize) :
    (m.setWord a w).readWord a = .ok w := by
  have hnext : (a + 1).toNat = a.toNat + 1 := Word.toNat_add_one ha
  have hne : a + 1 ≠ a := by
    intro h
    rw [h] at hnext
    omega
  have hlow : (m.setWord a w).byte a = w.low := by
    rw [byte_setWord, if_neg hne, if_pos rfl]
  have hhigh : (m.setWord a w).byte (a + 1) = w.high := by
    rw [byte_setWord, if_pos rfl]
  rw [readWord_of_lt ha, hlow, hhigh, Word.ofBytes_low_high]

/-- The first of some words that fit has both its bytes in memory. -/
theorem toNat_add_one_lt (hfits : base.toNat + (wordSize * ws.length + wordSize) ≤ memorySize) :
    base.toNat + 1 < memorySize := by
  unfold wordSize at hfits
  omega

/-- A word that fits together with one before it has an address. -/
theorem toNat_next (hfits : base.toNat + (wordSize * ws.length + wordSize) ≤ memorySize)
    (hws : ws ≠ []) : (base + 2).toNat = base.toNat + wordSize := by
  have := List.length_pos_iff.2 hws
  refine Word.toNat_add_two ?_
  unfold wordSize at hfits ⊢
  omega

/-- Words that fit change no byte but their own. -/
theorem byte_setWords_of_outside (hfits : base.toNat + wordSize * ws.length ≤ memorySize)
    (hb : b.toNat < base.toNat ∨ base.toNat + wordSize * ws.length ≤ b.toNat) :
    (m.setWords base ws).byte b = m.byte b := by
  induction ws generalizing m base with
  | nil => rfl
  | cons w ws ih =>
    rw [List.length_cons, Nat.mul_succ] at hfits hb
    have hself : (m.setWord base w).byte b = m.byte b :=
      byte_setWord_of_outside (by omega) (by omega)
    rw [setWords]
    cases ws with
    | nil => exact hself
    | cons w' ws =>
      have hnext := toNat_next hfits (List.cons_ne_nil w' ws)
      rw [ih (by rw [hnext]; omega) (by rw [hnext]; omega)]
      exact hself

/-- Words that are set leave the words below them alone. -/
theorem readWord_setWords_of_lt (hfits : base.toNat + wordSize * ws.length ≤ memorySize)
    (ha : a.toNat + 1 < base.toNat) : (m.setWords base ws).readWord a = m.readWord a := by
  have hlt := base.isLt
  have hnext : (a + 1).toNat = a.toNat + 1 := Word.toNat_add_one (Nat.lt_trans ha hlt)
  rw [readWord, readWord, byte_setWords_of_outside hfits (Or.inl (Nat.lt_of_succ_lt ha)),
    byte_setWords_of_outside hfits (Or.inl (hnext ▸ ha))]

/-- Every one of some words that fit is found at its address. -/
theorem readWord_setWords (hfits : base.toNat + wordSize * ws.length ≤ memorySize) {n : Nat}
    (hn : ws[n]? = some w) (ha : a.toNat = base.toNat + wordSize * n) :
    (m.setWords base ws).readWord a = .ok w := by
  induction ws generalizing m base n with
  | nil => cases hn
  | cons v ws ih =>
    rw [List.length_cons, Nat.mul_succ] at hfits
    rw [setWords]
    cases n with
    | zero =>
      cases hn
      obtain rfl : a = base := BitVec.eq_of_toNat_eq ha
      cases ws with
      | nil => exact readWord_setWord_self (by omega)
      | cons v' ws =>
        have hnext := toNat_next hfits (List.cons_ne_nil v' ws)
        rw [readWord_setWords_of_lt (by rw [hnext]; omega)
          (by rw [hnext]; exact Nat.lt_succ_self _)]
        exact readWord_setWord_self (by omega)
    | succ n =>
      have hnext := toNat_next hfits (List.ne_nil_of_mem (List.mem_of_getElem? hn))
      refine ih (by rw [hnext]; omega) hn ?_
      rw [ha, hnext, Nat.mul_succ]
      omega

/-- The low byte of a word comes first. -/
theorem bytes_setWords (hfits : base.toNat + wordSize * ws.length ≤ memorySize) {n : Nat}
    (hn : ws[n]? = some w) (ha : a.toNat = base.toNat + wordSize * n) :
    (m.setWords base ws).byte a = w.low ∧ (m.setWords base ws).byte (a + 1) = w.high := by
  have hlt : a.toNat + 1 < memorySize := by
    obtain ⟨hlength, _⟩ := List.getElem?_eq_some_iff.1 hn
    unfold wordSize at hfits ha
    omega
  have hread := readWord_setWords (m := m) hfits hn ha
  rw [readWord_of_lt hlt, Except.ok.injEq] at hread
  rw [← hread, Word.low_ofBytes, Word.high_ofBytes]
  exact ⟨rfl, rfl⟩

/-- Words are loaded if and only if they fit. -/
theorem load_eq_ok_iff {m' : Memory} :
    m.load base ws = .ok m' ↔
      base.toNat + wordSize * ws.length ≤ memorySize ∧ m' = m.setWords base ws := by
  unfold load
  by_cases h : base.toNat + wordSize * ws.length ≤ memorySize
  · simp [h, eq_comm]
  · simp [h]

end Memory

namespace Machine

variable {m m' : Machine} {p : Program}

/-- Words that fit make a machine, which is about to execute the first. -/
theorem ofWords_eq_ok_iff {base : Word} {words : List Word} :
    ofWords base words = .ok m ↔
      base.toNat + wordSize * words.length ≤ memorySize ∧
        m = { initial with
          registers := { Registers.initial with pc := base }
          memory := Memory.zero.setWords base words } := by
  unfold ofWords
  cases h : Memory.zero.load base words with
  | error e =>
    refine iff_of_false nofun fun hm => ?_
    rw [Memory.load_eq_ok_iff.2 ⟨hm.1, rfl⟩] at h
    cases h
  | ok memory =>
    obtain ⟨hfits, rfl⟩ := Memory.load_eq_ok_iff.1 h
    simp only [Except.ok.injEq]
    constructor
    · rintro rfl
      exact ⟨hfits, rfl⟩
    · rintro ⟨_, rfl⟩
      rfl

/-- A program that fits makes a machine, which is about to execute its first word. -/
theorem ofProgram_eq_ok_iff :
    ofProgram p = .ok m ↔
      p.endAddress ≤ memorySize ∧
        m = { initial with
          registers := { Registers.initial with pc := p.origin }
          memory := Memory.zero.setWords p.origin p.words } := ofWords_eq_ok_iff

/-- The next instruction is that of the word at the program counter. -/
theorem current_eq_ok_iff {i : Instruction} :
    m.current = .ok i ↔
      ∃ w, m.memory.readWord m.registers.pc = .ok w ∧ Instruction.decode w = .ok i := by
  simp only [current, Except.bind_eq_ok_iff, Except.mapError_eq_ok_iff]

/-- The next instruction is that of a word that is found and can be decoded. -/
theorem current_of_decode? {w : Word} {i : Instruction}
    (hfetch : m.memory.readWord m.registers.pc = .ok w)
    (hdecode : Instruction.decode? w = some i) : m.current = .ok i :=
  current_eq_ok_iff.2 ⟨w, hfetch, Instruction.decode_eq_ok_iff.2 hdecode⟩

/-- A machine that is not halted executes the instruction that the word at the program counter
encodes, with the program counter already at the next word. -/
theorem step_of_decode? {w : Word} {i : Instruction} (hrunning : m.halted = false)
    (hfetch : m.memory.readWord m.registers.pc = .ok w) (hdecode : Instruction.decode? w = some i)
    (hpc : m.registers.pc.toNat + wordSize < memorySize) :
    m.step =
      (m.execute { m.registers with pc := m.registers.pc + 2 } i).map m.commit := by
  have hnext : m.registers.pc.offset wordSize = .ok (m.registers.pc + 2) := by
    rw [Word.offset_eq_ok_iff, Word.toNat_add_two hpc]
    rfl
  rw [step, plan, hrunning, current_of_decode? hfetch hdecode, hnext]
  rfl

/-- The registers that a routine starts with, of which `R7` holds the return address. -/
def linked (m : Machine) : Registers :=
  { m.registers with pc := m.registers.pc + 2 }.set .link (m.registers.pc + 2)

/-- The return address leaves `R0` alone. -/
@[simp] theorem get_io_linked (m : Machine) : m.linked.get .io = m.registers.get .io :=
  Registers.get_set _ _ _ _

/-- An instruction that calls a routine does what the routine does. -/
theorem step_of_service (routine : Service) {w : Word} (hrunning : m.halted = false)
    (hfetch : m.memory.readWord m.registers.pc = .ok w)
    (hdecode : Instruction.decode? w = some (.trap routine.vector))
    (hpc : m.registers.pc.toNat + wordSize < memorySize) :
    m.step = (m.serve m.linked routine).map m.commit := by
  rw [step_of_decode? hrunning hfetch hdecode hpc, execute, trap, Service.ofVector?_vector]
  rfl

end Machine

end LittleComputer
