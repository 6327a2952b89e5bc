import LittleComputer.Proofs.Assembly.Capacity
import LittleComputer.Proofs.Machine.Requests
import Mathlib

/-!
# Fresh machines

What a machine is after a load: the words are in memory, a byte after the other, everything else is
as if nothing had ever run, and nothing is left of the machine before. A load of words that do not
fit changes nothing, and a string that is too long to be counted makes a program of such words.
-/

namespace LittleComputer

open Assembly

variable {base a w : Word} {ws : List Word}

namespace Memory

/-- Whether a memory holds words from an address on, each with its low byte first, and zeros. -/
structure Image (base : Word) (ws : List Word) (m : Memory) : Prop where
  low : ∀ (i : Nat) (a w : Word), ws[i]? = some w → a.toNat = base.toNat + wordSize * i →
    m.byte a = w.low
  high : ∀ (i : Nat) (a w : Word), ws[i]? = some w → a.toNat = base.toNat + wordSize * i + 1 →
    m.byte a = w.high
  zero : ∀ a : Word, a.toNat < base.toNat ∨ base.toNat + wordSize * ws.length ≤ a.toNat →
    m.byte a = 0

/-- An address among those of some words is that of a low byte or that of a high byte. -/
theorem exists_getElem?_of_mem (hbase : base.toNat ≤ a.toNat)
    (ha : a.toNat < base.toNat + wordSize * ws.length) :
    ∃ i w, ws[i]? = some w ∧
      (a.toNat = base.toNat + wordSize * i ∨ a.toNat = base.toNat + wordSize * i + 1) := by
  have hi : (a.toNat - base.toNat) / wordSize < ws.length := by
    unfold wordSize at ha ⊢
    omega
  refine ⟨_, ws[(a.toNat - base.toNat) / wordSize], List.getElem?_eq_getElem hi, ?_⟩
  unfold wordSize
  omega

namespace Image

variable {m m' : Memory}

/-- There is one memory with those words and zeros. -/
theorem unique (h : Image base ws m) (h' : Image base ws m') : m = m' := by
  refine ext_byte fun a => ?_
  by_cases hbase : a.toNat < base.toNat
  · rw [h.zero a (Or.inl hbase), h'.zero a (Or.inl hbase)]
  by_cases hpast : base.toNat + wordSize * ws.length ≤ a.toNat
  · rw [h.zero a (Or.inr hpast), h'.zero a (Or.inr hpast)]
  obtain ⟨i, w, hw, hlow | hhigh⟩ :=
    exists_getElem?_of_mem (Nat.not_lt.1 hbase) (Nat.not_le.1 hpast)
  · rw [h.low i a w hw hlow, h'.low i a w hw hlow]
  · rw [h.high i a w hw hhigh, h'.high i a w hw hhigh]

end Image

/-- Words that are set in empty memory are all that is in it. -/
theorem image_setWords (hfits : base.toNat + wordSize * ws.length ≤ memorySize) :
    Image base ws (Memory.zero.setWords base ws) where
  low i a w hw ha := (bytes_setWords hfits hw ha).1
  high i a w hw ha := by
    have hlt := a.toNat_lt_memorySize
    obtain ⟨b, hb⟩ := Layout.exists_word (Nat.lt_of_succ_lt (ha ▸ hlt))
    have hnext : b + 1 = a :=
      BitVec.eq_of_toNat_eq (by rw [Word.toNat_add_one (by omega), ha, hb])
    rw [← hnext]
    exact (bytes_setWords hfits hw hb.symm).2
  zero a ha := by rw [byte_setWords_of_outside hfits ha, byte_zero]

end Memory

namespace Machine

variable {m m' : Machine}

/-- Whether a machine is about to execute the first of some words, and nothing has run yet. -/
structure Fresh (base : Word) (ws : List Word) (m : Machine) : Prop where
  pc : m.registers.pc = base
  general : ∀ i, m.registers.get i = 0
  condition : m.registers.condition = ⟨false, true, false⟩
  memory : m.memory.Image base ws
  halted : m.halted = false
  console : m.console = ""
  input : m.input = []
  lastModified : m.lastModified = none
  steps : m.steps = 0

/-- There is one such machine. -/
theorem Fresh.unique (h : Fresh base ws m) (h' : Fresh base ws m') : m = m' := by
  have hgeneral : m.registers.general = m'.registers.general := by
    refine Vector.ext fun i hi => ?_
    exact (h.general ⟨i, hi⟩).trans (h'.general ⟨i, hi⟩).symm
  obtain ⟨⟨_, _, _⟩, _, _, _, _, _, _⟩ := m
  obtain ⟨⟨_, _, _⟩, _, _, _, _, _, _⟩ := m'
  simp only [Machine.mk.injEq, Registers.mk.injEq]
  exact ⟨⟨hgeneral, h.pc.trans h'.pc.symm, h.condition.trans h'.condition.symm⟩,
    h.memory.unique h'.memory, h.halted.trans h'.halted.symm, h.console.trans h'.console.symm,
    h.input.trans h'.input.symm, h.lastModified.trans h'.lastModified.symm,
    h.steps.trans h'.steps.symm⟩

/-- A machine is made of some words if and only if they fit and it is the fresh one. -/
theorem ofWords_eq_ok_iff_fresh :
    ofWords base ws = .ok m ↔
      base.toNat + wordSize * ws.length ≤ memorySize ∧ Fresh base ws m := by
  rw [ofWords_eq_ok_iff]
  refine and_congr_right fun hfits => ?_
  have hfresh : Fresh base ws { initial with
      registers := { Registers.initial with pc := base }
      memory := Memory.zero.setWords base ws } :=
    { pc := rfl
      general := fun i => by simp [Registers.get, Registers.initial]
      condition := rfl
      memory := Memory.image_setWords hfits
      halted := rfl
      console := rfl
      input := rfl
      lastModified := rfl
      steps := rfl }
  constructor
  · rintro rfl
    exact hfresh
  · intro h
    exact h.unique hfresh

/-- The error tells the last byte that is missing, as long as it is a number of 31 bits. -/
theorem ofWords_of_not_fits (h : memorySize < base.toNat + wordSize * ws.length) :
    ofWords base ws = .error (.addressOutOfRange
      (min (base.toNat + wordSize * ws.length - 1) Memory.maxReported : Nat)) := by
  rw [ofWords, Memory.load, if_neg (Nat.not_le.2 h)]
  rfl

/-- Words that fit make the machine the fresh one. -/
theorem after_loadWords_of_fits (m : Machine)
    (hfits : base.toNat + wordSize * ws.length ≤ memorySize) :
    m' = m.after (.loadWords base ws) ↔ Fresh base ws m' := by
  obtain ⟨n, hn⟩ : ∃ n, ofWords base ws = .ok n := ⟨_, ofWords_eq_ok_iff.2 ⟨hfits, rfl⟩⟩
  have hfresh := (ofWords_eq_ok_iff_fresh.1 hn).2
  rw [after, hn, orSame]
  constructor
  · rintro rfl
    exact hfresh
  · intro h
    exact h.unique hfresh

/-- The words of a loaded program are found at the addresses that the program gives them. -/
theorem peek_of_mem_entries {p : Program} (hload : ofProgram p = .ok m) {entry : Word × Word}
    (hentry : entry ∈ p.entries) : m.memory.peek entry.1 = entry.2 := by
  obtain ⟨hfits, rfl⟩ := ofProgram_eq_ok_iff.1 hload
  obtain ⟨i, hi⟩ := List.getElem?_of_mem hentry
  have ha := toNat_of_entries hfits hi
  rw [getElem?_entries, Option.map_eq_some_iff] at hi
  obtain ⟨w, hw, rfl⟩ := hi
  rw [Memory.peek, Memory.readWord_setWords hfits hw ha]

section Assembled

variable {options : Options} {source : String} {p : Program} (h : assemble options source = .ok p)
include h

/-- A machine that loads a program is the one that the program makes, whatever it has been. -/
theorem ofProgram_of_lt (hlt : p.words.length < 2 ^ 32) (m : Machine) :
    ofProgram p = .ok (m.after (.load p)) := by
  obtain ⟨m', hload⟩ := (exists_ofProgram_iff h).2 hlt
  rw [after, hload, orSame]

/-- A program of 2³² words or more is not loaded, and the machine stays as it was. -/
theorem after_load_of_le (hle : 2 ^ 32 ≤ p.words.length) (m : Machine) :
    m.after (.load p) = m := by
  rw [after]
  cases hload : ofProgram p with
  | error f => rfl
  | ok m' => exact absurd ((exists_ofProgram_iff h).1 ⟨m', hload⟩) (Nat.not_lt.2 hle)

end Assembled

/-- Words are loaded if and only if they fit into memory. Then the machine is the fresh one with
those words, whatever it has been before. Otherwise the error tells the last byte that is missing,
and nothing changes. An assembled program is loaded if and only if it has less than 2³² words, as it
has if its source is shorter than that, and then each of its words is read at its address. -/
theorem load_determines (m : Machine) (base : Word) (ws : List Word) :
    ((∃ m', ofWords base ws = .ok m') ↔ base.toNat + wordSize * ws.length ≤ memorySize) ∧
      (base.toNat + wordSize * ws.length ≤ memorySize →
        ∀ m', m' = m.after (.loadWords base ws) ↔ Fresh base ws m') ∧
      (memorySize < base.toNat + wordSize * ws.length →
        m.after (.loadWords base ws) = m ∧
          (base.toNat + wordSize * ws.length < 2 ^ 31 →
            ofWords base ws =
              .error (.addressOutOfRange (base.toNat + wordSize * ws.length - 1)))) ∧
      ∀ (options : Options) (source : String) (p : Program), assemble options source = .ok p →
        (Text.utf8Size source.toList < 2 ^ 32 - 1 → p.words.length < 2 ^ 32) ∧
          ((∃ m', ofProgram p = .ok m') ↔ p.words.length < 2 ^ 32) ∧
          (p.words.length < 2 ^ 32 →
            ofProgram p = .ok (m.after (.load p)) ∧
              ∀ entry ∈ p.entries, (m.after (.load p)).memory.peek entry.1 = entry.2) ∧
          (2 ^ 32 ≤ p.words.length → m.after (.load p) = m) := by
  refine ⟨?_, fun hfits m' => after_loadWords_of_fits m hfits, fun hpast => ⟨?_, fun hlt => ?_⟩, ?_⟩
  · simp only [ofWords_eq_ok_iff, exists_and_left, exists_eq, and_true]
  · rw [after, ofWords_of_not_fits hpast, orSame]
  · have hle : base.toNat + wordSize * ws.length - 1 ≤ Memory.maxReported := by
      unfold Memory.maxReported
      omega
    rw [ofWords_of_not_fits hpast, Nat.min_eq_left hle, Nat.cast_sub (Nat.one_le_of_lt hpast)]
    push_cast
    rfl
  · intro options source p h
    refine ⟨fun hsource => length_words_lt hsource h, exists_ofProgram_iff h, fun hlt => ?_,
      fun hle => after_load_of_le h hle m⟩
    have hload := ofProgram_of_lt h hlt m
    exact ⟨hload, fun entry hentry => peek_of_mem_entries hload hentry⟩

/-- A machine that has been used. -/
def used : Machine := (initial.pushInput "x").setRegister .stack 12

/-- The last two bytes of memory but one take a word, and there is no room for three more. -/
theorem load_determines_used :
    (0xFFFD : Word).toNat + wordSize * [(0xABCD : Word)].length ≤ memorySize ∧
      Fresh 0xFFFD [0xABCD] (used.after (.loadWords 0xFFFD [0xABCD])) ∧
      ofWords 0xFFFC [1, 2, 3] = .error (.addressOutOfRange 0x10001) ∧
      used.after (.loadWords 0xFFFC [1, 2, 3]) = used ∧
      assemble {} "HALT" = .ok ⟨0x3000, [0xF025], []⟩ ∧
      (used.after (.load ⟨0x3000, [0xF025], []⟩)).memory.peek 0x3000 = 0xF025 := by
  have hfits : (0xFFFD : Word).toNat + wordSize * [(0xABCD : Word)].length ≤ memorySize := by decide
  obtain ⟨_, hfresh, _⟩ := load_determines used 0xFFFD [0xABCD]
  obtain ⟨_, _, hfails, hprograms⟩ := load_determines used 0xFFFC [1, 2, 3]
  have hassemble : assemble {} "HALT" = .ok ⟨0x3000, [0xF025], []⟩ := by decide +kernel
  obtain ⟨hsame, herror⟩ := hfails (by decide)
  obtain ⟨_, _, hload, _⟩ := hprograms {} "HALT" _ hassemble
  obtain ⟨_, hentries⟩ := hload (by decide)
  refine ⟨hfits, (hfresh hfits _).1 rfl, herror (by decide), hsame, hassemble, ?_⟩
  exact hentries (0x3000, 0xF025) (by decide)

/-! ## Strings that are too long to be counted -/

/-- Memory that holds zeros reads as zero everywhere. -/
theorem peek_initial (a : Word) : initial.memory.peek a = 0 := by
  rw [initial, Memory.peek, Memory.readWord]
  cases Memory.checkWord a <;> simp [Except.map, Word.ofBytes]

/-- The first character of a string that is not counted is not in memory after a load. -/
theorem peek_after_storingSource {n : Nat} (h : n % 2 ^ 32 = 0) (hn : n ≠ 0) :
    ∃ p, assemble {} (storingSource n) = .ok p ∧ initial.after (.load p) = initial ∧
      ∃ entry ∈ p.entries, (initial.after (.load p)).memory.peek entry.1 ≠ entry.2 := by
  have hassemble := assemble_storingSource h
  have hsame := after_load_of_le hassemble (le_length_repeated h hn) initial
  refine ⟨_, hassemble, hsame, (0x3000, 0x61), List.mem_of_getElem? (i := 0) ?_, ?_⟩
  · rw [getElem?_entries, List.getElem?_append_left (by simpa using Nat.pos_of_ne_zero hn),
      List.getElem?_replicate_of_lt (Nat.pos_of_ne_zero hn)]
    rfl
  · rw [hsame, peek_initial]
    decide

/-- A string of 2³² characters is assembled and not loaded. -/
theorem peek_ne_of_uncounted :
    ∃ p, assemble {} (storingSource 4294967296) = .ok p ∧ initial.after (.load p) = initial ∧
      ∃ entry ∈ p.entries, (initial.after (.load p)).memory.peek entry.1 ≠ entry.2 :=
  peek_after_storingSource (by norm_num) (by norm_num)

end Machine

end LittleComputer
