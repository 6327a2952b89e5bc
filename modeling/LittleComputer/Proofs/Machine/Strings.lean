import LittleComputer.Proofs.Machine.Loading
import Mathlib

/-!
# Strings in memory

How the routines that write a string go through memory. They read word by word, for as long as there
are whole words, up to the first zero, and fail if there is none. So a string of words with a zero
word after it is read back up to the first zero that is in it, and `PUTS` writes what is read.
-/

namespace LittleComputer

namespace Memory

variable {m : Memory} {a w : Word} {ws : List Word}

/-! ## Words in a row -/

/-- Whether words stand one after the other from an address on. -/
structure Holds (m : Memory) (a : Word) (ws : List Word) : Prop where
  fits : a.toNat + wordSize * ws.length ≤ memorySize
  readWord : ∀ n w b, ws[n]? = some w → b.toNat = a.toNat + wordSize * n → m.readWord b = .ok w

/-- Words that are loaded stand where they were loaded. -/
theorem holds_setWords (hfits : a.toNat + wordSize * ws.length ≤ memorySize) :
    (m.setWords a ws).Holds a ws :=
  ⟨hfits, fun _ _ _ hn hb => readWord_setWords hfits hn hb⟩

namespace Holds

/-- The first of words in a row is at the address of the row. -/
theorem head (h : m.Holds a (w :: ws)) : m.readWord a = .ok w := h.readWord 0 w a rfl rfl

/-- There is an address after the first of several words. -/
theorem lt (h : m.Holds a (w :: ws)) (hne : ws ≠ []) : a.toNat + wordSize < memorySize := by
  have hlength := List.length_pos_iff.2 hne
  have hfits := h.fits
  rw [List.length_cons] at hfits
  unfold wordSize at hfits ⊢
  omega

/-- Words in a row without the first are a row from the next address on. -/
theorem tail (h : m.Holds a (w :: ws)) (hne : ws ≠ []) : m.Holds (a + 2) ws := by
  have hnext := Word.toNat_add_two (h.lt hne)
  have hfits := h.fits
  rw [List.length_cons, Nat.mul_succ] at hfits
  refine ⟨by omega, fun n v b hn hb => h.readWord (n + 1) v b hn ?_⟩
  rw [hb, hnext, Nat.mul_succ]
  omega

end Holds

/-! ## Whole words -/

/-- The words from an address on, one after the other for as long as both their bytes are in
memory. -/
def wholeWords (m : Memory) (start : Nat) : List Word :=
  (List.range ((memorySize - start) / wordSize)).map fun n =>
    Word.ofBytes (m.byte (BitVec.ofNat 16 (start + wordSize * n)))
      (m.byte (BitVec.ofNat 16 (start + wordSize * n + 1)))

/-- The bytes of those words. -/
def wholeBytes (m : Memory) (start : Nat) : List Byte :=
  (m.wholeWords start).flatMap fun w => [w.low, w.high]

/-- Where there is a whole word, it is the first. -/
theorem wholeWords_of_lt (h : a.toNat + 1 < memorySize) :
    m.wholeWords a.toNat =
      Word.ofBytes (m.byte a) (m.byte (a + 1)) :: m.wholeWords (a.toNat + wordSize) := by
  have hcount : (memorySize - a.toNat) / wordSize =
      (memorySize - (a.toNat + wordSize)) / wordSize + 1 := by
    unfold wordSize
    omega
  have hlow : BitVec.ofNat 16 a.toNat = a := BitVec.ofNat_toNat _ _
  have hhigh : BitVec.ofNat 16 (a.toNat + 1) = a + 1 := by
    rw [BitVec.ofNat_add, hlow]
    rfl
  rw [wholeWords, hcount, List.range_succ_eq_map, List.map_cons, List.map_map, Nat.mul_zero,
    Nat.add_zero, hlow, hhigh, wholeWords]
  refine congrArg _ (List.map_congr_left fun n _ => ?_)
  rw [Function.comp_apply, Nat.mul_succ, Nat.add_comm (wordSize * n), ← Nat.add_assoc]

/-- At the end of memory there is no whole word. -/
theorem wholeWords_of_le {start : Nat} (h : memorySize ≤ start + 1) :
    m.wholeWords start = [] := by
  have hcount : (memorySize - start) / wordSize = 0 := by
    refine Nat.div_eq_of_lt ?_
    unfold wordSize
    omega
  rw [wholeWords, hcount]
  rfl

/-- Words that stand in a row are the first of the whole words from there. -/
theorem Holds.isPrefix_wholeWords (h : m.Holds a ws) : ws <+: m.wholeWords a.toNat := by
  induction ws generalizing a with
  | nil => exact List.nil_prefix
  | cons w ws ih =>
    have hlt : a.toNat + 1 < memorySize := by
      have hfits := h.fits
      rw [List.length_cons, Nat.mul_succ] at hfits
      unfold wordSize at hfits
      omega
    have hw := h.head
    rw [readWord_of_lt hlt, Except.ok.injEq] at hw
    rw [wholeWords_of_lt hlt, hw, List.prefix_cons_inj]
    by_cases hne : ws = []
    · exact hne ▸ List.nil_prefix
    · rw [← Word.toNat_add_two (h.lt hne)]
      exact ih (h.tail hne)

/-! ## Up to a zero -/

/-- What stands before the first zero, which has to be there. Otherwise all of memory has been gone
through, to the first address after it. -/
def beforeZero {n : Nat} (l : List (BitVec n)) : Except Fault (List (BitVec n)) :=
  if 0 ∈ l then .ok (l.takeWhile (· ≠ 0)) else .error (.addressOutOfRange 0x10000)

/-- Nothing stands before a zero at the front, and anything else before what comes next. -/
theorem beforeZero_cons {n : Nat} (x : BitVec n) (l : List (BitVec n)) :
    beforeZero (x :: l) = if x = 0 then .ok [] else (beforeZero l).map (x :: ·) := by
  unfold beforeZero
  by_cases hx : x = 0
  · rw [if_pos hx, hx, if_pos List.mem_cons_self, List.takeWhile_cons_of_neg (by simp)]
  · have hmem : 0 ∈ x :: l ↔ 0 ∈ l := List.mem_cons.trans (or_iff_right (Ne.symm hx))
    rw [if_neg hx, List.takeWhile_cons_of_pos (by simpa using hx)]
    by_cases h : 0 ∈ l
    · rw [if_pos h, if_pos (hmem.2 h)]
      rfl
    · rw [if_neg h, if_neg (mt hmem.1 h)]
      rfl

/-- Before the first zero stands whatever comes up to it. -/
theorem beforeZero_append_zero {n : Nat} (l rest : List (BitVec n)) :
    beforeZero (l ++ 0 :: rest) = .ok (l.takeWhile (· ≠ 0)) := by
  induction l with
  | nil => exact (beforeZero_cons 0 rest).trans (if_pos rfl)
  | cons x l ih =>
    rw [List.cons_append, beforeZero_cons, ih]
    by_cases hx : x = 0
    · rw [if_pos hx, List.takeWhile_cons_of_neg (by simpa using hx)]
    · rw [if_neg hx, List.takeWhile_cons_of_pos (by simpa using hx)]
      rfl

/-! ## Strings -/

/-- A string of one byte a word is read from its first word on. -/
theorem wordStringFrom_eq (m : Memory) (before : List Byte) (a : Word) :
    m.wordStringFrom before a = m.fetch a >>= fun w =>
      if w = 0 then .ok before.reverse
      else a.offset 2 >>= m.wordStringFrom (w.low :: before) := by
  rw [wordStringFrom]
  cases m.fetch a with
  | error f => rfl
  | ok w =>
    by_cases h : w = 0
    · rw [Except.ok_bind, if_pos h]
      exact if_pos h
    · rw [Except.ok_bind, if_neg h]
      refine (if_neg h).trans ?_
      split <;> simp only [*, Except.ok_bind, Except.error_bind]

/-- A string of two bytes a word is read from its first word on. -/
theorem byteStringFrom_eq (m : Memory) (before : List Byte) (a : Word) :
    m.byteStringFrom before a = m.fetch a >>= fun w =>
      if w.low = 0 ∨ w.high = 0 then .ok (if w.low = 0 then before else w.low :: before).reverse
      else a.offset 2 >>= m.byteStringFrom (w.high :: w.low :: before) := by
  rw [byteStringFrom]
  cases m.fetch a with
  | error f => rfl
  | ok w =>
    rw [Except.ok_bind]
    by_cases hlow : w.low = 0
    · rw [if_pos (Or.inl hlow), if_pos hlow]
      exact if_pos hlow
    refine (if_neg hlow).trans ?_
    by_cases hhigh : w.high = 0
    · rw [if_pos (Or.inr hhigh), if_neg hlow]
      exact if_pos hhigh
    · rw [if_neg (not_or.2 ⟨hlow, hhigh⟩)]
      refine (if_neg hhigh).trans ?_
      split <;> simp only [*, Except.ok_bind, Except.error_bind]

/-- A string is read word by word. Whether it starts at an even or at an odd address, reading fails
for the same one: that of the word after the last, or that of the missing half of it. -/
theorem fetch_bind_eq {ended : Word → Prop} [DecidablePred ended] {last : Word → List Byte}
    {next : Word → Word → Except Fault (List Byte)} {read : List Word → Except Fault (List Byte)}
    {after : Word → List Word → Except Fault (List Byte)}
    (hcons : ∀ w ws, read (w :: ws) = if ended w then .ok (last w) else after w ws)
    (hnil : read [] = .error (.addressOutOfRange 0x10000))
    (hlast : ∀ w, after w [] = .error (.addressOutOfRange 0x10000))
    (hnext : ∀ w b, b.toNat = a.toNat + wordSize → next w b = after w (m.wholeWords b.toNat)) :
    (m.fetch a >>= fun w => if ended w then .ok (last w) else a.offset 2 >>= next w) =
      read (m.wholeWords a.toNat) := by
  have hlt := a.toNat_lt_memorySize
  by_cases h : a.toNat + 1 < memorySize
  · rw [fetch_of_lt h, Except.ok_bind, wholeWords_of_lt h, hcons]
    refine if_congr Iff.rfl rfl ?_
    by_cases hmore : a.toNat + wordSize < memorySize
    · have hadd := Word.toNat_add_two hmore
      have hoffset : a.offset 2 = .ok (a + 2) := by
        rw [Word.offset_eq_ok_iff, hadd]
        rfl
      rw [hoffset, Except.ok_bind, hnext _ _ hadd, hadd]
    · have hend : a.toNat + wordSize = memorySize := by
        unfold wordSize at *
        omega
      have hsum : (a.toNat : Int) + 2 = 0x10000 := congrArg Nat.cast hend
      rw [Word.offset, hsum, hend, wholeWords_of_le (Nat.le_succ _), hlast]
      rfl
  · have hend : (a.toNat : Int) + 1 = 0x10000 := by
      unfold memorySize at *
      omega
    rw [fetch_of_not_lt h, hend, wholeWords_of_le (Nat.le_of_not_lt h), hnil]
    rfl

/-- The low bytes of words before the first zero, after those that were read already. -/
def lowBytes (before : List Byte) (ws : List Word) : Except Fault (List Byte) :=
  (beforeZero ws).map fun ws => before.reverse ++ ws.map Word.low

/-- The bytes of words before the first that is zero, after those that were read already. -/
def allBytes (before : List Byte) (ws : List Word) : Except Fault (List Byte) :=
  (beforeZero (ws.flatMap fun w => [w.low, w.high])).map (before.reverse ++ ·)

/-- A first word that is not zero adds its low byte. -/
theorem lowBytes_cons (before : List Byte) (w : Word) (ws : List Word) :
    lowBytes before (w :: ws) =
      if w = 0 then .ok before.reverse else lowBytes (w.low :: before) ws := by
  rw [lowBytes, beforeZero_cons]
  by_cases hw : w = 0
  · rw [if_pos hw, if_pos hw]
    exact congrArg _ (List.append_nil _)
  · rw [if_neg hw, if_neg hw, lowBytes]
    cases beforeZero ws <;> simp [Except.map]

/-- A first word without a zero in it adds both its bytes. -/
theorem allBytes_cons (before : List Byte) (w : Word) (ws : List Word) :
    allBytes before (w :: ws) =
      if w.low = 0 ∨ w.high = 0 then .ok (if w.low = 0 then before else w.low :: before).reverse
      else allBytes (w.high :: w.low :: before) ws := by
  have hsplit : (w :: ws).flatMap (fun w => [w.low, w.high]) =
      w.low :: w.high :: ws.flatMap fun w => [w.low, w.high] := rfl
  rw [allBytes, hsplit, beforeZero_cons, beforeZero_cons]
  by_cases hlow : w.low = 0
  · rw [if_pos hlow, if_pos (Or.inl hlow), if_pos hlow]
    exact congrArg _ (List.append_nil _)
  by_cases hhigh : w.high = 0
  · rw [if_neg hlow, if_pos hhigh, if_pos (Or.inr hhigh), if_neg hlow, List.reverse_cons]
    rfl
  · rw [if_neg hlow, if_neg hhigh, if_neg (not_or.2 ⟨hlow, hhigh⟩), allBytes]
    cases beforeZero (ws.flatMap fun w => [w.low, w.high]) <;> simp [Except.map]

/-- What is read are the low bytes of whole words, by recursion on the memory that is left. -/
theorem wordStringFrom_eq_lowBytes (m : Memory) (before : List Byte) (a : Word) :
    m.wordStringFrom before a = lowBytes before (m.wholeWords a.toNat) := by
  rw [wordStringFrom_eq]
  refine fetch_bind_eq (lowBytes_cons before) rfl (fun _ => rfl) ?_
  intro w b hb
  exact m.wordStringFrom_eq_lowBytes (w.low :: before) b
termination_by 0x10000 - a.toNat
decreasing_by
  have := b.isLt
  unfold wordSize at hb
  omega

/-- What is read are the bytes of whole words, by the same recursion. -/
theorem byteStringFrom_eq_allBytes (m : Memory) (before : List Byte) (a : Word) :
    m.byteStringFrom before a = allBytes before (m.wholeWords a.toNat) := by
  rw [byteStringFrom_eq]
  refine fetch_bind_eq (allBytes_cons before) rfl (fun _ => rfl) ?_
  intro w b hb
  exact m.byteStringFrom_eq_allBytes (w.high :: w.low :: before) b
termination_by 0x10000 - a.toNat
decreasing_by
  have := b.isLt
  unfold wordSize at hb
  omega

/-- A string of one byte a word ends at the first word that is zero. -/
theorem wordString_eq (m : Memory) (a : Word) :
    m.wordString a = (beforeZero (m.wholeWords a.toNat)).map (List.map Word.low) :=
  m.wordStringFrom_eq_lowBytes [] a

/-- A string of two bytes a word ends at the first byte that is zero. -/
theorem byteString_eq (m : Memory) (a : Word) :
    m.byteString a = beforeZero (m.wholeBytes a.toNat) := by
  rw [byteString, byteStringFrom_eq_allBytes, allBytes]
  exact congrFun Except.map_id _

/-- A string ends at the first zero, which is a word where it has a character in each word and a
byte where it has two. It cannot be read exactly where there is no zero up to the end of memory, and
always for the first address after it. -/
theorem strings_end_at_zero (m : Memory) (a : Word) :
    m.wordString a =
        (if 0 ∈ m.wholeWords a.toNat then
          .ok (((m.wholeWords a.toNat).takeWhile (· ≠ 0)).map Word.low)
        else .error (.addressOutOfRange 0x10000)) ∧
      m.byteString a =
        if 0 ∈ m.wholeBytes a.toNat then .ok ((m.wholeBytes a.toNat).takeWhile (· ≠ 0))
        else .error (.addressOutOfRange 0x10000) := by
  refine ⟨?_, m.byteString_eq a⟩
  rw [wordString_eq, beforeZero]
  split <;> rfl

/-- Of a string of words with a zero after them, what is read ends where the first zero is. -/
theorem wordString_of_holds (h : m.Holds a (ws ++ [0])) :
    m.wordString a = .ok ((ws.takeWhile (· ≠ 0)).map Word.low) := by
  obtain ⟨rest, hrest⟩ := h.isPrefix_wholeWords
  rw [wordString_eq, ← hrest, List.append_assoc]
  exact congrArg _ (beforeZero_append_zero ws rest)

end Memory

namespace Machine

variable {m : Machine} {ws : List Word}

/-! ## Routines -/

/-- `PUTS` writes the string at the address in `R0`. -/
theorem exists_step_puts (hrunning : m.halted = false)
    (hfetch : m.memory.readWord m.registers.pc = .ok 0xF022)
    (hpc : m.registers.pc.toNat + wordSize < memorySize)
    (h : m.memory.Holds (m.registers.get .io) (ws ++ [0])) :
    ∃ m', m.step = .ok m' ∧ m'.halted = false ∧ m'.memory = m.memory ∧
      m'.registers.pc = m.registers.pc + 2 ∧
      m'.console = m.console ++ Byte.string ((ws.takeWhile (· ≠ 0)).map Word.low) := by
  let written : Effect :=
    { registers := m.linked
      modified := some .link
      output := Byte.string ((ws.takeWhile (· ≠ 0)).map Word.low) }
  have hserve : m.serve m.linked .puts = .ok written := by
    rw [serve, get_io_linked, Memory.wordString_of_holds h]
    rfl
  refine ⟨m.commit written, ?_, (Bool.or_false _).trans hrunning, rfl, rfl, rfl⟩
  rw [step_of_service .puts hrunning hfetch rfl hpc, hserve]
  rfl

/-- The word of `HALT` halts the machine and writes nothing. -/
theorem exists_step_halt (hrunning : m.halted = false)
    (hfetch : m.memory.readWord m.registers.pc = .ok 0xF025)
    (hpc : m.registers.pc.toNat + wordSize < memorySize) :
    ∃ m', m.step = .ok m' ∧ m'.halted = true ∧ m'.console = m.console := by
  refine ⟨_, step_of_service .halt hrunning hfetch rfl hpc, Bool.or_true _, ?_⟩
  exact String.append_empty

end Machine

end LittleComputer
