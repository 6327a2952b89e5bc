import LittleComputer.Proofs.Machine.Loading
import Mathlib

/-!
# Memory after any writes

Bytes, words and rows of words are written one after the other, wherever they lie and whether they
fit or not. They are written in place here, a byte at a time, so that a write could fail halfway.
None does: each begins with a look at where it ends. So a write changes the bytes that it covers or
nothing at all, and what is read is what was given last.
-/

namespace LittleComputer

/-- What can be written to memory at once. -/
inductive Write where
  | byte (a : Word) (b : Byte)
  | word (a w : Word)
  | words (base : Word) (ws : List Word)
deriving DecidableEq, Repr

namespace Write

def start : Write → Nat
  | byte a _ | word a _ | words a _ => a.toNat

/-- The bytes that are written, the low one of a word first. -/
def bytes : Write → List Byte
  | byte _ b => [b]
  | word _ w => [w.low, w.high]
  | words _ ws => ws.flatMap fun w => [w.low, w.high]

/-- The first address after those that a write covers. -/
def past (write : Write) : Nat := write.start + write.bytes.length

/-- The byte that a row of bytes from an index on has at an address, if it covers it. -/
def inRow? (i : Nat) (bs : List Byte) (a : Nat) : Option Byte :=
  if i ≤ a then bs[a - i]? else none

/-- The byte that a write gives to an address, if it covers it. -/
def given? (write : Write) (a : Word) : Option Byte := inRow? write.start write.bytes a.toNat

/-- The byte that the last of some writes to cover an address gives to it. -/
def lastGiven? (writes : List Write) (a : Word) : Option Byte :=
  writes.reverse.findSome? (·.given? a)

/-- Words cover two addresses each. -/
theorem past_words (base : Word) (ws : List Word) :
    (words base ws).past = base.toNat + wordSize * ws.length := by
  have hlength : (ws.flatMap fun w => [w.low, w.high]).length = wordSize * ws.length := by
    induction ws with
    | nil => rfl
    | cons w ws ih =>
      rw [List.flatMap_cons, List.length_append, ih, List.length_cons (a := w), Nat.mul_succ]
      exact Nat.add_comm _ _
  rw [past, bytes, hlength, start]

/-- No bytes cover no address. -/
theorem inRow?_nil (i a : Nat) : inRow? i [] a = none := ite_self none

/-- A byte covers its own address. -/
theorem inRow?_singleton (i : Nat) (b : Byte) (a : Nat) :
    inRow? i [b] a = if i = a then some b else none := by
  unfold inRow?
  rcases Nat.lt_trichotomy i a with h | rfl | h
  · rw [if_pos h.le, if_neg h.ne, List.getElem?_eq_none (Nat.le_sub_of_add_le' h)]
  · rw [if_pos le_rfl, if_pos rfl, Nat.sub_self, List.getElem?_cons_zero]
  · rw [if_neg (Nat.not_le.2 h), if_neg h.ne']

/-- A row in two parts has the byte of the second part, or else that of the first. Later writes
count before earlier ones in the same order. -/
theorem inRow?_append (i : Nat) (bs cs : List Byte) (a : Nat) :
    inRow? i (bs ++ cs) a = (inRow? (i + bs.length) cs a).or (inRow? i bs a) := by
  unfold inRow?
  by_cases hstart : i ≤ a
  · by_cases hfirst : i + bs.length ≤ a
    · rw [if_pos hstart, if_pos hfirst, if_pos hstart, List.getElem?_append_right (by omega),
        List.getElem?_eq_none (by omega : bs.length ≤ a - i), Option.or_none, Nat.sub_sub]
    · rw [if_pos hstart, if_neg hfirst, if_pos hstart, List.getElem?_append_left (by omega),
        Option.none_or]
  · rw [if_neg hstart, if_neg hstart, if_neg (by omega), Option.none_or]

/-- A write counts where none of the later ones covers the address. -/
theorem lastGiven?_cons (write : Write) (rest : List Write) (a : Word) :
    lastGiven? (write :: rest) a = (lastGiven? rest a).or (write.given? a) := by
  rw [lastGiven?, List.reverse_cons, List.findSome?_append, List.findSome?_singleton]
  rfl

end Write

namespace Memory

/-! ## Writing in place -/

/-- A computation that changes a memory. What it has written before it fails stays written. -/
abbrev Writing := EStateM OutOfRange Memory

namespace Writing

/-- Overwrite a byte, if memory has one at the index. -/
def putByte (i : Nat) (b : Byte) : Writing Unit :=
  if h : i < memorySize then modify fun m => ⟨m.bytes.set i b h⟩ else throw ⟨i⟩

def putWord (i : Nat) (w : Word) : Writing Unit := do
  putByte i w.low
  putByte (i + 1) w.high

/-- Overwrite words one after the other, up to one that memory has no room for. -/
def putWords (i : Nat) : List Word → Writing Unit
  | [] => pure ()
  | w :: ws => do
    putWord i w
    putWords (i + wordSize) ws

def writeByte (a : Word) (b : Byte) : Writing Unit := putByte a.toNat b

def writeWord (a w : Word) : Writing Unit := do
  ofExcept (checkWord a)
  putWord a.toNat w

def load (base : Word) (ws : List Word) : Writing Unit := do
  let past := base.toNat + wordSize * ws.length
  if memorySize < past then throw ⟨(min (past - 1) maxReported : Nat)⟩
  putWords base.toNat ws

variable {m : Memory} {a base w : Word} {ws : List Word}

/-- A byte is overwritten wherever there is an address. -/
theorem run_putByte (m : Memory) (a : Word) (b : Byte) :
    (putByte a.toNat b).run m = .ok () (m.setByte a b) := by
  rw [putByte, dif_pos a.toNat_lt_memorySize]
  rfl

/-- A word is overwritten where both its bytes are in memory. -/
theorem run_putWord (h : a.toNat + 1 < memorySize) :
    (putWord a.toNat w).run m = .ok () (m.setWord a w) := by
  rw [putWord, EStateM.run_bind, run_putByte, ← Word.toNat_add_one h]
  exact run_putByte _ _ _

/-- By induction on the words. After the last of them there may be no address left. -/
theorem run_putWords {i : Nat} (hi : ws ≠ [] → i = base.toNat)
    (hfits : i + wordSize * ws.length ≤ memorySize) :
    (putWords i ws).run m = .ok () (m.setWords base ws) := by
  induction ws generalizing m i base with
  | nil => rfl
  | cons w ws ih =>
    obtain rfl := hi (List.cons_ne_nil w ws)
    rw [List.length_cons, Nat.mul_succ] at hfits
    rw [putWords, EStateM.run_bind, run_putWord (toNat_add_one_lt hfits)]
    exact ih (fun h => (toNat_next hfits h).symm) (by omega)

end Writing

/-- Carry out a write in place. -/
def perform : Write → Writing Unit
  | .byte a b => Writing.writeByte a b
  | .word a w => Writing.writeWord a w
  | .words base ws => Writing.load base ws

/-- The memory that a write makes of another one, if it succeeds. -/
def attempt (m : Memory) : Write → Except OutOfRange Memory
  | .byte a b => .ok (m.setByte a b)
  | .word a w => m.writeWord a w
  | .words base ws => m.load base ws

/-- How a write ends that is done in full or fails at once. -/
def ended (m : Memory) : Except OutOfRange Memory → EStateM.Result OutOfRange Memory Unit
  | .ok m' => .ok () m'
  | .error e => .error e m

/-- A write in place makes the same memory or fails in the same way, and then it has changed
nothing. -/
theorem run_perform (m : Memory) (write : Write) :
    (perform write).run m = m.ended (m.attempt write) := by
  cases write with
  | byte a b => exact Writing.run_putByte m a b
  | word a w =>
    rw [perform, attempt, Writing.writeWord, EStateM.run_bind, EStateM.run_ofExcept, writeWord,
      checkWord]
    by_cases h : a.toNat + 1 < memorySize
    · rw [if_pos h]
      exact Writing.run_putWord h
    · rw [if_neg h]
      rfl
  | words base ws =>
    rw [perform, attempt, Writing.load, load]
    by_cases h : base.toNat + wordSize * ws.length ≤ memorySize
    · simp only [if_pos h, if_neg (Nat.not_lt.2 h)]
      exact Writing.run_putWords (fun _ => rfl) h
    · simp only [if_neg h, if_pos (Nat.not_le.1 h)]
      rfl

/-! ## Single writes -/

section Bytes

variable {m : Memory} {a base w : Word} {ws : List Word}

/-- A byte that is written is the one it gives or the one there was. -/
theorem byte_setByte_eq_getD (m : Memory) (a base : Word) (b : Byte) :
    (m.setByte base b).byte a = (Write.inRow? base.toNat [b] a.toNat).getD (m.byte a) := by
  rw [byte_setByte, Write.inRow?_singleton]
  by_cases h : base = a
  · rw [if_pos h, if_pos (congrArg BitVec.toNat h), Option.getD_some]
  · rw [if_neg h, if_neg (mt BitVec.eq_of_toNat_eq h), Option.getD_none]

/-- A word is written as a row of its two bytes. -/
theorem byte_setWord_eq_getD (h : base.toNat + 1 < memorySize) :
    (m.setWord base w).byte a =
      (Write.inRow? base.toNat [w.low, w.high] a.toNat).getD (m.byte a) := by
  rw [setWord, byte_setByte_eq_getD, byte_setByte_eq_getD, ← Option.getD_or, Word.toNat_add_one h]
  exact congrArg (Option.getD · _) (Write.inRow?_append base.toNat [w.low] [w.high] a.toNat).symm

/-- By induction on the words, as for `Writing.run_putWords`. -/
theorem byte_setWords_eq_getD {i : Nat} (hi : ws ≠ [] → i = base.toNat)
    (hfits : i + wordSize * ws.length ≤ memorySize) :
    (m.setWords base ws).byte a =
      (Write.inRow? i (ws.flatMap fun w => [w.low, w.high]) a.toNat).getD (m.byte a) := by
  induction ws generalizing m i base with
  | nil => rw [List.flatMap_nil, Write.inRow?_nil, setWords, Option.getD_none]
  | cons w ws ih =>
    obtain rfl := hi (List.cons_ne_nil w ws)
    rw [List.length_cons, Nat.mul_succ] at hfits
    have hrest := ih (m := m.setWord base w) (fun h => (toNat_next hfits h).symm) (by omega)
    rw [setWords, hrest, byte_setWord_eq_getD (toNat_add_one_lt hfits), ← Option.getD_or]
    exact congrArg (Option.getD · _) (Write.inRow?_append base.toNat [w.low, w.high] _ _).symm

end Bytes

variable {write : Write}

/-- A write that ends in memory changes the bytes that it covers, and no others. -/
theorem attempt_of_fits (m : Memory) (h : write.past ≤ memorySize) :
    ∃ m', m.attempt write = .ok m' ∧ ∀ a, m'.byte a = (write.given? a).getD (m.byte a) := by
  cases write with
  | byte base b => exact ⟨_, rfl, fun a => byte_setByte_eq_getD m a base b⟩
  | word base w =>
    have hword : base.toNat + 1 < memorySize := h
    refine ⟨m.setWord base w, ?_, fun a => byte_setWord_eq_getD hword⟩
    rw [attempt, writeWord, checkWord, if_pos hword]
    rfl
  | words base ws =>
    rw [Write.past_words] at h
    exact ⟨_, load_eq_ok_iff.2 ⟨h, rfl⟩, fun a => byte_setWords_eq_getD (fun _ => rfl) h⟩

/-- A write that ends beyond memory fails with the last address that it lacks, or the largest that
can be reported. -/
theorem attempt_of_not_fits (m : Memory) (h : ¬write.past ≤ memorySize) :
    m.attempt write = .error ⟨(min (write.past - 1) maxReported : Nat)⟩ := by
  cases write with
  | byte base b => exact absurd base.toNat_lt_memorySize h
  | word base w =>
    have hword : ¬base.toNat + 1 < memorySize := h
    have hle : base.toNat + 1 ≤ maxReported := base.toNat_lt_memorySize.trans (by decide)
    have hlast : min ((Write.word base w).past - 1) maxReported = base.toNat + 1 :=
      Nat.min_eq_left hle
    rw [attempt, writeWord, checkWord, if_neg hword, hlast]
    rfl
  | words base ws =>
    rw [Write.past_words] at h ⊢
    exact if_neg h

/-- What fails has changed nothing. -/
theorem eq_of_run_perform {m m' : Memory} {e : OutOfRange}
    (h : (perform write).run m = .error e m') : m' = m := by
  rw [run_perform] at h
  cases hattempt : m.attempt write with
  | ok n =>
    rw [hattempt] at h
    cases h
  | error f =>
    rw [hattempt] at h
    cases h
    rfl

/-! ## Any number of writes -/

/-- The memory after a write in place, whether it succeeds or fails. -/
def after (m : Memory) (write : Write) : Memory :=
  match (perform write).run m with
  | .ok () m' => m'
  | .error _ m' => m'

/-- The memory after some writes. -/
def afterAll (m : Memory) (writes : List Write) : Memory := writes.foldl after m

def accepts (m : Memory) (write : Write) : Bool :=
  match (perform write).run m with
  | .ok () _ => true
  | .error _ _ => false

/-- Those of some writes that succeed, when they are carried out one after the other. -/
def accepted (m : Memory) : List Write → List Write
  | [] => []
  | write :: rest =>
    if m.accepts write then write :: (m.after write).accepted rest
    else (m.after write).accepted rest

/-- A write that succeeds leaves the memory that it makes. -/
theorem after_of_attempt {m' : Memory} {m : Memory} (h : m.attempt write = .ok m') :
    m.after write = m' := by
  rw [after, run_perform, h]
  rfl

/-- A write that does not fit leaves memory as it is. -/
theorem after_of_not_fits (m : Memory) (h : ¬write.past ≤ memorySize) : m.after write = m := by
  rw [after, run_perform, attempt_of_not_fits m h]
  rfl

/-- Memory accepts what fits. -/
theorem accepts_iff (m : Memory) (write : Write) :
    m.accepts write = true ↔ write.past ≤ memorySize := by
  rw [accepts, run_perform]
  by_cases h : write.past ≤ memorySize
  · obtain ⟨m', hm', _⟩ := attempt_of_fits m h
    rw [hm']
    exact iff_of_true rfl h
  · rw [attempt_of_not_fits m h]
    exact iff_of_false Bool.false_ne_true h

/-- Which writes succeed is a matter of where they end. -/
theorem accepted_eq_filter (m : Memory) (writes : List Write) :
    m.accepted writes = writes.filter fun write => write.past ≤ memorySize := by
  induction writes generalizing m with
  | nil => rfl
  | cons write rest ih =>
    rw [accepted, ih, List.filter_cons]
    exact if_congr ((accepts_iff m write).trans decide_eq_true_iff.symm) rfl rfl

/-- By induction on the writes. One that fails is as good as none, and one that succeeds gives what
later ones do not cover. -/
theorem byte_afterAll (m : Memory) (writes : List Write) (a : Word) :
    (m.afterAll writes).byte a = (Write.lastGiven? (m.accepted writes) a).getD (m.byte a) := by
  induction writes generalizing m with
  | nil => rfl
  | cons write rest ih =>
    rw [show m.afterAll (write :: rest) = (m.after write).afterAll rest from rfl, ih, accepted]
    by_cases h : write.past ≤ memorySize
    · obtain ⟨m', hm', hbyte⟩ := attempt_of_fits m h
      rw [if_pos ((accepts_iff m write).2 h), Write.lastGiven?_cons, Option.getD_or,
        after_of_attempt hm', hbyte]
    · rw [if_neg (mt (accepts_iff m write).1 h), after_of_not_fits m h]

/-- After any writes to memory that held zeros, each byte is the one that the last successful write
to cover it has given to it, or zero. In any memory, a word is made of two bytes, and there is none
at the last address. A write in place ends as the one that makes another memory: it succeeds if it
ends in memory, and else changes nothing. -/
theorem reads_after_writes :
    (∀ (writes : List Write) (a : Word),
        (zero.afterAll writes).byte a = (Write.lastGiven? (zero.accepted writes) a).getD 0) ∧
      ∀ m : Memory,
        (∀ a : Word, a.toNat < 0xFFFF → ∃ w, m.readWord a = .ok w ∧
          w.toNat = (m.byte a).toNat + 256 * (m.byte (a + 1)).toNat) ∧
        m.readWord 0xFFFF = .error ⟨0x10000⟩ ∧
        ∀ write,
          (perform write).run m = m.ended (m.attempt write) ∧
            (m.accepts write ↔ write.past ≤ memorySize) ∧
            ∀ e m', (perform write).run m = .error e m' → m' = m := by
  refine ⟨fun writes a => ?_, fun m => ⟨fun a ha => ?_, rfl, fun write => ?_⟩⟩
  · rw [byte_afterAll, byte_zero]
  · have hlt : a.toNat + 1 < memorySize := Nat.succ_lt_succ ha
    exact ⟨_, readWord_of_lt hlt, Word.toNat_ofBytes _ _⟩
  · exact ⟨run_perform m write, accepts_iff m write, fun _ _ => eq_of_run_perform⟩

/-- Writes that overlap at odd addresses, and two that do not fit. -/
def overlapping : List Write :=
  [.words 0x3000 [0x1234, 0xF025], .word 0x3001 0xABCD, .byte 0x3002 0x77, .word 0xFFFF 0xAAAA,
    .byte 0xFFFF 5, .words 0xFFFE [1, 2]]

/-- Each byte is the last one given, and the two writes that do not fit leave no trace. -/
theorem reads_after_writes_overlapping :
    [0x3000, 0x3001, 0x3002, 0x3003, 0x3004, 0xFFFE, 0xFFFF].map (zero.afterAll overlapping).byte =
        [0x34, 0xCD, 0x77, 0xF0, 0, 0, 5] ∧
      (0x3001 : Word).toNat < 0xFFFF ∧
      (zero.afterAll overlapping).readWord 0x3001 = .ok 0x77CD ∧
      (zero.afterAll overlapping).readWord 0xFFFF = .error ⟨0x10000⟩ ∧
      (perform (.words 0xFFFE [1, 2])).run (zero.afterAll overlapping) =
        .error ⟨0x10001⟩ (zero.afterAll overlapping) := by
  obtain ⟨hbytes, hmemory⟩ := reads_after_writes
  obtain ⟨hwords, hlast, hwrites⟩ := hmemory (zero.afterAll overlapping)
  have hgiven (a : Word) : (zero.afterAll overlapping).byte a =
      (Write.lastGiven? (overlapping.filter fun write => write.past ≤ memorySize) a).getD 0 := by
    rw [hbytes, accepted_eq_filter]
  have hbefore : (0x3001 : Word).toNat < 0xFFFF := by decide
  refine ⟨(List.map_congr_left fun a _ => hgiven a).trans rfl, hbefore, ?_, hlast, ?_⟩
  · obtain ⟨w, hread, hw⟩ := hwords 0x3001 hbefore
    rw [hgiven, hgiven] at hw
    rw [hread, show w = 0x77CD from BitVec.eq_of_toNat_eq hw]
  · obtain ⟨m', hfails⟩ : ∃ m', (perform (.words 0xFFFE [1, 2])).run (zero.afterAll overlapping) =
        .error ⟨0x10001⟩ m' := ⟨_, run_perform _ _⟩
    rw [hfails, (hwrites _).2.2 _ _ hfails]

end Memory

end LittleComputer
