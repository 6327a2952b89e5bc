import LittleComputer.Proofs.Machine.Loading
import LittleComputer.Proofs.Machine.Unbounded
import Mathlib

/-!
# Computations that need addresses

`Needs` says of a computation which addresses it looks at, in order: it faults at the first that is
not one of memory, and ends as it is said to if there is none. The addresses of a computation in two
parts are those of the one part and then those of the other.
-/

namespace LittleComputer

/-- The first of some addresses that is not one of memory. -/
def firstOutside? (l : List Int) : Option Int := l.find? fun a => decide (¬InMemory a)

/-- The first outside is outside, with none before it. -/
theorem firstOutside?_eq_some_iff {l : List Int} {a : Int} :
    firstOutside? l = some a ↔
      ∃ before after, l = before ++ a :: after ∧ (∀ b ∈ before, InMemory b) ∧ ¬InMemory a := by
  rw [firstOutside?, List.find?_eq_some_iff_append]
  constructor
  · rintro ⟨ha, before, after, hl, hbefore⟩
    refine ⟨before, after, hl, fun b hb => ?_, of_decide_eq_true ha⟩
    simpa using hbefore b hb
  · rintro ⟨before, after, hl, hbefore, ha⟩
    refine ⟨decide_eq_true ha, before, after, hl, fun b hb => ?_⟩
    simpa using hbefore b hb

/-- None is outside if all are in memory. -/
theorem firstOutside?_eq_none_iff {l : List Int} :
    firstOutside? l = none ↔ ∀ a ∈ l, InMemory a := by
  simp [firstOutside?]

/-- The first outside of two lists is that of the first list, or else of the second. -/
theorem firstOutside?_append (l k : List Int) :
    firstOutside? (l ++ k) = (firstOutside? l).or (firstOutside? k) := List.find?_append

/-- An address in memory is not the first outside. -/
theorem firstOutside?_cons {l : List Int} {a : Int} (ha : InMemory a) :
    firstOutside? (a :: l) = firstOutside? l := by
  simp [firstOutside?, ha]

/-- An address outside is the first if nothing is before it. -/
theorem firstOutside?_cons_outside {l : List Int} {a : Int} (ha : ¬InMemory a) :
    firstOutside? (a :: l) = some a := by
  simp [firstOutside?, ha]

/-- Whether a computation faults at the first of some addresses that is not one of memory, and ends
in a certain way if all of them are. -/
structure Needs {α : Type} (l : List Int) (x : Except Fault α) (P : Except Fault α → Prop) :
    Prop where
  fault : ∀ a, firstOutside? l = some a → x = .error (.addressOutOfRange a)
  otherwise : firstOutside? l = none → P x

/-- Whether a computation has an answer with a property. -/
def Answers {α : Type} (P : α → Prop) (x : Except Fault α) : Prop := ∃ v, x = .ok v ∧ P v

namespace Needs

variable {α β : Type} {l k : List Int} {x : Except Fault α} {f : α → Except Fault β}
variable {P : α → Prop} {Q : β → Prop} {R : Except Fault β → Prop} {a : Int} {v : α}

/-- A computation that needs no address ends as it ends. -/
theorem nil {P : Except Fault α → Prop} (h : P x) : Needs [] x P where
  fault a ha := by cases ha
  otherwise _ := h

/-- An answer needs no address. -/
theorem ok (h : P v) : Needs [] (.ok v) (Answers P) := nil ⟨v, rfl, h⟩

/-- The addresses of a second step come after those of the first. -/
theorem bind (hx : Needs l x (Answers P)) (hf : ∀ v, P v → Needs k (f v) R) :
    Needs (l ++ k) (x >>= f) R := by
  cases h : firstOutside? l with
  | some a =>
    have hfirst : firstOutside? (l ++ k) = some a := by rw [firstOutside?_append, h, Option.some_or]
    constructor
    · intro b hb
      rw [hx.fault a h, ← Option.some.inj (hfirst.symm.trans hb)]
      rfl
    · intro hnone
      rw [hfirst] at hnone
      cases hnone
  | none =>
    obtain ⟨v, rfl, hv⟩ := hx.otherwise h
    have hrest : firstOutside? (l ++ k) = firstOutside? k := by
      rw [firstOutside?_append, h, Option.none_or]
    constructor
    · intro a ha
      exact (hf v hv).fault a (hrest ▸ ha)
    · intro hnone
      exact (hf v hv).otherwise (hrest ▸ hnone)

/-- The last part of a computation needs no address. -/
theorem map {g : α → β} (hx : Needs l x (Answers P)) (hg : ∀ v, P v → Q (g v)) :
    Needs l (x >>= fun v => pure (g v)) (Answers Q) := by
  rw [← l.append_nil]
  exact hx.bind fun v hv => ok (hg v hv)

/-- A computation that ends in one way ends in every way that follows from it. -/
theorem imp {P P' : Except Fault α → Prop} (hx : Needs l x P) (h : P x → P' x) :
    Needs l x P' where
  fault := hx.fault
  otherwise hnone := h (hx.otherwise hnone)

/-- An address in memory can be needed besides. -/
theorem cons {P : Except Fault α → Prop} (ha : InMemory a) (hx : Needs l x P) :
    Needs (a :: l) x P where
  fault b hb := hx.fault b (firstOutside?_cons ha ▸ hb)
  otherwise hnone := hx.otherwise (firstOutside?_cons ha ▸ hnone)

/-- A computation that faults at its first address has no use for the others. -/
theorem cons_outside {P : Except Fault α → Prop} (ha : ¬InMemory a)
    (hx : x = .error (.addressOutOfRange a)) : Needs (a :: l) x P where
  fault b hb := by
    rw [firstOutside?_cons_outside ha] at hb
    rw [hx, Option.some.inj hb]
  otherwise hnone := by
    rw [firstOutside?_cons_outside ha] at hnone
    cases hnone

end Needs

/-! ## Looking at memory -/

section Memory

variable {m : Machine} {r : Registers}

/-- The sum of an address and a distance is needed, and is the answer. -/
theorem needs_offset (a : Word) (distance : Int) :
    Needs [a.toNat + distance] (a.offset distance)
      (Answers fun b => (b.toNat : Int) = a.toNat + distance) := by
  by_cases h : InMemory (a.toNat + distance)
  · obtain ⟨b, hb⟩ := inMemory_iff.1 h
    have hb : (a.toNat : Int) + distance = b.toNat := Word.address?_eq_some_iff.1 hb
    rw [Word.offset_eq_ok_iff.2 hb]
    exact Needs.cons h (Needs.ok hb.symm)
  · refine Needs.cons_outside h ?_
    unfold Word.offset
    cases hb : Word.address? (a.toNat + distance) with
    | some b => exact absurd (inMemory_iff.2 ⟨b, hb⟩) h
    | none => rfl

/-- What goes on at another address needs that address. -/
theorem needs_offset_bind {β : Type} {a : Word} {distance : Int} {l : List Int}
    {f : Word → Except Fault β} {P : Except Fault β → Prop}
    (hf : ∀ b : Word, (b.toNat : Int) = a.toNat + distance → Needs (b.toNat :: l) (f b) P) :
    Needs ((a.toNat + distance) :: l) (a.offset distance >>= f) P := by
  by_cases h : InMemory (a.toNat + distance)
  · obtain ⟨b, hb, hsum⟩ := (needs_offset a distance).otherwise
      (firstOutside?_eq_none_iff.2 fun c hc => List.mem_singleton.1 hc ▸ h)
    rw [hb, ← hsum]
    exact hf b hsum
  · refine Needs.cons_outside h ?_
    rw [(needs_offset a distance).fault _ (firstOutside?_cons_outside h)]
    rfl

/-- A word is in memory if its second byte is. -/
theorem inMemory_add_one_iff {a : Word} :
    InMemory ((a.toNat : Int) + 1) ↔ a.toNat + 1 < memorySize := by
  unfold InMemory memorySize
  omega

/-- The first byte of a word is at an address that is known, so a word needs only that of the
second. -/
theorem needs_fetch (a : Word) :
    Needs [(a.toNat : Int) + 1] (m.memory.fetch a)
      (Answers fun w => (w.toNat : Int) = (m.viewOf r).word a.toNat) := by
  by_cases h : a.toNat + 1 < memorySize
  · have hnext : ((a + 1).toNat : Int) = (a.toNat : Int) + 1 := by
      rw [Word.toNat_add_one h]
      rfl
    rw [Memory.fetch_of_lt h]
    refine Needs.cons (inMemory_add_one_iff.2 h) (Needs.ok ?_)
    change _ = m.memory.byteAt a.toNat + 256 * m.memory.byteAt (a.toNat + 1)
    rw [← hnext, Memory.byteAt_toNat, Memory.byteAt_toNat, Word.toNat_ofBytes]
    push_cast
    rfl
  · refine Needs.cons_outside (mt inMemory_add_one_iff.1 h) ?_
    rw [Memory.fetch_of_not_lt h]

/-- A word needs the addresses of both its bytes. -/
theorem needs_fetch_both (a : Word) :
    Needs [(a.toNat : Int), a.toNat + 1] (m.memory.fetch a)
      (Answers fun w => (w.toNat : Int) = (m.viewOf r).word a.toNat) :=
  Needs.cons (inMemory_toNat a) (needs_fetch a)

/-- The second byte of a word to be written has to be in memory as well. -/
theorem needs_storeWord (a w : Word) :
    Needs [(a.toNat : Int) + 1] (Machine.storeWord a w)
      (Answers fun store => store = .word a w ∧ a.toNat + 1 < memorySize) := by
  by_cases h : a.toNat + 1 < memorySize
  · rw [Machine.storeWord, Memory.checkWord, if_pos h]
    exact Needs.cons (inMemory_add_one_iff.2 h) (Needs.ok ⟨rfl, h⟩)
  · refine Needs.cons_outside (mt inMemory_add_one_iff.1 h) ?_
    rw [Machine.storeWord, Memory.checkWord, if_neg h]
    rfl

end Memory

end LittleComputer
