import LittleComputer.Proofs.Assembly.Layout
import LittleComputer.Proofs.Debugger.Location
import LittleComputer.Proofs.Machine.Unbounded
import Mathlib

/-!
# Addresses of locations

What a location stands for is an integer, and that is its address if it is one of memory. But the
sum of a register and an offset has to fit 32 bits before anyone looks at its range, and offsets
that fit themselves can leave too little room for what is in the register.
-/

namespace LittleComputer.Debugger.Location

open Source Assembly

/-- What a location stands for in unbounded integers. Only a label can be missing. -/
def exact (registers : Registers) (symbols : Symbols) : Location → Option Int
  | .literal value => some value
  | .label name => (symbols.address? name).map fun a => a.toNat
  | .register base => some (registers.get base).toNat
  | .indexed base offset => some ((registers.get base).toNat + offset)

variable {registers : Registers} {symbols : Symbols} {location : Location} {n : Int}

/-! ## Targets -/

/-- An address is a number that fits 32 bits. -/
theorem toNat_le_maxNumber (a : Word) : (a.toNat : Int) ≤ maxNumber := by
  have := a.isLt
  unfold maxNumber
  omega

/-- The label that is unknown is the one of the location. -/
theorem target_eq_unknownLabel_iff {name : String} :
    location.target registers symbols = .error (.unknownLabel name) ↔
      location = .label name ∧ name ∉ symbols.map Prod.fst := by
  rw [← Symbols.address?_eq_none_iff]
  cases location with
  | literal | register => simp [target]
  | label name' =>
    cases ha : symbols.address? name' with
    | some a =>
      simp only [target, ha, reduceCtorEq, label.injEq, false_iff]
      rintro ⟨rfl, hnone⟩
      cases ha.symm.trans hnone
    | none =>
      simp only [target, ha, Except.error.injEq, AddressError.unknownLabel.injEq, label.injEq]
      exact ⟨fun hname => ⟨hname, hname ▸ ha⟩, And.left⟩
  | indexed base offset =>
    rw [target]
    cases number? _ <;> simp

/-- A target is found if what the location stands for fits 32 bits, and nothing that a location
stands for is too small. -/
theorem target_eq_ok_iff (h : location.Bounded) :
    location.target registers symbols = .ok n ↔
      location.exact registers symbols = some n ∧ n ≤ maxNumber := by
  cases location with
  | literal value =>
    rw [target, exact, Except.ok.injEq, Option.some.injEq]
    exact ⟨fun hn => ⟨hn, hn ▸ h.2⟩, And.left⟩
  | label name =>
    cases ha : symbols.address? name with
    | none => simp [target, exact, ha]
    | some a =>
      simp only [target, exact, ha, Option.map_some, Except.ok.injEq, Option.some.injEq]
      exact ⟨fun hn => ⟨hn, hn ▸ toNat_le_maxNumber a⟩, And.left⟩
  | register base =>
    rw [target, exact, Except.ok.injEq, Option.some.injEq]
    exact ⟨fun hn => ⟨hn, hn ▸ toNat_le_maxNumber _⟩, And.left⟩
  | indexed base offset =>
    have hsum : (indexed base offset).target registers symbols = .ok n ↔
        number? ((registers.get base).toNat + offset) = some n := by
      rw [target]
      cases number? _ <;> simp
    have hmin : minNumber ≤ (registers.get base).toNat + offset := by
      have := h.1
      omega
    rw [hsum, number?_eq_some_iff, exact, Option.some.injEq]
    constructor
    · rintro ⟨rfl, _, hmax⟩
      exact ⟨rfl, hmax⟩
    · rintro ⟨rfl, hmax⟩
      exact ⟨rfl, hmin, hmax⟩

/-- Only a sum can be too large. -/
theorem target_eq_overflow_iff (h : location.Bounded) :
    location.target registers symbols = .error .overflow ↔ ∃ base offset,
      location = .indexed base offset ∧ maxNumber < (registers.get base).toNat + offset := by
  cases location with
  | literal | register => simp [target]
  | label name =>
    rw [target]
    cases symbols.address? name <;> simp
  | indexed base offset =>
    have hmin : minNumber ≤ (registers.get base).toNat + offset := by
      have := h.1
      omega
    simp only [indexed.injEq, ↓existsAndEq, true_and]
    by_cases hmax : (registers.get base).toNat + offset ≤ maxNumber
    · rw [target, number?_of_mem hmin hmax]
      simpa using hmax
    · rw [target, number?, if_neg fun hsum => hmax hsum.2]
      simpa using hmax

/-! ## Addresses -/

/-- A target is not yet checked for its range. -/
theorem target_ne_outOfRange : location.target registers symbols ≠ .error (.outOfRange n) := by
  cases location with
  | literal | register => simp [target]
  | label name =>
    rw [target]
    cases symbols.address? name <;> simp
  | indexed base offset =>
    rw [target]
    cases number? _ <;> simp

/-- A location has an address if its target is one of memory. -/
theorem evaluate_eq_ok_iff {a : Word} :
    location.evaluate registers symbols = .ok a ↔
      location.target registers symbols = .ok (a.toNat : Int) := by
  rw [evaluate, Except.bind_eq_ok_iff]
  constructor
  · rintro ⟨n, hn, h⟩
    split at h
    · rename_i b hb
      cases h
      rw [hn, Word.address?_eq_some_iff.1 hb]
    · cases h
  · intro h
    exact ⟨a.toNat, h, by rw [Word.address?_toNat]; rfl⟩

/-- An error is one of the target, or else a target is out of range. -/
theorem evaluate_eq_error_iff {e : AddressError} :
    location.evaluate registers symbols = .error e ↔
      location.target registers symbols = .error e ∨
        ∃ n, e = .outOfRange n ∧ location.target registers symbols = .ok n ∧ ¬InMemory n := by
  rw [evaluate]
  cases location.target registers symbols with
  | error e' => simp
  | ok n =>
    rw [Except.ok_bind]
    cases ha : Word.address? n with
    | some a =>
      have hin : InMemory n := inMemory_iff.2 ⟨a, ha⟩
      show Except.ok a = _ ↔ _
      simp only [reduceCtorEq, Except.ok.injEq, false_or, false_iff]
      rintro ⟨_, _, rfl, hout⟩
      exact hout hin
    | none =>
      have hout : ¬InMemory n := by
        rw [inMemory_iff, ha]
        simp
      simp only [Except.error.injEq, reduceCtorEq, Except.ok.injEq, false_or]
      constructor
      · rintro rfl
        exact ⟨n, rfl, rfl, hout⟩
      · rintro ⟨_, rfl, rfl, _⟩
        rfl

/-- The outcome is that of unbounded integers, but for sums above the largest number of 32 bits,
which are lost to an overflow where others are out of range. -/
theorem evaluate_outcome (registers : Registers) (symbols : Symbols) (h : location.Bounded) :
    (∀ name, location.evaluate registers symbols = .error (.unknownLabel name) ↔
        location = .label name ∧ name ∉ symbols.map Prod.fst) ∧
      (∀ a : Word, location.evaluate registers symbols = .ok a ↔
        location.exact registers symbols = some (a.toNat : Int)) ∧
      (∀ n, location.evaluate registers symbols = .error (.outOfRange n) ↔
        location.exact registers symbols = some n ∧ ¬InMemory n ∧ n ≤ maxNumber) ∧
      (location.evaluate registers symbols = .error .overflow ↔ ∃ base offset,
        location = .indexed base offset ∧ maxNumber < (registers.get base).toNat + offset) := by
  refine ⟨fun name => ?_, fun a => ?_, fun n => ?_, ?_⟩
  · rw [evaluate_eq_error_iff, or_iff_left (by simp)]
    exact target_eq_unknownLabel_iff
  · rw [evaluate_eq_ok_iff, target_eq_ok_iff h]
    exact and_iff_left (toNat_le_maxNumber a)
  · rw [evaluate_eq_error_iff, or_iff_right target_ne_outOfRange]
    simp only [AddressError.outOfRange.injEq, ↓existsAndEq, true_and, target_eq_ok_iff h]
    rw [and_assoc, and_comm (a := n ≤ maxNumber)]
  · rw [evaluate_eq_error_iff, or_iff_left (by simp)]
    exact target_eq_overflow_iff h

/-- Two bytes above the last word there is no memory. -/
theorem evaluate_outcome_above :
    (indexed 6 2).evaluate (Registers.initial.set 6 0xFFFE) [] = .error (.outOfRange 0x10000) := by
  have hbounded : (indexed 6 2).Bounded := ⟨by decide, by decide⟩
  obtain ⟨_, _, hout, _⟩ := evaluate_outcome (Registers.initial.set 6 0xFFFE) [] hbounded
  exact (hout 0x10000).2 ⟨by decide, by decide, by decide⟩

/-- An offset that fits 32 bits and a register that holds one are enough for a sum that is out of
range and not reported. -/
theorem not_outcome_beyond :
    (indexed 0 maxNumber).Bounded ∧
      (indexed 0 maxNumber).exact (Registers.initial.set 0 1) [] = some 2147483648 ∧
      ¬InMemory 2147483648 ∧
      (indexed 0 maxNumber).evaluate (Registers.initial.set 0 1) [] = .error .overflow :=
  ⟨⟨by decide, by decide⟩, by decide, by decide, by decide⟩

end LittleComputer.Debugger.Location
