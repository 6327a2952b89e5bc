import LittleComputer.Proofs.Source.LetterCase
import Mathlib

/-!
# What a number denotes

A number is a mark or a sign and the longest run of digits after it, and denotes what the digits
add up to in its base. The two bases are tried one after the other, but no text can be read in both:
a zero with an `x` after it is no decimal number, since that runs on into a word.
-/

namespace LittleComputer.Source

variable {q r s : List Char} {n : Int}

/-! ## Digits -/

/-- The digits of all bases, in upper case. -/
def digitOrder : List Char :=
  ['0', '1', '2', '3', '4', '5', '6', '7', '8', '9', 'A', 'B', 'C', 'D', 'E', 'F']

/-- The place of a character among the digits, in either letter case. The one of a character that is
no digit comes after all of them. -/
def digitPlace (c : Char) : Nat := digitOrder.idxOf c.toUpper

/-- The number that some digits denote in a base, the last of them the least significant. -/
def denoted (base : Nat) (digits : List Char) : Nat :=
  Nat.ofDigits base (digits.reverse.map digitPlace)

/-- What is no part of a word is no digit. -/
theorem not_digitPlace_lt {c : Char} (h : isWordChar c = false) : ¬digitPlace c < 16 := by
  intro hplace
  have hmem : c.toUpper ∈ digitOrder := List.idxOf_lt_length_iff.1 hplace
  rw [toUpper_of_not_isWordChar h] at hmem
  have hdigits : digitOrder.all isWordChar = true := rfl
  rw [List.all_eq_true.1 hdigits c hmem] at h
  cases h

/-- The hexadecimal digits are the first sixteen. -/
theorem isHexDigit_iff (c : Char) : Text.Hex.isDigit c = true ↔ digitPlace c < 16 := by
  cases hc : isWordChar c with
  | true =>
    exact of_isWordChar (P := fun c => Text.Hex.isDigit c = true ↔ digitPlace c < 16)
      (by decide +kernel) hc
  | false =>
    refine iff_of_false (fun h => ?_) (not_digitPlace_lt hc)
    rw [isWordChar_of_isHexDigit c h] at hc
    cases hc

/-- The decimal digits are the first ten. -/
theorem isDigit_iff (c : Char) : c.isDigit = true ↔ digitPlace c < 10 := by
  cases hc : isWordChar c with
  | true =>
    exact of_isWordChar (P := fun c => c.isDigit = true ↔ digitPlace c < 10) (by decide +kernel) hc
  | false =>
    refine iff_of_false (fun h => ?_) fun h => not_digitPlace_lt hc (by omega)
    rw [isWordChar_of_isDigit c h] at hc
    cases hc

/-- The value of a hexadecimal digit is its place. -/
theorem value?_of_isHexDigit {c : Char} (h : Text.Hex.isDigit c = true) :
    (Text.Hex.value? c).getD 0 = digitPlace c :=
  of_isWordChar
    (P := fun c => Text.Hex.isDigit c = true → (Text.Hex.value? c).getD 0 = digitPlace c)
    (by decide +kernel) (isWordChar_of_isHexDigit c h) h

/-- The value of a decimal digit is its place. -/
theorem toNat_sub_of_isDigit {c : Char} (h : c.isDigit = true) :
    c.toNat - '0'.toNat = digitPlace c :=
  of_isWordChar (P := fun c => c.isDigit = true → c.toNat - '0'.toNat = digitPlace c)
    (by decide +kernel) (isWordChar_of_isDigit c h) h

/-- By induction from the last digit, which is the one that is added at the end. -/
theorem foldl_eq_denoted {base : Nat} {value : Char → Nat} {digits : List Char}
    (h : ∀ c ∈ digits, value c = digitPlace c) :
    digits.foldl (fun n c => base * n + value c) 0 = denoted base digits := by
  induction digits using List.reverseRecOn with
  | nil => rfl
  | append_singleton digits c ih =>
    rw [List.forall_mem_append, List.forall_mem_singleton] at h
    rw [List.foldl_append, ih h.1, List.foldl_cons, List.foldl_nil, h.2, denoted, denoted,
      List.reverse_append, List.reverse_singleton, List.singleton_append, List.map_cons,
      Nat.ofDigits_cons, Nat.add_comm]

/-- Hexadecimal digits are read as the number that they denote. -/
theorem ofDigits_eq_denoted {digits : List Char} (h : ∀ c ∈ digits, Text.Hex.isDigit c = true) :
    Text.Hex.ofDigits digits = denoted 16 digits :=
  foldl_eq_denoted fun c hc => value?_of_isHexDigit (h c hc)

/-- Decimal digits are read as the number that they denote. -/
theorem ofDigitChars_eq_denoted {digits : List Char} (h : ∀ c ∈ digits, c.isDigit = true) :
    Nat.ofDigitChars 10 digits 0 = denoted 10 digits :=
  foldl_eq_denoted fun c hc => toNat_sub_of_isDigit (h c hc)

/-! ## Numbers -/

/-- What can stand before the digits of a number, with the base of these and whether the number is
negative. -/
inductive Lead : List Char → Nat → Bool → Prop
  | hexadecimal {mark : List Char} (hmark : mark ∈ hexMarks) : Lead mark 16 false
  | decimal (sharp negative : Bool) :
    Lead (optionalChar '#' sharp ++ optionalChar '-' negative) 10 negative

/-- Whether some characters are the longest run of digits of a base, with a rest after them. -/
structure LongestRun (base : Nat) (digits r : List Char) : Prop where
  ne_nil : digits ≠ []
  digits : ∀ c ∈ digits, digitPlace c < base
  longest : ∀ c ∈ r.head?, ¬digitPlace c < base

/-- Where a word ends there is no digit of any base. -/
theorem Lead.longest {lead : List Char} {base : Nat} {negative : Bool}
    (h : Lead lead base negative) (hr : Ends r) : ∀ c ∈ r.head?, ¬digitPlace c < base := by
  intro c hc hplace
  refine not_digitPlace_lt (hr c hc) (hplace.trans_le ?_)
  cases h <;> decide

/-- A literal is digits after what can stand before them, and denotes a number of 32 bits. -/
theorem numeral_iff : Numeral s n ↔ ∃ lead base negative digits, s = lead ++ digits ∧
    Lead lead base negative ∧ digits ≠ [] ∧ (∀ c ∈ digits, digitPlace c < base) ∧
    number? (if negative then -(denoted base digits : Int) else denoted base digits) = some n := by
  constructor
  · intro h
    cases h with
    | hexadecimal hmark hne hdigits hn =>
      rw [ofDigits_eq_denoted hdigits] at hn
      exact ⟨_, 16, false, _, rfl, .hexadecimal hmark, hne,
        fun c hc => (isHexDigit_iff c).1 (hdigits c hc), hn⟩
    | decimal sharp negative hne hdigits hn =>
      rw [ofDigitChars_eq_denoted hdigits] at hn
      exact ⟨_, 10, negative, _, (List.append_assoc ..).symm, .decimal sharp negative, hne,
        fun c hc => (isDigit_iff c).1 (hdigits c hc), hn⟩
  · rintro ⟨lead, base, negative, digits, rfl, hlead, hne, hdigits, hn⟩
    cases hlead with
    | hexadecimal hmark =>
      have hhex : ∀ c ∈ digits, Text.Hex.isDigit c = true := fun c hc =>
        (isHexDigit_iff c).2 (hdigits c hc)
      rw [← ofDigits_eq_denoted hhex] at hn
      exact .hexadecimal hmark hne hhex hn
    | decimal sharp negative =>
      have hdecimal : ∀ c ∈ digits, c.isDigit = true := fun c hc =>
        (isDigit_iff c).2 (hdigits c hc)
      rw [← ofDigitChars_eq_denoted hdecimal] at hn
      rw [List.append_assoc]
      exact .decimal sharp negative hne hdecimal hn

/-- What is no part of a word is neither letter nor digit nor underscore. -/
theorem isWordChar_eq_false_iff (c : Char) :
    isWordChar c = false ↔ ¬(c.isAlpha = true ∨ c.isDigit = true ∨ c = '_') := by
  rw [isWordChar, isWordStart, ← Bool.not_eq_true, Bool.or_eq_true, Bool.or_eq_true, beq_iff_eq]
  tauto

/-- A text is read as a number exactly if it begins with a hexadecimal mark, or with an optional `#`
and an optional minus, and with at least one digit after that, the longest run of digits denotes a
number of 32 bits, and no letter, digit or underscore comes after them. That is the number that is
read, and what comes after the digits is left. -/
theorem number_iff_longestRun (q r : List Char) (n : Int) :
    number q = some (n, r) ↔ ∃ lead base negative digits, q = lead ++ (digits ++ r) ∧
      Lead lead base negative ∧ LongestRun base digits r ∧
      n = (if negative then -(denoted base digits : Int) else denoted base digits) ∧
      -2 ^ 31 ≤ n ∧ n < 2 ^ 31 ∧
      ∀ c ∈ r.head?, ¬(c.isAlpha = true ∨ c.isDigit = true ∨ c = '_') := by
  have hends : Ends r ↔ ∀ c ∈ r.head?, ¬(c.isAlpha = true ∨ c.isDigit = true ∨ c = '_') :=
    forall₂_congr fun c _ => isWordChar_eq_false_iff c
  have hrange : minNumber ≤ n ∧ n ≤ maxNumber ↔ -2 ^ 31 ≤ n ∧ n < 2 ^ 31 := by
    unfold minNumber maxNumber
    omega
  rw [number_eq_some_iff, ← hends]
  constructor
  · rintro ⟨_, rfl, hnumeral, hr⟩
    obtain ⟨lead, base, negative, digits, rfl, hlead, hne, hdigits, hn⟩ := numeral_iff.1 hnumeral
    obtain ⟨hvalue, hmem⟩ := number?_eq_some_iff.1 hn
    obtain ⟨hmin, hmax⟩ := hrange.1 hmem
    exact ⟨lead, base, negative, digits, List.append_assoc .., hlead,
      ⟨hne, hdigits, hlead.longest hr⟩, hvalue.symm, hmin, hmax, hr⟩
  · rintro ⟨lead, base, negative, digits, rfl, hlead, hrun, hvalue, hmin, hmax, hr⟩
    have hn := number?_eq_some_iff.2 ⟨hvalue.symm, hrange.2 ⟨hmin, hmax⟩⟩
    exact ⟨lead ++ digits, (List.append_assoc ..).symm,
      numeral_iff.2 ⟨lead, base, negative, digits, rfl, hlead, hrun.ne_nil, hrun.digits, hn⟩, hr⟩

end LittleComputer.Source
