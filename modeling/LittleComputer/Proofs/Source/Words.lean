import LittleComputer.Source.Line
import Mathlib

/-!
# Words and numbers

A scanner takes the longest token at the front of a text. So a word or a number is read back,
whatever comes after it, as long as that does not go on with the same word.
-/

namespace LittleComputer.Source

variable {s r : List Char}

/-! ## Ends of words -/

/-- Whether a word ends where a text begins. -/
def Ends (r : List Char) : Prop := ∀ c ∈ r.head?, isWordChar c = false

/-- A word ends where the text does. -/
theorem ends_nil : Ends [] := by simp [Ends]

/-- A word ends at any character that is no part of one. -/
theorem ends_cons {c : Char} (h : isWordChar c = false) : Ends (c :: r) := by simpa [Ends] using h

section Class

variable {p : Char → Bool}

/-- Characters of one kind are taken up to the first of another kind. -/
theorem takeWhile_append_of_head (hs : ∀ c ∈ s, p c = true) (hr : ∀ c ∈ r.head?, p c = false) :
    (s ++ r).takeWhile p = s := by
  rw [List.takeWhile_append_of_pos hs]
  cases r with
  | nil => exact List.append_nil s
  | cons c t => rw [List.takeWhile_cons, hr c rfl, if_neg Bool.false_ne_true, List.append_nil]

/-- What is left begins with the first of another kind. -/
theorem dropWhile_append_of_head (hs : ∀ c ∈ s, p c = true) (hr : ∀ c ∈ r.head?, p c = false) :
    (s ++ r).dropWhile p = r := by
  rw [List.dropWhile_append_of_pos hs]
  cases r with
  | nil => rfl
  | cons c t => rw [List.dropWhile_cons, hr c rfl, if_neg Bool.false_ne_true]

variable (hp : ∀ c, p c = true → isWordChar c = true)
include hp

/-- A character at which a word ends is none of those that words are made of. -/
theorem head_of_ends (hr : Ends r) : ∀ c ∈ r.head?, p c = false := by
  intro c hc
  refine Bool.eq_false_iff.2 fun h => ?_
  have := hr c hc
  rw [hp c h] at this
  cases this

/-- Characters of a word are taken up to where the word ends. -/
theorem takeWhile_append_of_ends (hs : ∀ c ∈ s, p c = true) (hr : Ends r) :
    (s ++ r).takeWhile p = s :=
  takeWhile_append_of_head hs (head_of_ends hp hr)

/-- What is left begins where the word ends. -/
theorem dropWhile_append_of_ends (hs : ∀ c ∈ s, p c = true) (hr : Ends r) :
    (s ++ r).dropWhile p = r :=
  dropWhile_append_of_head hs (head_of_ends hp hr)

end Class

/-- Decimal digits are parts of words. -/
theorem isWordChar_of_isDigit (c : Char) (h : c.isDigit = true) : isWordChar c = true := by
  rw [isWordChar, h, Bool.or_true]

/-- Hexadecimal digits are parts of words. -/
theorem isWordChar_of_isHexDigit (c : Char) (h : Text.Hex.isDigit c = true) :
    isWordChar c = true := by
  simp only [Text.Hex.isDigit, Text.Hex.value?] at h
  simp only [isWordChar, isWordStart, Char.isAlpha, Char.isUpper, Char.isLower, Bool.or_eq_true,
    Bool.and_eq_true, decide_eq_true_eq]
  split at h
  · rename_i hdigit
    exact Or.inr hdigit
  · split at h
    · rename_i hlower
      refine Or.inl (Or.inr (Or.inr ⟨hlower.1, ?_⟩))
      exact Char.le_trans hlower.2 (by decide)
    · split at h
      · rename_i hupper
        refine Or.inl (Or.inr (Or.inl ⟨hupper.1, ?_⟩))
        exact Char.le_trans hupper.2 (by decide)
      · cases h

/-! ## Words -/

/-- Whether some characters are a word. -/
def IsWord : List Char → Prop
  | [] => False
  | c :: t => isWordStart c = true ∧ ∀ d ∈ t, isWordChar d = true

instance : DecidablePred IsWord
  | [] => isFalse id
  | c :: t =>
    decidable_of_iff ((isWordStart c && t.all isWordChar) = true)
      (by rw [Bool.and_eq_true, List.all_eq_true]; rfl)

/-- A word begins with one of the characters for that. -/
theorem IsWord.exists_cons (hs : IsWord s) : ∃ c t, s = c :: t ∧ isWordStart c = true := by
  cases s with
  | nil => exact hs.elim
  | cons c t => exact ⟨c, t, rfl, hs.1⟩

/-- A word is read back up to where it ends. -/
theorem word_append (hs : IsWord s) (hr : Ends r) :
    word (s ++ r) = some (String.ofList s, r) := by
  cases s with
  | nil => exact hs.elim
  | cons c t =>
    rw [List.cons_append, word, if_pos hs.1, takeWhile_append_of_ends (fun _ h => h) hs.2 hr,
      dropWhile_append_of_ends (fun _ h => h) hs.2 hr]

/-- No character of a word ends a line. -/
theorem isLineEnd_of_isWordChar {c : Char} (h : isWordChar c = true) :
    Text.isLineEnd c = false := by
  refine Bool.eq_false_iff.2 fun hc => ?_
  rw [Text.isLineEnd, Bool.or_eq_true, beq_iff_eq, beq_iff_eq] at hc
  rcases hc with rfl | rfl <;> cases h

/-- A word stays on its line. -/
theorem IsWord.onLine (hs : IsWord s) : ∀ c ∈ s, Text.isLineEnd c = false := by
  intro c hc
  obtain ⟨d, t, rfl, hd⟩ := hs.exists_cons
  rcases List.mem_cons.1 hc with rfl | hc
  · refine isLineEnd_of_isWordChar ?_
    rw [isWordChar, hd, Bool.true_or]
  · exact isLineEnd_of_isWordChar (hs.2 c hc)

/-- Every mnemonic is a word. -/
theorem isWord_mnemonic (m : Mnemonic) : IsWord m.name.toList := by
  cases m with
  | branch c =>
    obtain ⟨n, z, p⟩ := c
    cases n <;> cases z <;> cases p <;> decide
  | operate x | load x | store x | shift x | service x => cases x <;> decide
  | _ => decide

/-- The name of every directive is a word. -/
theorem isWord_directive (d : Directive) : IsWord d.name.toList := by
  cases d <;> decide

/-- The name of every register is a word. -/
theorem isWord_register (i : Register) : IsWord i.name.toList := by
  rw [Register.name, String.toList_ofList]
  refine ⟨rfl, fun d hd => ?_⟩
  cases List.mem_singleton.1 hd
  revert i
  decide

/-! ## Numbers -/

/-- A number is read where no word goes on after its digits. -/
theorem number_of_numeral {n : Int} (h : numeral s = some (n, r)) (hr : Ends r) :
    number s = some (n, r) := by
  cases r with
  | nil => simp only [number, h]
  | cons c t => simp only [number, h, hr c rfl, Bool.false_eq_true, if_false]

/-- A number in range is one. -/
theorem number?_of_mem {n : Int} (hmin : minNumber ≤ n) (hmax : n ≤ maxNumber) :
    number? n = some n := if_pos ⟨hmin, hmax⟩

/-- A number is one if it is in range. -/
theorem number?_eq_some_iff {m n : Int} :
    number? m = some n ↔ m = n ∧ minNumber ≤ n ∧ n ≤ maxNumber := by
  unfold number?
  split
  · rename_i hm
    rw [Option.some.injEq]
    exact ⟨fun h => ⟨h, h ▸ hm⟩, And.left⟩
  · rename_i hm
    refine ⟨nofun, ?_⟩
    rintro ⟨rfl, h⟩
    exact absurd h hm

/-- Every number is in range. -/
theorem mem_of_number? {m n : Int} (h : number? m = some n) : minNumber ≤ n ∧ n ≤ maxNumber :=
  (number?_eq_some_iff.1 h).2

/-- Nothing is taken off if another character stands there. -/
theorem dropChar_of_ne {c d : Char} (h : d ≠ c) : dropChar c (d :: r) = (false, d :: r) :=
  if_neg h

/-- No digit begins a word. -/
theorem isDigit_of_isWordStart {c : Char} (hc : isWordStart c = true) : c.isDigit = false := by
  refine Bool.eq_false_iff.2 fun hdigit => ?_
  simp only [isWordStart, Char.isAlpha, Char.isUpper, Char.isLower, Char.isDigit, Bool.or_eq_true,
    Bool.and_eq_true, decide_eq_true_eq, beq_iff_eq, ge_iff_le, UInt32.le_iff_toNat_le] at hc hdigit
  rcases hc with rfl | hc | hc
  · exact absurd hdigit (by decide)
  · exact absurd (hc.1.trans hdigit.2) (by decide)
  · exact absurd (hc.1.trans hdigit.2) (by decide)

section WordStart

variable {c : Char} (hc : isWordStart c = true)
include hc

/-- What begins like a word is no decimal number. -/
theorem decimal_eq_none : decimal (c :: s) = none := by
  have hmark : c ≠ '#' := by
    rintro rfl
    cases hc
  have hminus : c ≠ '-' := by
    rintro rfl
    cases hc
  simp only [decimal, dropChar_of_ne hmark, dropChar_of_ne hminus, List.takeWhile_cons,
    isDigit_of_isWordStart hc]
  rfl

/-- The mark in a word is its `x`, if it begins with one. -/
theorem hexMark_cons : hexMark (c :: s) = if c = 'x' ∨ c = 'X' then some s else none := by
  unfold hexMark
  split
  · rename_i h
    cases (List.cons.inj h).1
    cases hc
  · rename_i h
    cases (List.cons.inj h).1
    cases hc
  · rename_i h
    cases h
    rfl
  · rename_i h
    cases h
    rfl
  · rename_i hx hX
    rw [if_neg]
    rintro (rfl | rfl)
    · exact hx _ rfl
    · exact hX _ rfl

/-- Only digits after an `x` can make a word a number. -/
theorem numeral_cons :
    numeral (c :: s) =
      if (c = 'x' ∨ c = 'X') ∧ s.takeWhile Text.Hex.isDigit ≠ [] then
        (number? (Text.Hex.ofDigits (s.takeWhile Text.Hex.isDigit))).map fun n =>
          (n, s.dropWhile Text.Hex.isDigit)
      else none := by
  rw [numeral, decimal_eq_none hc, Option.or_none, hexadecimal, hexMark_cons hc]
  by_cases hmark : c = 'x' ∨ c = 'X'
  · rw [if_pos hmark]
    by_cases hdigits : s.takeWhile Text.Hex.isDigit = []
    · rw [if_neg fun h => h.2 hdigits]
      exact if_pos (List.isEmpty_iff.2 hdigits)
    · rw [if_pos ⟨hmark, hdigits⟩]
      refine (if_neg fun h => hdigits (List.isEmpty_iff.1 h)).trans ?_
      cases number? (Text.Hex.ofDigits (s.takeWhile Text.Hex.isDigit)) <;> rfl
  · rw [if_neg hmark, if_neg fun h => hmark h.1]
    rfl

end WordStart

/-- A character that may be missing. -/
def optionalChar (c : Char) (present : Bool) : List Char := if present then [c] else []

/-- A character that may be missing is taken off if it is there. -/
theorem dropChar_optionalChar {c : Char} (present : Bool) (h : ∀ d ∈ s.head?, d ≠ c) :
    dropChar c (optionalChar c present ++ s) = (present, s) := by
  cases present with
  | true => exact if_pos rfl
  | false =>
    cases s with
    | nil => rfl
    | cons d t => exact dropChar_of_ne (h d rfl)

/-- A decimal number is read back with its sign, and with or without a `#`. -/
theorem decimal_append {n : Int} {digits : List Char} (hne : digits ≠ [])
    (hdigits : ∀ c ∈ digits, c.isDigit = true) (sharp negative : Bool)
    (hn : number? (if negative then -(Nat.ofDigitChars 10 digits 0 : Int)
      else Nat.ofDigitChars 10 digits 0) = some n) (hr : ∀ c ∈ r.head?, c.isDigit = false) :
    decimal (optionalChar '#' sharp ++ (optionalChar '-' negative ++ digits) ++ r) =
      some (n, r) := by
  obtain ⟨c, t, rfl⟩ := List.exists_cons_of_ne_nil hne
  have hc := hdigits c List.mem_cons_self
  have hminus : dropChar '-' (optionalChar '-' negative ++ (c :: t) ++ r) =
      (negative, c :: t ++ r) := by
    rw [List.append_assoc]
    refine dropChar_optionalChar negative fun d hd => ?_
    cases hd
    rintro rfl
    cases hc
  have hsharp :
      dropChar '#' (optionalChar '#' sharp ++ (optionalChar '-' negative ++ (c :: t)) ++ r) =
      (sharp, optionalChar '-' negative ++ (c :: t) ++ r) := by
    rw [List.append_assoc]
    refine dropChar_optionalChar sharp fun d hd => ?_
    cases negative with
    | true =>
      cases hd
      decide
    | false =>
      cases hd
      rintro rfl
      cases hc
  simp only [decimal, hsharp, hminus, takeWhile_append_of_head hdigits hr,
    dropWhile_append_of_head hdigits hr, hn]
  simp

end LittleComputer.Source
