import LittleComputer.Proofs.Debugger.Location
import Mathlib

/-!
# Offsets from a register

A register with an offset is a register, a sign and a number, and a number can have a minus of its
own. A minus before it gives a number that fits 32 bits again, but for the smallest one. So a text
that takes the smallest number from a register is neither a location nor refused, and every other
text is one of the two.
-/

namespace LittleComputer.Source

variable {q r : List Char} {n : Int}

/-! ## Negative numbers -/

/-- A hexadecimal number has no sign. -/
theorem nonneg_of_hexadecimal (h : hexadecimal q = some (n, r)) : 0 ≤ n := by
  simp only [hexadecimal, Option.bind_eq_bind, Option.bind_eq_some_iff] at h
  obtain ⟨_, _, h⟩ := h
  split at h
  · cases h
  · simp only [Option.bind_eq_some_iff, Option.some.injEq, Prod.mk.injEq] at h
    obtain ⟨_, hn, rfl, _⟩ := h
    obtain ⟨rfl, _⟩ := number?_eq_some_iff.1 hn
    exact Int.natCast_nonneg _

/-- A decimal number goes on to its last digit. -/
theorem head_of_decimal (h : decimal q = some (n, r)) : ∀ c ∈ r.head?, c.isDigit = false := by
  simp only [decimal] at h
  split at h
  · cases h
  · simp only [Option.bind_eq_bind, Option.bind_eq_some_iff, Option.some.injEq,
      Prod.mk.injEq] at h
    obtain ⟨_, _, _, rfl⟩ := h
    intro c hc
    have hhead := List.head?_dropWhile_not Char.isDigit (dropChar '-' (dropChar '#' q).2).2
    rwa [Option.mem_def.1 hc] at hhead

/-- A negative number is a decimal one, and ends at the first character that is no digit. -/
theorem numeral_eq_some_iff_of_neg (hn : n < 0) :
    numeral q = some (n, r) ↔
      ∃ s, q = s ++ r ∧ Numeral s n ∧ ∀ c ∈ r.head?, c.isDigit = false := by
  constructor
  · intro h
    obtain ⟨s, hs, hnumeral⟩ := exists_numeral_of_numeral h
    refine ⟨s, hs, hnumeral, ?_⟩
    rw [numeral, Option.or_eq_some_iff] at h
    rcases h with h | ⟨_, h⟩
    · have := nonneg_of_hexadecimal h
      omega
    · exact head_of_decimal h
  · rintro ⟨s, rfl, h, hr⟩
    cases h with
    | hexadecimal _ _ _ hvalue =>
      obtain ⟨rfl, _⟩ := number?_eq_some_iff.1 hvalue
      omega
    | @decimal sharp negative digits hne hdigits _ hvalue =>
      cases negative with
      | false =>
        obtain ⟨rfl, _⟩ := number?_eq_some_iff.1 hvalue
        exact absurd hn (Int.not_lt.2 (Int.natCast_nonneg _))
      | true =>
        have hmark : hexMark (optionalChar '#' sharp ++ (optionalChar '-' true ++ digits) ++ r) =
            none := by
          cases sharp <;> rfl
        rw [numeral, hexadecimal_of_hexMark hmark, Option.none_or]
        exact decimal_append hne hdigits sharp true hvalue hr

end LittleComputer.Source

namespace LittleComputer.Debugger

open Source

variable {q r s : List Char} {base : Register} {negative : Bool} {n : Int}

/-! ## Registers with an offset -/

/-- The character of a sign. -/
def signChar (negative : Bool) : Char := if negative then '-' else '+'

/-- A sign is one of two characters. -/
theorem sign_eq_some_iff : sign s = some (negative, r) ↔ s = signChar negative :: r := by
  constructor
  · intro h
    unfold sign at h
    split at h <;> cases h <;> rfl
  · rintro rfl
    cases negative <;> rfl

/-- Whether some characters are a register and a sign, with any blanks after each. -/
inductive Signed (base : Register) (negative : Bool) : List Char → Prop
  | mk {name : String} {before after : List Char} (hword : IsWord name.toList)
    (hbase : Register.ofName? name = some base) (hbefore : Blanks before) (hafter : Blanks after) :
    Signed base negative (name.toList ++ (before ++ signChar negative :: after))

/-- What is read is a register and a sign, and a number right after them. -/
theorem indexed_eq_some_iff :
    indexed q = some ((base, negative, n), r) ↔
      ∃ lead t, q = lead ++ t ∧ Signed base negative lead ∧ numeral t = some (n, r) := by
  simp only [indexed, Option.bind_eq_bind, Option.bind_eq_some_iff, Prod.exists, Option.some.injEq,
    Prod.mk.injEq]
  constructor
  · rintro ⟨_, t, hbase, _, u, hsign, _, _, hnumeral, ⟨rfl, rfl, rfl⟩, rfl⟩
    obtain ⟨name, hword, hname⟩ := register_eq_some_iff.1 hbase
    obtain ⟨hname', _, rfl⟩ := word_eq_some_iff.1 hword
    obtain ⟨before, hbefore, ht⟩ := exists_blanks_append_skipBlanks t
    obtain ⟨after, hafter, hu⟩ := exists_blanks_append_skipBlanks u
    rw [sign_eq_some_iff] at hsign
    refine ⟨_, Text.skipBlanks u, ?_, .mk hname' hname hbefore hafter, hnumeral⟩
    rw [ht, hsign, List.append_assoc, List.append_assoc, List.cons_append, ← hu]
  · rintro ⟨_, t, rfl, ⟨hword, hbase, hbefore, hafter⟩, hnumeral⟩
    rename_i name before after
    obtain ⟨u, rfl, hu⟩ := exists_numeral_of_numeral hnumeral
    have hregister :
        register (name.toList ++ (before ++ signChar negative :: after) ++ (u ++ r)) =
          some (base, before ++ signChar negative :: (after ++ (u ++ r))) := by
      refine register_eq_some_iff.2 ⟨name, word_eq_some_iff.2 ⟨hword, ?_, by simp⟩, hbase⟩
      exact hbefore.ends (ends_cons (by cases negative <;> rfl))
    have hsign : Text.skipBlanks (before ++ signChar negative :: (after ++ (u ++ r))) =
        signChar negative :: (after ++ (u ++ r)) := by
      rw [hbefore.skipBlanks_append, skipBlanks_of_head]
      rintro _ ⟨⟩
      cases negative <;> rfl
    have hdigits : Text.skipBlanks (after ++ (u ++ r)) = u ++ r := by
      rw [hafter.skipBlanks_append, (Operand.Written.number hu).skipBlanks_append]
    refine ⟨base, _, hregister, negative, _, sign_eq_some_iff.2 hsign, n, r, ?_, ⟨rfl, rfl, rfl⟩,
      rfl⟩
    rwa [hdigits]

/-- Whether some characters are a register with an offset: a register, a sign and a number, with any
blanks between them. -/
inductive WithOffset (base : Register) (negative : Bool) (n : Int) : List Char → Prop
  | mk {lead digits : List Char} (hlead : Signed base negative lead) (hdigits : Numeral digits n) :
    WithOffset base negative n (lead ++ digits)

/-- Whether a text begins by taking the smallest number from a register. -/
def NegatesSmallest (s : List Char) : Prop :=
  ∃ base u r, s = u ++ r ∧ WithOffset base true minNumber u ∧ ∀ c ∈ r.head?, c.isDigit = false

/-- The smallest number is taken from a register if that is what is read. -/
theorem negatesSmallest_iff :
    NegatesSmallest s ↔ ∃ base r, indexed s = some ((base, true, minNumber), r) := by
  constructor
  · rintro ⟨base, _, r, rfl, ⟨hlead, hdigits⟩, hr⟩
    refine ⟨base, r, indexed_eq_some_iff.2 ⟨_, _, List.append_assoc _ _ _, hlead, ?_⟩⟩
    exact (numeral_eq_some_iff_of_neg (by decide)).2 ⟨_, rfl, hdigits, hr⟩
  · rintro ⟨base, r, h⟩
    obtain ⟨lead, t, rfl, hlead, hnumeral⟩ := indexed_eq_some_iff.1 h
    obtain ⟨digits, rfl, hdigits, hr⟩ := (numeral_eq_some_iff_of_neg (by decide)).1 hnumeral
    exact ⟨base, lead ++ digits, r, (List.append_assoc _ _ _).symm, .mk hlead hdigits, hr⟩

namespace WithOffset

variable (h : WithOffset base negative n s)
include h

/-- A register with an offset is read as one. -/
theorem indexed : indexed s = some ((base, negative, n), []) := by
  obtain ⟨hlead, hdigits⟩ := h
  exact indexed_eq_some_iff.2
    ⟨_, _, rfl, hlead, whole_eq_some_iff.1 (whole_numeral_eq_some_iff.2 hdigits)⟩

/-- A register with an offset has no white space around it. -/
theorem trim : Text.trim s = s := by
  obtain ⟨⟨hword, _, _, _⟩, hdigits⟩ := h
  obtain ⟨d, hd, hsolid⟩ := hdigits.solid.append _
  refine Text.trim_eq_self (fun c hc => ?_) fun c hc => ?_
  · obtain ⟨e, t, he, hstart⟩ := Operand.exists_cons_of_isWord hword
    rw [he] at hc
    cases hc
    exact isSpace_of_isOperandStart hstart
  · cases hd.symm.trans hc
    exact hsolid

end WithOffset

namespace Location

variable {text : String} {location : Location}

/-! ## The outcome -/

/-- A minus before a number of 32 bits gives such a number, but for the smallest. -/
theorem signed_mem (hn : minNumber ≤ n ∧ n ≤ maxNumber) (h : ¬(negative = true ∧ n = minNumber)) :
    minNumber ≤ (if negative then -n else n) ∧ (if negative then -n else n) ≤ maxNumber := by
  cases negative with
  | false => exact hn
  | true =>
    have hne : n ≠ minNumber := fun hn => h ⟨rfl, hn⟩
    unfold minNumber maxNumber at *
    rw [if_pos rfl]
    omega

/-- Of the numbers that fit 32 bits, only the smallest cannot be taken from a register. -/
theorem ofIndexed_of_mem (hn : minNumber ≤ n ∧ n ≤ maxNumber) :
    ofIndexed base negative n =
      if negative = true ∧ n = minNumber then .error .overflow
      else .ok (.indexed base (if negative then -n else n)) := by
  unfold ofIndexed
  by_cases h : negative = true ∧ n = minNumber
  · obtain ⟨rfl, rfl⟩ := h
    rfl
  · obtain ⟨hmin, hmax⟩ := signed_mem hn h
    rw [number?_of_mem hmin hmax, if_neg h]

/-- The number of an offset fits 32 bits. -/
theorem mem_of_indexed {s : List Char} (h : Debugger.indexed s = some ((base, negative, n), r)) :
    minNumber ≤ n ∧ n ≤ maxNumber := by
  obtain ⟨_, t, _, _, hnumeral⟩ := indexed_eq_some_iff.1 h
  obtain ⟨_, _, hdigits⟩ := exists_numeral_of_numeral hnumeral
  exact hdigits.mem

/-- The offset is computed before anything that is left over is seen. -/
theorem parse_of_indexed
    (h : Debugger.indexed (Text.trim text.toList) = some ((base, negative, n), r)) :
    parse text =
      if negative = true ∧ n = minNumber then .error .overflow
      else if r.isEmpty then .ok (.indexed base (if negative then -n else n))
      else .error (.malformed text) := by
  simp only [parse, h, ofIndexed_of_mem (mem_of_indexed h)]
  by_cases hsmallest : negative = true ∧ n = minNumber
  · rw [if_pos hsmallest, if_pos hsmallest]
    rfl
  · rw [if_neg hsmallest, if_neg hsmallest]
    rfl

/-- A text that begins with no offset is a location in bounds or is refused. -/
theorem outcome_of_not_indexed (h : Debugger.indexed (Text.trim text.toList) = none) :
    (∃ location, location.Bounded ∧ parse text = .ok location) ∨
      parse text = .error (.malformed text) := by
  unfold parse
  simp only [h]
  split
  · rename_i i _
    exact Or.inl ⟨.register i, trivial, rfl⟩
  · split
    · rename_i n hnumeral
      exact Or.inl ⟨.literal n, (whole_numeral_eq_some_iff.1 hnumeral).mem, rfl⟩
    · split
      · rename_i name _
        exact Or.inl ⟨.label name, trivial, rfl⟩
      · exact Or.inr rfl

/-- So is every text that does not take the smallest number from a register. -/
theorem outcome_of_not_negatesSmallest (h : ¬NegatesSmallest (Text.trim text.toList)) :
    (∃ location, location.Bounded ∧ parse text = .ok location) ∨
      parse text = .error (.malformed text) := by
  cases hindexed : Debugger.indexed (Text.trim text.toList) with
  | none => exact outcome_of_not_indexed hindexed
  | some v =>
    obtain ⟨⟨base, negative, n⟩, r⟩ := v
    have hne : ¬(negative = true ∧ n = minNumber) := by
      rintro ⟨rfl, rfl⟩
      exact h (negatesSmallest_iff.2 ⟨base, r, hindexed⟩)
    rw [parse_of_indexed hindexed, if_neg hne]
    split
    · exact Or.inl ⟨.indexed base _, signed_mem (mem_of_indexed hindexed) hne, rfl⟩
    · exact Or.inr rfl

/-- To take the smallest number from a register overflows, and the text is neither. -/
theorem parse_of_negatesSmallest (h : NegatesSmallest (Text.trim text.toList)) :
    parse text = .error .overflow := by
  obtain ⟨base, r, hindexed⟩ := negatesSmallest_iff.1 h
  rw [parse_of_indexed hindexed, if_pos ⟨rfl, rfl⟩]

/-- A text is a location or refused, unless it begins by taking the smallest number from a register.
A register with an offset is the location at exactly that offset. -/
theorem parse_outcome (text : String) :
    (parse text = .error .overflow ↔ NegatesSmallest (Text.trim text.toList)) ∧
      (¬NegatesSmallest (Text.trim text.toList) →
        (∃ location, location.Bounded ∧ parse text = .ok location) ∨
          parse text = .error (.malformed text)) ∧
      ∀ base negative n, WithOffset base negative n text.toList →
        parse text =
          if negative = true ∧ n = minNumber then .error .overflow
          else .ok (.indexed base (if negative then -n else n)) := by
  refine ⟨⟨fun h => ?_, parse_of_negatesSmallest⟩, outcome_of_not_negatesSmallest,
    fun base negative n h => ?_⟩
  · by_contra hne
    rcases outcome_of_not_negatesSmallest hne with ⟨_, _, h'⟩ | h' <;> cases h.symm.trans h'
  · have hindexed := h.indexed
    rw [← h.trim] at hindexed
    rw [parse_of_indexed hindexed]
    rfl

/-- The smallest number but one can be taken from a register, with blanks around the sign. -/
theorem parse_outcome_smallest_but_one :
    parse "r6\t- #-2147483647" = .ok (.indexed 6 2147483647) := by
  obtain ⟨_, _, hoffset⟩ := parse_outcome "r6\t- #-2147483647"
  have hlead : Signed 6 true ("r6".toList ++ (['\t'] ++ '-' :: [' '])) :=
    .mk (by decide) (by decide) (by decide) (by decide)
  have hdigits : Numeral (['#'] ++ (['-'] ++ "2147483647".toList)) (-2147483647) :=
    .decimal true true (by decide) (List.all_eq_true.1 (by decide)) (by decide)
  exact hoffset 6 true (-2147483647) (.mk hlead hdigits)

/-- The smallest number fits 32 bits and can follow a sign, but the text is neither a location nor
refused. -/
theorem not_outcome_smallest :
    WithOffset 0 true minNumber "R0--2147483648".toList ∧
      parse "R0--2147483648" = .error .overflow := by
  have hlead : Signed 0 true ("R0".toList ++ ([] ++ '-' :: [])) :=
    .mk (by decide) (by decide) (by decide) (by decide)
  have hdigits : Numeral ([] ++ (['-'] ++ "2147483648".toList)) minNumber :=
    .decimal false true (by decide) (List.all_eq_true.1 (by decide)) (by decide)
  exact ⟨.mk hlead hdigits, by decide +kernel⟩

end Location

end LittleComputer.Debugger
