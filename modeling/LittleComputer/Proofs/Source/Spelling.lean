import LittleComputer.Proofs.Source.LineGrammar
import Mathlib

/-!
# Spelled operands

Registers and numbers are printed in one of the ways to write them. So they are read back, whatever
comes after them, as long as that does not go on with the same word: `Spells` says so of an operand.
Lines are made up of spelled operands with a comma and a blank between any two.
-/

namespace LittleComputer.Source

variable {s r : List Char}

/-! ## Operands -/

/-- Whether some characters of a line are read as an operand, whatever comes after them. -/
structure Spells (s : List Char) (operand : Operand) : Prop where
  head : ∃ c t, s = c :: t ∧ Text.isBlank c = false
  onLine : ∀ c ∈ s, Text.isLineEnd c = false
  scan : ∀ r, Ends r → Operand.scan (s ++ r) = some (operand, r)

section Spells

variable {operand : Operand}

/-- Every way to write an operand on one line spells it. -/
theorem Operand.Written.spells (h : operand.Written s)
    (hline : ∀ c ∈ s, Text.isLineEnd c = false) : Spells s operand where
  head := by
    obtain ⟨c, t, rfl, hc⟩ := h.exists_cons
    exact ⟨c, t, rfl, isBlank_of_isOperandStart hc⟩
  onLine := hline
  scan _ hr := Operand.scan_append h (Operand.endsBefore_of_ends hr)

/-- What spells an operand is a way to write it. -/
theorem Spells.written (h : Spells s operand) : operand.Written s := by
  obtain ⟨t, ht, hwritten, _⟩ := Operand.exists_written_of_scan (h.scan [] ends_nil)
  rw [List.append_nil, List.append_nil] at ht
  rwa [ht]

end Spells

/-- The decimal digits of a number, with a minus before those of a negative one. -/
theorem toList_toString_int (n : Int) :
    (toString n).toList = (if n < 0 then ['-'] else []) ++ Nat.toDigits 10 n.natAbs := by
  rw [Int.toString_eq_repr, Int.repr_eq_if]
  by_cases h : n < 0
  · have habs : (-n).toNat = n.natAbs := by omega
    rw [if_neg (Int.not_le.2 h), if_pos h, String.toList_append, Nat.toList_repr, habs]
    rfl
  · have habs : n.toNat = n.natAbs := by omega
    rw [if_pos (Int.not_lt.1 h), if_neg h, Nat.toList_repr, habs]
    rfl

/-- The digits of a number in range are a literal for it. -/
theorem numeral_toString {n : Int} (hmin : minNumber ≤ n) (hmax : n ≤ maxNumber) :
    Numeral ('#' :: (toString n).toList) n := by
  have habs : Nat.ofDigitChars 10 (Nat.toDigits 10 n.natAbs) 0 = n.natAbs :=
    Nat.ofDigitChars_ten_toDigits
  have hdigits : ∀ c ∈ Nat.toDigits 10 n.natAbs, c.isDigit = true := fun c hc =>
    Nat.isDigit_of_mem_toDigits (by decide) (by decide) hc
  have hnumeral (negative : Bool) (hn : (if negative then -(n.natAbs : Int) else n.natAbs) = n) :
      Numeral ('#' :: (optionalChar '-' negative ++ Nat.toDigits 10 n.natAbs)) n :=
    .decimal true negative Nat.toDigits_ne_nil hdigits
      (by rw [habs, hn]; exact number?_of_mem hmin hmax)
  rw [toList_toString_int]
  by_cases h : n < 0
  · rw [if_pos h]
    exact hnumeral true (by rw [if_pos rfl]; omega)
  · rw [if_neg h]
    exact hnumeral false (by rw [if_neg Bool.false_ne_true]; omega)

/-- A number in range is spelled by its decimal digits. -/
theorem spells_decimal {n : Int} (hmin : minNumber ≤ n) (hmax : n ≤ maxNumber) :
    Spells ('#' :: (toString n).toList) (.number n) := by
  refine (Operand.Written.number (numeral_toString hmin hmax)).spells fun c hc => ?_
  rw [toList_toString_int, List.mem_cons, List.mem_append] at hc
  rcases hc with rfl | hc | hc
  · rfl
  · split at hc
    · cases List.mem_singleton.1 hc
      rfl
    · cases hc
  · have hdigit := Nat.isDigit_of_mem_toDigits (by decide) (by decide) hc
    exact isLineEnd_of_isWordChar (isWordChar_of_isDigit c hdigit)

/-- A number in range is spelled by any hexadecimal digits that denote it. -/
theorem spells_hexadecimal {digits : List Char} (hne : digits ≠ [])
    (hdigits : ∀ c ∈ digits, Text.Hex.isDigit c = true)
    (hmax : (Text.Hex.ofDigits digits : Int) ≤ maxNumber) :
    Spells ('x' :: digits) (.number (Text.Hex.ofDigits digits)) := by
  have hnumeral : Numeral (['x'] ++ digits) (Text.Hex.ofDigits digits) :=
    .hexadecimal (by decide) hne hdigits (number?_of_mem (by unfold minNumber; omega) hmax)
  refine (Operand.Written.number hnumeral).spells fun c hc => ?_
  rcases List.mem_cons.1 hc with rfl | hc
  · rfl
  · exact isLineEnd_of_isWordChar (isWordChar_of_isHexDigit c (hdigits c hc))

/-- A register is spelled by its name. -/
theorem spells_register (i : Register) : Spells i.name.toList (.register i) :=
  (Operand.Written.register (isWord_register i) (Register.ofName?_name i)).spells
    (isWord_register i).onLine

/-! ## Rows of operands -/

/-- Operands after the first, each after a comma and a blank. -/
def operandTail : List (List Char) → List Char
  | [] => []
  | s :: ss => ',' :: ' ' :: (s ++ operandTail ss)

/-- Operands after a mnemonic or directive, from the blank before them. -/
def operandText : List (List Char) → List Char
  | [] => []
  | s :: ss => ' ' :: (s ++ operandTail ss)

variable {ss : List (List Char)} {os : List Operand}

section Written

variable (h : List.Forall₂ (fun s operand => Operand.Written operand s) ss os)
include h

/-- Spelled operands after commas are further operands. -/
theorem further_operandTail : Further os (operandTail ss) := by
  induction h with
  | nil => exact .nil
  | cons ho _ ih => exact .cons blanks_nil blanks_singleton ho ih

/-- Spelled operands after a blank are the operands of a name. -/
theorem arguments_operandText : Arguments os (operandText ss) := by
  cases h with
  | nil => exact .none
  | cons ho hos => exact .some (List.cons_ne_nil _ _) blanks_singleton ho (further_operandTail hos)

end Written

/-- Further operands stay on their line. -/
theorem onLine_operandTail (h : List.Forall₂ Spells ss os) :
    ∀ c ∈ operandTail ss, Text.isLineEnd c = false := by
  induction h with
  | nil =>
    intro c hc
    cases hc
  | cons hs h ih =>
    intro c hc
    rw [operandTail, List.mem_cons, List.mem_cons, List.mem_append] at hc
    rcases hc with rfl | rfl | hc | hc
    · rfl
    · rfl
    · exact hs.onLine c hc
    · exact ih c hc

/-- Operands stay on their line. -/
theorem onLine_operandText (h : List.Forall₂ Spells ss os) :
    ∀ c ∈ operandText ss, Text.isLineEnd c = false := by
  cases h with
  | nil =>
    intro c hc
    cases hc
  | cons hs h =>
    intro c hc
    rw [operandText, List.mem_cons, List.mem_append] at hc
    rcases hc with rfl | hc | hc
    · rfl
    · exact hs.onLine c hc
    · exact onLine_operandTail h c hc

/-- A word with operands after it stands on one line. -/
theorem onLine_append_operandText (hs : IsWord s) (h : List.Forall₂ Spells ss os) :
    ∀ c ∈ s ++ operandText ss, Text.isLineEnd c = false := by
  intro c hc
  rcases List.mem_append.1 hc with hc | hc
  · exact hs.onLine c hc
  · exact onLine_operandText h c hc

/-- So does one with a dot before it. -/
theorem onLine_dot_append_operandText (hs : IsWord s) (h : List.Forall₂ Spells ss os) :
    ∀ c ∈ '.' :: (s ++ operandText ss), Text.isLineEnd c = false := by
  intro c hc
  rcases List.mem_cons.1 hc with rfl | hc
  · rfl
  · exact onLine_append_operandText hs h c hc

/-! ## Lines -/

namespace Line

/-- A line of nothing but its content. -/
theorem parse_of_content {c : Content} (h : c.Written s) (hfirst : c.StandsFirst) :
    parse s = .ok ⟨none, some c, none⟩ := by
  have hopening : Opening none (some c) [] := .unlabelled blanks_nil (by rintro _ ⟨⟩; exact hfirst)
  have hwritten := Written.mk hopening (.some h) blanks_nil ending_nil
  rw [List.nil_append, List.nil_append, List.append_nil] at hwritten
  exact hwritten.parse

variable {name : String}

/-- A mnemonic and spelled operands are read as that instruction. -/
theorem parse_instruction (hname : IsWord name.toList) {mnemonic : Mnemonic}
    (hmnemonic : Mnemonic.ofName? name = some mnemonic) (h : List.Forall₂ Spells ss os) :
    parse (name.toList ++ operandText ss) = .ok ⟨none, some (.instruction name os), none⟩ := by
  have harguments := arguments_operandText (h.imp fun _ _ hs => hs.written)
  exact parse_of_content (.instruction hname harguments)
    (Or.inl (by rw [isLabelName, hmnemonic]; rfl))

/-- A directive and spelled operands are read as that directive. -/
theorem parse_directive (hname : IsWord name.toList) (h : List.Forall₂ Spells ss os) :
    parse ('.' :: (name.toList ++ operandText ss)) =
      .ok ⟨none, some (.directive name os), none⟩ := by
  have harguments := arguments_operandText (h.imp fun _ _ hs => hs.written)
  exact parse_of_content (.directive hname harguments) trivial

end Line

end LittleComputer.Source
