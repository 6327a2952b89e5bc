import LittleComputer.Debugger.Location
import LittleComputer.Proofs.Outcome
import LittleComputer.Proofs.Source.Grammar
import Mathlib

/-!
# Locations are operands

A location is read by rules of its own: other alternatives come first, and a number may run on into
a word as long as the whole text is taken. Still, but for a register with an offset, the texts of
locations are those of operands, and both mean the same.
-/

namespace LittleComputer.Text

variable {s : List Char}

/-- Nothing is trimmed of a text that neither begins nor ends with white space. -/
theorem trim_eq_self (hstart : ∀ c ∈ s.head?, isSpace c = false)
    (hend : ∀ c ∈ s.getLast?, isSpace c = false) : trim s = s := by
  have hfirst : trimStart s = s := by
    cases s with
    | nil => rfl
    | cons c t => exact List.dropWhile_cons_of_neg (Bool.eq_false_iff.1 (hstart c rfl))
  have hlast : trimEnd s = s := by
    refine List.rdropWhile_eq_self_iff.2 fun hne => ?_
    exact Bool.eq_false_iff.1 (hend _ (List.getLast?_eq_some_getLast hne))
  rw [trim, hfirst, hlast]

end LittleComputer.Text

namespace LittleComputer.Debugger

open Source

variable {s r : List Char}

/-! ## Whole texts -/

/-- A whole text is read if nothing of it is left. -/
theorem whole_eq_some_iff {α : Type} {p : Scanner α} {a : α} :
    whole p s = some a ↔ p s = some (a, []) := by
  unfold whole
  split
  · rename_i h
    rw [h, Option.some.injEq, Option.some.injEq, Prod.mk.injEq, eq_self, and_true]
  · rename_i h
    exact ⟨fun h' => (by cases h'), fun h' => absurd h' (h a)⟩

/-- A word runs to the end of the text, so nothing is left that could go on with a number. -/
theorem whole_numeral_eq_some_iff {n : Int} : whole numeral s = some n ↔ Numeral s n := by
  rw [whole_eq_some_iff]
  constructor
  · intro h
    obtain ⟨t, hs, hn, _⟩ := number_eq_some_iff.1 (number_of_numeral h ends_nil)
    rwa [hs, List.append_nil]
  · intro h
    have := number_append h ends_nil
    rw [List.append_nil] at this
    exact numeral_of_number this

/-- A whole text is read as a word if it is one. -/
theorem whole_word_eq_some_iff {name : String} :
    whole word s = some name ↔ IsWord name.toList ∧ s = name.toList := by
  rw [whole_eq_some_iff, word_eq_some_iff, List.append_nil]
  exact ⟨fun h => ⟨h.1, h.2.2⟩, fun h => ⟨h.1, ends_nil, h.2⟩⟩

/-- A whole text is read as a register if it is a way to write one. -/
theorem whole_register_eq_some_iff {i : Register} :
    whole Source.register s = some i ↔ Operand.Written (.register i) s := by
  rw [whole_eq_some_iff, register_eq_some_iff]
  constructor
  · rintro ⟨name, hword, hi⟩
    obtain ⟨hname, rfl⟩ := whole_word_eq_some_iff.1 (whole_eq_some_iff.2 hword)
    exact .register hname hi
  · rintro ⟨⟩
    rename_i name hword hi
    exact ⟨name, whole_eq_some_iff.1 (whole_word_eq_some_iff.2 ⟨hword, rfl⟩), hi⟩

/-- A word that is left over by the alternatives before it is written as a label. -/
theorem written_label {name : String} (hregister : whole Source.register s = none)
    (hnumeral : whole numeral s = none) (hword : whole word s = some name) :
    Operand.Written (.label name) s := by
  obtain ⟨hname, rfl⟩ := whole_word_eq_some_iff.1 hword
  refine .label hname (Option.eq_none_iff_forall_ne_some.2 fun i hi => ?_)
    (Option.eq_none_iff_forall_ne_some.2 fun n hn => ?_)
  · rw [whole_register_eq_some_iff.2 (.register hname hi)] at hregister
    cases hregister
  · rw [whole_numeral_eq_some_iff.2 (numeral_of_hexLiteral? hn)] at hnumeral
    cases hnumeral

/-! ## Locations -/

/-- A register before a sign is an operand that does not take the whole text. -/
theorem scan_of_indexed {v : Register × Bool × Int} (h : indexed s = some (v, r)) :
    ∃ base t, Operand.scan s = some (.register base, t) ∧ t ≠ [] := by
  simp only [indexed, Option.bind_eq_bind, Option.bind_eq_some_iff, Prod.exists] at h
  obtain ⟨base, t, hregister, _, _, hsign, _⟩ := h
  obtain ⟨name, hword, hi⟩ := register_eq_some_iff.1 hregister
  obtain ⟨hname, ht, rfl⟩ := word_eq_some_iff.1 hword
  refine ⟨base, t, Operand.scan_append (.register hname hi) ht, ?_⟩
  rintro rfl
  cases hsign

namespace Location

/-- Whether the numbers of a location fit 32 bits. -/
def Bounded : Location → Prop
  | .literal n | .indexed _ n => minNumber ≤ n ∧ n ≤ maxNumber
  | .label _ | .register _ => True

/-- The location that an operand stands for. -/
inductive OfOperand : Operand → Location → Prop
  | number (n : Int) : OfOperand (.number n) (.literal n)
  | register (i : Register) : OfOperand (.register i) (.register i)
  | label (name : String) : OfOperand (.label name) (.label name)

variable {text : String} {location : Location} {o : Operand}

/-- A register with an offset is nothing else. -/
theorem eq_indexed_of_ofIndexed {base : Register} {negative : Bool} {offset : Int}
    (h : ofIndexed base negative offset = .ok location) :
    ∃ offset, location = .indexed base offset := by
  unfold ofIndexed at h
  split at h
  · cases h
    exact ⟨_, rfl⟩
  · cases h

/-- A text that is written as an operand is read as its location. -/
theorem parse_of_written (htrim : Text.trim text.toList = text.toList) (h : o.Written text.toList)
    (ho : OfOperand o location) : parse text = .ok location := by
  have hscan := Operand.scan_eq_some_nil_iff.2 h
  have hindexed : Debugger.indexed text.toList = none := by
    refine Option.eq_none_iff_forall_ne_some.2 fun ⟨v, r⟩ hv => ?_
    obtain ⟨base, t, hbase, hne⟩ := scan_of_indexed hv
    cases hscan.symm.trans hbase
    exact hne rfl
  have hregister (hne : ∀ i, o ≠ .register i) : whole Source.register text.toList = none :=
    Option.eq_none_iff_forall_ne_some.2 fun i hi =>
      hne i (h.unique (whole_register_eq_some_iff.1 hi))
  have hnumeral (hne : ∀ n, o ≠ .number n) : whole numeral text.toList = none :=
    Option.eq_none_iff_forall_ne_some.2 fun n hn =>
      hne n (h.unique (.number (whole_numeral_eq_some_iff.1 hn)))
  unfold parse
  simp only [htrim, hindexed]
  cases ho with
  | register i => rw [whole_register_eq_some_iff.2 h]
  | number n =>
    cases h with
    | number h => rw [hregister (by simp), whole_numeral_eq_some_iff.2 h]
  | label name =>
    have hword : whole word text.toList = some name := by
      generalize text.toList = s at h
      cases h with
      | label hword => exact whole_word_eq_some_iff.2 ⟨hword, rfl⟩
    rw [hregister (by simp), hnumeral (by simp), hword]

/-- What is read as a location is an operand, or a register with an offset. -/
theorem written_of_parse (htrim : Text.trim text.toList = text.toList)
    (h : parse text = .ok location) :
    (∃ v base offset,
      Debugger.indexed text.toList = some (v, []) ∧ location = .indexed base offset) ∨
      ∃ o, OfOperand o location ∧ o.Written text.toList := by
  unfold parse at h
  simp only [htrim] at h
  split at h
  · rename_i hindexed
    obtain ⟨_, hoffset, h⟩ := Except.bind_eq_ok_iff.1 h
    split at h
    · rename_i hrest
      cases h
      obtain ⟨offset, hlocation⟩ := eq_indexed_of_ofIndexed hoffset
      rw [List.isEmpty_iff.1 hrest] at hindexed
      exact Or.inl ⟨_, _, offset, hindexed, hlocation⟩
    · cases h
  · split at h
    · rename_i hregister
      cases h
      exact Or.inr ⟨_, .register _, whole_register_eq_some_iff.1 hregister⟩
    · rename_i hregister
      split at h
      · rename_i hnumeral
        cases h
        exact Or.inr ⟨_, .number _, .number (whole_numeral_eq_some_iff.1 hnumeral)⟩
      · rename_i hnumeral
        split at h
        · rename_i hword
          cases h
          exact Or.inr ⟨_, .label _, written_label hregister hnumeral hword⟩
        · cases h

/-- A text without white space around it is a location if and only if it is read as that operand. -/
theorem parse_eq_ok_iff_scan (htrim : Text.trim text.toList = text.toList)
    (ho : OfOperand o location) :
    parse text = .ok location ↔ Operand.scan text.toList = some (o, []) := by
  rw [Operand.scan_eq_some_nil_iff]
  constructor
  · intro h
    rcases written_of_parse htrim h with ⟨_, _, _, _, rfl⟩ | ⟨o', ho', h'⟩
    · cases ho
    · cases ho <;> cases ho' <;> exact h'
  · intro h
    exact parse_of_written htrim h ho

/-- A text without white space at its ends is a number, a register or a label as a location if and
only if it is that as an operand. -/
theorem parse_iff_operand (hstart : ∀ c ∈ text.toList.head?, Text.isSpace c = false)
    (hend : ∀ c ∈ text.toList.getLast?, Text.isSpace c = false) :
    (∀ n, parse text = .ok (.literal n) ↔
        Operand.scan text.toList = some (.number n, [])) ∧
      (∀ i, parse text = .ok (.register i) ↔
        Operand.scan text.toList = some (.register i, [])) ∧
      ∀ name, parse text = .ok (.label name) ↔
        Operand.scan text.toList = some (.label name, []) := by
  have htrim := Text.trim_eq_self hstart hend
  refine ⟨fun n => ?_, fun i => ?_, fun name => ?_⟩
  · exact parse_eq_ok_iff_scan htrim (.number n)
  · exact parse_eq_ok_iff_scan htrim (.register i)
  · exact parse_eq_ok_iff_scan htrim (.label name)

/-- A hexadecimal number that is too large is a label, and one without digits is neither. -/
theorem parse_iff_operand_hexadecimal :
    parse "x80000000" = .ok (.label "x80000000") ∧ ∀ n, parse "0x" ≠ .ok (.literal n) := by
  obtain ⟨_, _, hlabel⟩ := @parse_iff_operand "x80000000" (by rintro _ ⟨⟩; rfl)
    (by rintro _ ⟨⟩; rfl)
  obtain ⟨hnumber, _⟩ := @parse_iff_operand "0x" (by rintro _ ⟨⟩; rfl) (by rintro _ ⟨⟩; rfl)
  refine ⟨(hlabel _).2 (by decide +kernel), fun n hn => ?_⟩
  have hscan : Operand.scan "0x".toList = none := by decide +kernel
  rw [hnumber n, hscan] at hn
  cases hn

end Location

end LittleComputer.Debugger
