import LittleComputer.Assembly.Listing
import LittleComputer.Proofs.Assembly.Emission
import LittleComputer.Proofs.Assembly.Resolve
import LittleComputer.Proofs.Instruction.Encoding
import LittleComputer.Proofs.Source.Spelling
import Mathlib

/-!
# Lines that store a word

The text of an instruction and the text of a word as data are lines of a source. Each is read as an
item of one word, the one that it was written for.
-/

namespace LittleComputer.Assembly

open Source

/-! ## Lines that store a word -/

/-- Whether a line stores a word, wherever it stands and whatever labels there are. -/
def Stores (text : List Char) (w : Word) : Prop :=
  (∀ c ∈ text, Text.isLineEnd c = false) ∧ ∃ content item,
    Line.parse text = .ok ⟨none, some content, none⟩ ∧ ItemOf content item ∧ item.size = 1 ∧
      ∀ s : Scope, s.words item = .ok [w]

/-- Every number of a field can be spelled. -/
theorem number_of_contains {field : Field} (hbits : field.bits ≤ 16) {n : Int}
    (h : field.contains n = true) : minNumber ≤ n ∧ n ≤ maxNumber := by
  obtain ⟨hmin, hmax⟩ := Field.contains_iff.1 h
  have hsize : field.size ≤ 2 ^ 16 := by
    rw [Field.size_eq_two_pow]
    exact Nat.pow_le_pow_right (by decide) hbits
  have hsign : field.signBit ≤ 2 ^ 16 := by
    rw [Field.signBit_eq_two_pow]
    exact Nat.pow_le_pow_right (by decide) (by omega)
  unfold Field.min at hmin
  unfold Field.max at hmax
  unfold minNumber maxNumber
  split at hmin <;> split at hmax <;> omega

/-- A fixed-width numeral denotes the number that it was written for, less the digits cut off. -/
theorem ofDigits_fixed (width n : Nat) :
    Text.Hex.ofDigits (Text.Hex.fixed Text.Hex.upperDigit width n) = n % 16 ^ width := by
  induction width generalizing n with
  | zero => simp [Text.Hex.fixed, Text.Hex.ofDigits, Nat.mod_one]
  | succ width ih =>
    rw [Text.Hex.fixed, Text.Hex.ofDigits_append, ih,
      Text.Hex.value?_upperDigit _ (Nat.mod_lt _ (by decide)), Option.getD_some, Nat.pow_succ',
      Nat.mod_mul]
    omega

/-- Digits in upper case are digits. -/
theorem isDigit_fixed {c : Char} {width n : Nat}
    (h : c ∈ Text.Hex.fixed Text.Hex.upperDigit width n) : Text.Hex.isDigit c = true := by
  induction width generalizing n with
  | zero => cases h
  | succ width ih =>
    rcases List.mem_append.1 h with h | h
    · exact ih h
    · cases List.mem_singleton.1 h
      rw [Text.Hex.isDigit, Text.Hex.value?_upperDigit _ (Nat.mod_lt _ (by decide))]
      rfl

/-- A number is spelled by its hexadecimal digits after an `x`, with zeros in front or not. -/
theorem spells_fixed {width n : Nat} (hwidth : 0 < width) (hn : n < 16 ^ width)
    (hmax : (n : Int) ≤ maxNumber) :
    Spells ('x' :: Text.Hex.fixed Text.Hex.upperDigit width n) (.number n) := by
  have hvalue : Text.Hex.ofDigits (Text.Hex.fixed Text.Hex.upperDigit width n) = n := by
    rw [ofDigits_fixed, Nat.mod_eq_of_lt hn]
  have hne : Text.Hex.fixed Text.Hex.upperDigit width n ≠ [] := by
    rw [← List.length_pos_iff, Text.Hex.length_fixed]
    exact hwidth
  have := spells_hexadecimal hne (fun c hc => isDigit_fixed hc) (by rw [hvalue]; exact hmax)
  rwa [hvalue] at this

/-- Data is read back as the word that it was written for. -/
theorem stores_fillText (w : Word) : Stores (Word.fillText w).toList w := by
  have hw := w.isLt
  have hspells : Spells ('x' :: Text.Hex.fixed Text.Hex.upperDigit 4 w.toNat) (.number w.toNat) :=
    spells_fixed (by decide) hw (by unfold maxNumber; omega)
  have htext : (Word.fillText w).toList = '.' :: (Directive.fill.name.toList ++
      operandText ['x' :: Text.Hex.fixed Text.Hex.upperDigit 4 w.toNat]) := by
    simp [Word.fillText, Word.text, Text.Hex.upper, operandText, operandTail, Directive.name]
  refine ⟨?_, .directive Directive.fill.name [.number w.toNat], .fill (.number w.toNat), ?_,
    .fill (Directive.ofName?_name .fill) _, rfl, fun s => ?_⟩
  · rw [htext]
    exact onLine_dot_append_operandText (isWord_directive .fill) (.cons hspells .nil)
  · rw [htext]
    exact Line.parse_directive (isWord_directive .fill) (.cons hspells .nil)
  · have hfill : s.fill (.number w.toNat) = .ok w := by
      show (if -32768 ≤ (w.toNat : Int) ∧ (w.toNat : Int) ≤ 65535 then _ else _) = _
      rw [if_pos (by omega), BitVec.ofInt_natCast, BitVec.ofNat_toNat, BitVec.setWidth_eq]
    rw [Scope.words, hfill]
    rfl

/-- A line of a mnemonic and operands that resolve to an instruction stores its word. -/
theorem stores_of_resolve {i : Instruction} {w : Word} (hencode : i.encode = .ok w) {m : Mnemonic}
    (hm : m ≠ .branch .empty) {ss : List (List Char)} {os : List Operand}
    (h : List.Forall₂ Spells ss os)
    (hresolve : ∀ s : Scope, s.resolve m.name os m = .ok i) {text : String}
    (htext : text.toList = m.name.toList ++ operandText ss) : Stores text.toList w := by
  have hname := Mnemonic.ofName?_name hm
  refine ⟨?_, .instruction m.name os, .instruction m.name os, ?_, .instruction _ _, rfl,
    fun s => ?_⟩
  · rw [htext]
    exact onLine_append_operandText (isWord_mnemonic m) h
  · rw [htext]
    exact Line.parse_instruction (isWord_mnemonic m) hname h
  · rw [Scope.words, Scope.instructionWord_eq_ok_iff.2 ⟨m, i, hname, hresolve s, hencode⟩]
    rfl

/-! ## Instructions -/

/-- A number that a field can hold is spelled by its decimal digits after a `#`. -/
theorem spells_field {field : Field} (hbits : field.bits ≤ 16) {n : Int}
    (h : field.contains n = true) : Spells ('#' :: (toString n).toList) (.number n) :=
  spells_decimal (number_of_contains hbits h).1 (number_of_contains hbits h).2

/-- A number that was encoded fits its field. -/
theorem contains_of_insert {field : Field} {n : Int} {pack : Nat → Word} {w : Word}
    (h : (field.insert n).map pack = .ok w) : field.contains n = true := by
  obtain ⟨k, hk, _⟩ := Field.map_insert_eq_ok_iff.1 h
  exact (Field.insert?_eq_some_iff.1 hk).1

section Encoded

variable {w : Word}

/-- The text of an operation stores its word. -/
theorem stores_operate {op : Operation} {dr sr1 : Register} {argument : Argument}
    (h : (Instruction.operate op dr sr1 argument).encode = .ok w) :
    Stores (Instruction.operate op dr sr1 argument).text.toList w := by
  cases argument with
  | register sr2 =>
    refine stores_of_resolve (m := .operate op) h (by simp)
      (.cons (spells_register dr) (.cons (spells_register sr1) (.cons (spells_register sr2) .nil)))
      (fun s => ?_) ?_
    · simp [Scope.resolve, takeThree, registerOf, Scope.argument, pure, Except.pure]
    · show (op.name ++ " " ++ dr.name ++ ", " ++ sr1.name ++ ", " ++ sr2.name).toList = _
      simp [operandText, operandTail, Mnemonic.name]
  | immediate imm5 =>
    have hinsert := h
    rw [Instruction.encode] at hinsert
    split at hinsert
    · cases hinsert
    · rename_i hxor
      have himm5 := contains_of_insert hinsert
      refine stores_of_resolve (m := .operate op) h (by simp)
        (.cons (spells_register dr) (.cons (spells_register sr1)
          (.cons (spells_field (by decide) himm5) .nil))) (fun s => ?_) ?_
      · simp [Scope.resolve, takeThree, registerOf, Scope.argument, pure, Except.pure,
          immediateOf_number himm5, hxor]
      · show (op.name ++ " " ++ dr.name ++ ", " ++ sr1.name ++ ", " ++
          ("#" ++ toString imm5)).toList = _
        simp [operandText, operandTail, Mnemonic.name]

/-- A branch that is never taken is written as data, unless it is the canonical one. -/
theorem stores_branch {condition : Condition} {offset9 : Int}
    (h : (Instruction.branch condition offset9).encode = .ok w) :
    Stores (Instruction.branch condition offset9).text.toList w := by
  have hoffset9 := contains_of_insert h
  by_cases hempty : condition = .empty
  · subst hempty
    rw [Instruction.text, if_pos rfl]
    split
    · rename_i hzero
      subst hzero
      refine stores_of_resolve (m := .nop) h (by simp) .nil (fun s => ?_) rfl
      rfl
    · obtain ⟨n, hn, rfl⟩ := Field.map_insert_eq_ok_iff.1 h
      obtain ⟨_, rfl⟩ := Field.insert?_eq_some_iff.1 hn
      have hpack : BitVec.ofNat 16 (offset9 % 512).toNat =
          Word.pack 0 Condition.empty.bits 0 (offset9 % Field.pcOffset9.size).toNat := by
        rw [Word.pack, Nat.zero_mul]
        simp [Condition.bits, Condition.empty, Field.size_eq_two_pow, Field.pcOffset9]
      rw [hpack]
      exact stores_fillText _
  · rw [Instruction.text, if_neg hempty]
    refine stores_of_resolve (m := .branch condition) h (by simpa using hempty)
      (.cons (spells_field (by decide) hoffset9) .nil) (fun s => ?_) ?_
    · simp [Scope.resolve, takeOne, pure, Except.pure,
        Scope.offset_number_eq_ok_iff.2 ⟨rfl, hoffset9⟩]
    · show ("BR" ++ condition.letters ++ " #" ++ toString offset9).toList = _
      simp [operandText, operandTail, Mnemonic.name]

/-- The text of a call stores its word, by the name of the routine if there is one. -/
theorem stores_trap {vector : Nat} (h : (Instruction.trap vector).encode = .ok w) :
    Stores (Instruction.trap vector).text.toList w := by
  have hvector := contains_of_insert h
  have hlt : vector < 16 ^ 2 := by
    have hmax : (vector : Int) ≤ Field.trapVector8.max := (Field.contains_iff.1 hvector).2
    have heq : Field.trapVector8.max = 255 := by decide
    omega
  cases hservice : Service.ofVector? vector with
  | some service =>
    obtain rfl := Service.ofVector?_eq_some_iff.1 hservice
    refine stores_of_resolve (m := .service service) h (by simp) .nil (fun s => rfl) ?_
    simp [Instruction.text, operandText, Mnemonic.name]
  | none =>
    refine stores_of_resolve (m := .trap) h (by simp)
      (.cons (spells_fixed (by decide) hlt (by unfold maxNumber; omega)) .nil) (fun s => ?_) ?_
    · simp [Scope.resolve, takeOne, pure, Except.pure, immediateOf_number hvector]
    · simp [Instruction.text, hservice, operandText, operandTail, Mnemonic.name, Text.Hex.upper]

/-- The text of an instruction stores the word of the instruction. -/
theorem stores_text {i : Instruction} (h : i.encode = .ok w) : Stores i.text.toList w := by
  cases i with
  | operate op dr sr1 argument => exact stores_operate h
  | not dr sr =>
    refine stores_of_resolve (m := .not) h (by simp)
      (.cons (spells_register dr) (.cons (spells_register sr) .nil)) (fun s => rfl) ?_
    show ("NOT " ++ dr.name ++ ", " ++ sr.name).toList = _
    simp [operandText, operandTail, Mnemonic.name]
  | branch condition offset9 => exact stores_branch h
  | jump base =>
    have hinsert := h
    rw [Instruction.encode] at hinsert
    split at hinsert
    · cases hinsert
    · rename_i hbase
      refine stores_of_resolve (m := .jump) h (by simp) (.cons (spells_register base) .nil)
        (fun s => ?_) ?_
      · simp [Scope.resolve, takeOne, registerOf, pure, Except.pure, hbase]
      · show ("JMP " ++ base.name).toList = _
        simp [operandText, operandTail, Mnemonic.name]
  | ret => exact stores_of_resolve (m := .ret) h (by simp) .nil (fun s => rfl) rfl
  | call offset11 =>
    have hoffset11 := contains_of_insert h
    refine stores_of_resolve (m := .call) h (by simp)
      (.cons (spells_field (by decide) hoffset11) .nil) (fun s => ?_) ?_
    · simp [Scope.resolve, takeOne, pure, Except.pure,
        Scope.offset_number_eq_ok_iff.2 ⟨rfl, hoffset11⟩]
    · show ("JSR #" ++ toString offset11).toList = _
      simp [operandText, operandTail, Mnemonic.name]
  | callRegister base =>
    refine stores_of_resolve (m := .callRegister) h (by simp) (.cons (spells_register base) .nil)
      (fun s => rfl) ?_
    show ("JSRR " ++ base.name).toList = _
    simp [operandText, operandTail, Mnemonic.name]
  | load access dr base offset6 =>
    have hoffset6 := contains_of_insert h
    refine stores_of_resolve (m := .load access) h (by simp)
      (.cons (spells_register dr) (.cons (spells_register base)
        (.cons (spells_field (by decide) hoffset6) .nil))) (fun s => ?_) ?_
    · simp [Scope.resolve, takeThree, registerOf, pure, Except.pure,
        displacementOf_number hoffset6]
    · show (access.loadName ++ " " ++ dr.name ++ ", " ++ base.name ++ ", #" ++
        toString offset6).toList = _
      simp [operandText, operandTail, Mnemonic.name]
  | store access sr base offset6 =>
    have hoffset6 := contains_of_insert h
    refine stores_of_resolve (m := .store access) h (by simp)
      (.cons (spells_register sr) (.cons (spells_register base)
        (.cons (spells_field (by decide) hoffset6) .nil))) (fun s => ?_) ?_
    · simp [Scope.resolve, takeThree, registerOf, pure, Except.pure,
        displacementOf_number hoffset6]
    · show (access.storeName ++ " " ++ sr.name ++ ", " ++ base.name ++ ", #" ++
        toString offset6).toList = _
      simp [operandText, operandTail, Mnemonic.name]
  | loadAddress dr offset9 =>
    have hoffset9 := contains_of_insert h
    refine stores_of_resolve (m := .loadAddress) h (by simp)
      (.cons (spells_register dr) (.cons (spells_field (by decide) hoffset9) .nil))
      (fun s => ?_) ?_
    · simp [Scope.resolve, takeTwo, registerOf, pure, Except.pure,
        Scope.offset_number_eq_ok_iff.2 ⟨rfl, hoffset9⟩]
    · show ("LEA " ++ dr.name ++ ", #" ++ toString offset9).toList = _
      simp [operandText, operandTail, Mnemonic.name]
  | shift direction dr sr amount4 =>
    have hamount4 := contains_of_insert h
    refine stores_of_resolve (m := .shift direction) h (by simp)
      (.cons (spells_register dr) (.cons (spells_register sr)
        (.cons (spells_field (by decide) hamount4) .nil))) (fun s => ?_) ?_
    · simp [Scope.resolve, takeThree, registerOf, pure, Except.pure,
        immediateOf_number hamount4]
    · show (direction.name ++ " " ++ dr.name ++ ", " ++ sr.name ++ ", #" ++
        toString (amount4 : Int)).toList = _
      simp [operandText, operandTail, Mnemonic.name]
  | returnFromInterrupt =>
    exact stores_of_resolve (m := .returnFromInterrupt) h (by simp) .nil (fun s => rfl) rfl
  | trap vector => exact stores_trap h

/-- Every line of a listing stores the word that it stands for. -/
theorem stores_wordSource (w : Word) : Stores (wordSource w).toList w := by
  unfold wordSource
  split
  · rename_i i hi
    exact stores_text (Instruction.encode_of_decode? (Instruction.decode_eq_ok_iff.1 hi))
  · exact stores_fillText w

end Encoded

end LittleComputer.Assembly
