import LittleComputer.Proofs.Instruction.Encoding
import LittleComputer.Proofs.Outcome
import Mathlib

/-!
# Encoding and decoding are inverse to each other

Which instructions have a word is a matter of their numbers alone, but for the two spellings that
stand for another instruction. Each of the others has one word, and no word has two instructions. If
a number is out of range, it is the one that is reported.
-/

namespace LittleComputer

/-- A field holds the numbers in its range. -/
theorem Field.exists_map_insert_iff {f : Field} {value : Int} {pack : Nat → Word} :
    (∃ w, (f.insert value).map pack = .ok w) ↔ f.min ≤ value ∧ value ≤ f.max := by
  rw [← contains_iff]
  constructor
  · rintro ⟨w, hw⟩
    obtain ⟨n, hn, _⟩ := map_insert_eq_ok_iff.1 hw
    exact (insert?_eq_some_iff.1 hn).1
  · intro h
    exact ⟨_, map_insert_eq_ok_iff.2 ⟨_, insert?_eq_some_iff.2 ⟨h, rfl⟩, rfl⟩⟩

/-- A number that its field cannot hold is the one that is reported. -/
theorem Field.map_insert_eq_error_iff {f : Field} {value : Int} {pack : Nat → Word}
    {e : EncodeError} :
    (f.insert value).map pack = .error e ↔
      f.contains value = false ∧ e = .fieldOutOfRange f value := by
  rw [Except.map_eq_error_iff, insert]
  cases h : f.contains value with
  | true =>
    rw [insert?_eq_some_iff.2 ⟨h, rfl⟩]
    exact iff_of_false (by rintro ⟨⟩) (by rintro ⟨⟨⟩, _⟩)
  | false =>
    rw [insert?_eq_none_iff.2 h]
    simp [eq_comm]

namespace Instruction

/-- The numbers of an instruction, each with the field that is to hold it. -/
def numbers : Instruction → List (Field × Int)
  | .operate _ _ _ (.immediate imm5) => [(.imm5, imm5)]
  | .branch _ offset9 | .loadAddress _ offset9 => [(.pcOffset9, offset9)]
  | .call offset11 => [(.pcOffset11, offset11)]
  | .load _ _ _ offset6 | .store _ _ _ offset6 => [(.offset6, offset6)]
  | .shift _ _ _ amount4 => [(.amount4, amount4)]
  | .trap vector => [(.trapVector8, vector)]
  | .operate _ _ _ (.register _) | .not _ _ | .jump _ | .ret | .callRegister _
  | .returnFromInterrupt => []

/-- Whether the field of every number can hold it. -/
def Fits (i : Instruction) : Prop := ∀ n ∈ i.numbers, n.1.min ≤ n.2 ∧ n.2 ≤ n.1.max

/-- Whether an instruction is spelled in a way that another one has taken. -/
def Aliased (i : Instruction) : Prop :=
  (∃ dr sr1, i = .operate .xor dr sr1 (.immediate (-1))) ∨ i = .jump .link

/-- An instruction without numbers fits. -/
theorem fits_of_numbers_eq_nil {i : Instruction} (h : i.numbers = []) : i.Fits := by
  intro n hn
  rw [h] at hn
  cases hn

/-- An instruction with one number fits if the number does. -/
theorem fits_iff_of_numbers_eq {i : Instruction} {f : Field} {n : Int}
    (h : i.numbers = [(f, n)]) : i.Fits ↔ f.min ≤ n ∧ n ≤ f.max := by
  rw [Fits, h]
  exact List.forall_mem_singleton

/-- An instruction without numbers has a word, unless its spelling is taken. -/
theorem exists_encode_of_numbers_eq_nil {i : Instruction} {w : Word} (hnumbers : i.numbers = [])
    (haliased : ¬i.Aliased) (h : i.encode = .ok w) :
    (∃ w, i.encode = .ok w) ↔ i.Fits ∧ ¬i.Aliased :=
  ⟨fun _ => ⟨fits_of_numbers_eq_nil hnumbers, haliased⟩, fun _ => ⟨w, h⟩⟩

/-- An instruction that is packed from its number has a word if the number fits. -/
theorem exists_encode_of_numbers_eq {i : Instruction} {f : Field} {n : Int} {pack : Nat → Word}
    (hnumbers : i.numbers = [(f, n)]) (haliased : ¬i.Aliased)
    (h : i.encode = (f.insert n).map pack) :
    (∃ w, i.encode = .ok w) ↔ i.Fits ∧ ¬i.Aliased := by
  rw [h, Field.exists_map_insert_iff, fits_iff_of_numbers_eq hnumbers]
  exact ⟨fun hn => ⟨hn, haliased⟩, fun hn => hn.1⟩

/-- An instruction has a word exactly if its numbers fit and its spelling is not taken. -/
theorem exists_encode_iff (i : Instruction) :
    (∃ w, i.encode = .ok w) ↔ i.Fits ∧ ¬i.Aliased := by
  cases i with
  | operate op dr sr1 argument =>
    cases argument with
    | register sr2 => exact exists_encode_of_numbers_eq_nil rfl (by simp [Aliased]) rfl
    | immediate imm5 =>
      by_cases h : op = .xor ∧ imm5 = -1
      · have haliased : (operate op dr sr1 (.immediate imm5)).Aliased := by
          rw [h.1, h.2]
          exact Or.inl ⟨dr, sr1, rfl⟩
        have herror : ¬∃ w, (operate op dr sr1 (.immediate imm5)).encode = .ok w := by
          rintro ⟨w, hw⟩
          rw [encode, if_pos h] at hw
          cases hw
        exact ⟨fun hw => (herror hw).elim, fun hi => (hi.2 haliased).elim⟩
      · refine exists_encode_of_numbers_eq rfl ?_ (if_neg h)
        rintro (⟨_, _, heq⟩ | heq)
        · cases heq
          exact h ⟨rfl, rfl⟩
        · cases heq
  | not dr sr => exact exists_encode_of_numbers_eq_nil rfl (by simp [Aliased]) rfl
  | branch condition offset9 => exact exists_encode_of_numbers_eq rfl (by simp [Aliased]) rfl
  | jump base =>
    by_cases h : base = .link
    · have haliased : (jump base).Aliased := Or.inr (h ▸ rfl)
      have herror : ¬∃ w, (jump base).encode = .ok w := by
        rintro ⟨w, hw⟩
        rw [encode, if_pos h] at hw
        cases hw
      exact ⟨fun hw => (herror hw).elim, fun hi => (hi.2 haliased).elim⟩
    · refine exists_encode_of_numbers_eq_nil rfl ?_ (if_neg h)
      rintro (⟨_, _, heq⟩ | heq)
      · cases heq
      · cases heq
        exact h rfl
  | ret => exact exists_encode_of_numbers_eq_nil rfl (by simp [Aliased]) rfl
  | call offset11 => exact exists_encode_of_numbers_eq rfl (by simp [Aliased]) rfl
  | callRegister base => exact exists_encode_of_numbers_eq_nil rfl (by simp [Aliased]) rfl
  | load access dr base offset6 => exact exists_encode_of_numbers_eq rfl (by simp [Aliased]) rfl
  | store access sr base offset6 => exact exists_encode_of_numbers_eq rfl (by simp [Aliased]) rfl
  | loadAddress dr offset9 => exact exists_encode_of_numbers_eq rfl (by simp [Aliased]) rfl
  | shift direction dr sr amount4 => exact exists_encode_of_numbers_eq rfl (by simp [Aliased]) rfl
  | returnFromInterrupt => exact exists_encode_of_numbers_eq_nil rfl (by simp [Aliased]) rfl
  | trap vector => exact exists_encode_of_numbers_eq rfl (by simp [Aliased]) rfl

/-- A word encodes an instruction if and only if it decodes to it. -/
theorem encode_eq_ok_iff {i : Instruction} {w : Word} : i.encode = .ok w ↔ decode w = .ok i := by
  rw [decode_eq_ok_iff]
  exact ⟨decode?_of_encode, encode_of_decode?⟩

/-- The field that is reported is that of the number. -/
theorem map_insert_eq_fieldOutOfRange_iff {f g : Field} {n k : Int} {pack : Nat → Word} :
    (g.insert k).map pack = .error (.fieldOutOfRange f n) ↔
      (f, n) ∈ [(g, k)] ∧ f.contains n = false := by
  rw [Field.map_insert_eq_error_iff, EncodeError.fieldOutOfRange.injEq, List.mem_singleton,
    Prod.mk.injEq]
  constructor
  · rintro ⟨hk, rfl, rfl⟩
    exact ⟨⟨rfl, rfl⟩, hk⟩
  · rintro ⟨⟨rfl, rfl⟩, hk⟩
    exact ⟨hk, rfl, rfl⟩

/-- A number that is out of range is reported with its field, and nothing else is. -/
theorem encode_eq_fieldOutOfRange_iff {i : Instruction} {f : Field} {n : Int} :
    i.encode = .error (.fieldOutOfRange f n) ↔ (f, n) ∈ i.numbers ∧ f.contains n = false := by
  cases i with
  | operate op dr sr1 argument =>
    cases argument with
    | register sr2 => exact iff_of_false (by rintro ⟨⟩) (by rintro ⟨⟨⟩, _⟩)
    | immediate imm5 =>
      by_cases h : op = .xor ∧ imm5 = -1
      · rw [encode, if_pos h, numbers, List.mem_singleton]
        refine iff_of_false (by rintro ⟨⟩) ?_
        rintro ⟨hn, hcontains⟩
        cases hn
        rw [h.2] at hcontains
        cases hcontains
      · rw [encode, if_neg h]
        exact map_insert_eq_fieldOutOfRange_iff
  | jump base =>
    rw [encode]
    split
    · exact iff_of_false (by rintro ⟨⟩) (by rintro ⟨⟨⟩, _⟩)
    · exact iff_of_false (by rintro ⟨⟩) (by rintro ⟨⟨⟩, _⟩)
  | not | ret | callRegister | returnFromInterrupt =>
    exact iff_of_false (by rintro ⟨⟩) (by rintro ⟨⟨⟩, _⟩)
  | branch | call | load | store | loadAddress | shift | trap =>
    exact map_insert_eq_fieldOutOfRange_iff

/-- The instructions that have a word are those whose numbers fit and whose spelling is not taken,
an instruction is read from a word exactly if it is written as that word, and so two instructions
never have the same word. -/
theorem encode_inverse_decode (i j : Instruction) (w : Word) :
    ((∃ w, i.encode = .ok w) ↔ i.Fits ∧ ¬i.Aliased) ∧ (i.encode = .ok w ↔ decode w = .ok i) ∧
      (i ≠ j → i.encode = .ok w → j.encode ≠ .ok w) := by
  refine ⟨exists_encode_iff i, encode_eq_ok_iff, ?_⟩
  intro hne hi hj
  have hi : decode w = .ok i := encode_eq_ok_iff.1 hi
  have hj : decode w = .ok j := encode_eq_ok_iff.1 hj
  exact hne (Except.ok.inj (hi.symm.trans hj))

/-- `NOT` does not share its word with an exclusive or that differs from it in the number alone. -/
theorem encode_inverse_decode_not :
    Instruction.not 1 2 ≠ .operate .xor 1 2 (.immediate (-16)) ∧
      (Instruction.not 1 2).encode = .ok 0x92BF ∧
      (Instruction.operate .xor 1 2 (.immediate (-16))).encode ≠ .ok 0x92BF := by
  have hne : Instruction.not 1 2 ≠ .operate .xor 1 2 (.immediate (-16)) := by decide
  have hnot : (Instruction.not 1 2).encode = .ok 0x92BF := by decide
  exact ⟨hne, hnot, (encode_inverse_decode _ _ _).2.2 hne hnot⟩

end Instruction

end LittleComputer
