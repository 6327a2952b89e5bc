import LittleComputer.Machine.InPlace
import LittleComputer.Proofs.Assembly.Resolve
import LittleComputer.Proofs.Instruction.Inverse
import Mathlib

/-!
# Which operands are accepted

The numbers of a line are checked when its operands are resolved, and once more when the instruction
is encoded. The two agree. Whatever is resolved can be encoded, so the second check never fails, and
a number is refused by the first for the reason that the second would have had. Of two instructions
with the same effect one is always resolved to the other, which has a word.
-/

namespace LittleComputer

namespace Assembly

open Source

variable {name : String} {operands : List Operand} {field : Field} {operand : Operand} {n : Int}

/-! ## Numbers that are accepted -/

/-- A number that a field holds has its bits in a word. -/
theorem exists_map_insert {pack : Nat → Word} (h : field.contains n = true) :
    ∃ w, (field.insert n).map pack = .ok w :=
  Field.exists_map_insert_iff.2 (Field.contains_iff.1 h)

/-- A field of unsigned numbers holds a number as it is. -/
theorem contains_toNat (hfield : field.signed = false) (h : field.contains n = true) :
    field.contains n.toNat = true := by
  have hmin := (Field.contains_iff.1 h).1
  rw [Field.min, hfield] at hmin
  rw [Int.toNat_of_nonneg hmin]
  exact h

/-- A number that is taken fits its field. -/
theorem contains_of_immediateOf (h : immediateOf field operand = .ok n) :
    field.contains n = true := by
  cases operand with
  | number k => exact (Scope.check_eq_ok_iff.1 h).2
  | register | label | string => cases h

/-- A distance that is taken fits its field. -/
theorem contains_of_displacementOf (h : displacementOf field operand = .ok n) :
    field.contains n = true := by
  cases operand with
  | number k => exact (Scope.check_eq_ok_iff.1 h).2
  | register | label | string => cases h

namespace Scope

variable {s : Scope} {i : Instruction} {mnemonic : Mnemonic}

/-- A distance to a target fits its field. -/
theorem contains_of_offset (h : s.offset field operand = .ok n) : field.contains n = true := by
  cases operand with
  | number k => exact (offset_number_eq_ok_iff.1 h).2
  | label name => exact (offset_label_eq_ok_iff.1 h).2
  | register | string => cases h

/-- A number in place of a register fits five bits. -/
theorem contains_of_argument (h : argument operand = .ok (.immediate n)) :
    Field.imm5.contains n = true := by
  cases operand with
  | register => cases h
  | number | label | string =>
    obtain ⟨k, hk, h⟩ := Except.bind_eq_ok_iff.1 h
    cases h
    exact contains_of_immediateOf hk

/-- Every number has been checked for its field, and neither of the spellings that have no word is
left. -/
theorem exists_encode_of_resolve (h : s.resolve name operands mnemonic = .ok i) :
    ∃ w, i.encode = .ok w := by
  cases mnemonic with
  | operate op =>
    obtain ⟨⟨dr, sr1, second⟩, _, h⟩ := Except.bind_eq_ok_iff.1 h
    obtain ⟨dr, _, h⟩ := Except.bind_eq_ok_iff.1 h
    obtain ⟨sr1, _, h⟩ := Except.bind_eq_ok_iff.1 h
    obtain ⟨second, hsecond, h⟩ := Except.bind_eq_ok_iff.1 h
    split at h
    · cases h
      exact ⟨_, rfl⟩
    · rename_i hnot
      cases h
      cases second with
      | register sr2 => exact ⟨_, rfl⟩
      | immediate imm5 =>
        rw [Instruction.encode, if_neg fun himm5 => hnot ⟨himm5.1, congrArg _ himm5.2⟩]
        exact exists_map_insert (contains_of_argument hsecond)
  | not =>
    obtain ⟨⟨dr, sr⟩, _, h⟩ := Except.bind_eq_ok_iff.1 h
    obtain ⟨dr, _, h⟩ := Except.bind_eq_ok_iff.1 h
    obtain ⟨sr, _, h⟩ := Except.bind_eq_ok_iff.1 h
    cases h
    exact ⟨_, rfl⟩
  | branch condition =>
    obtain ⟨target, n, _, hn, rfl⟩ := resolve_branch_eq_ok_iff.1 h
    exact exists_map_insert (contains_of_offset hn)
  | jump =>
    obtain ⟨_, _, h⟩ := Except.bind_eq_ok_iff.1 h
    obtain ⟨base, _, h⟩ := Except.bind_eq_ok_iff.1 h
    split at h
    · cases h
      exact ⟨_, rfl⟩
    · rename_i hbase
      cases h
      exact ⟨_, if_neg hbase⟩
  | nop | ret | returnFromInterrupt =>
    obtain ⟨_, _, h⟩ := Except.bind_eq_ok_iff.1 h
    cases h
    exact ⟨_, rfl⟩
  | call =>
    obtain ⟨target, n, _, hn, rfl⟩ := resolve_call_eq_ok_iff.1 h
    exact exists_map_insert (contains_of_offset hn)
  | callRegister =>
    obtain ⟨_, _, h⟩ := Except.bind_eq_ok_iff.1 h
    obtain ⟨base, _, h⟩ := Except.bind_eq_ok_iff.1 h
    cases h
    exact ⟨_, rfl⟩
  | load access | store access =>
    obtain ⟨⟨register, base, offset6⟩, _, h⟩ := Except.bind_eq_ok_iff.1 h
    obtain ⟨register, _, h⟩ := Except.bind_eq_ok_iff.1 h
    obtain ⟨base, _, h⟩ := Except.bind_eq_ok_iff.1 h
    obtain ⟨n, hn, h⟩ := Except.bind_eq_ok_iff.1 h
    cases h
    exact exists_map_insert (contains_of_displacementOf hn)
  | loadAddress =>
    obtain ⟨dr, target, n, _, hn, rfl⟩ := resolve_loadAddress_eq_ok_iff.1 h
    exact exists_map_insert (contains_of_offset hn)
  | shift direction =>
    obtain ⟨⟨dr, sr, amount4⟩, _, h⟩ := Except.bind_eq_ok_iff.1 h
    obtain ⟨dr, _, h⟩ := Except.bind_eq_ok_iff.1 h
    obtain ⟨sr, _, h⟩ := Except.bind_eq_ok_iff.1 h
    obtain ⟨n, hn, h⟩ := Except.bind_eq_ok_iff.1 h
    cases h
    exact exists_map_insert (contains_toNat rfl (contains_of_immediateOf hn))
  | trap =>
    obtain ⟨vector, _, h⟩ := Except.bind_eq_ok_iff.1 h
    obtain ⟨n, hn, h⟩ := Except.bind_eq_ok_iff.1 h
    cases h
    exact exists_map_insert (contains_toNat rfl (contains_of_immediateOf hn))
  | service routine =>
    obtain ⟨_, _, h⟩ := Except.bind_eq_ok_iff.1 h
    cases h
    cases routine <;> exact ⟨_, rfl⟩

/-! ## Numbers that are refused -/

/-- Whether the last operand of a line is a number, for which there is a field in the instruction
that the line is written for. The instruction has all of the number, however large it is. -/
inductive WritesNumber : Mnemonic → List Operand → Instruction → Prop
  | operate (op : Operation) (dr sr1 : Register) (n : Int) :
    WritesNumber (.operate op) [.register dr, .register sr1, .number n]
      (.operate op dr sr1 (.immediate n))
  | branch (condition : Condition) (n : Int) :
    WritesNumber (.branch condition) [.number n] (.branch condition n)
  | call (n : Int) : WritesNumber .call [.number n] (.call n)
  | load (access : Access) (dr base : Register) (n : Int) :
    WritesNumber (.load access) [.register dr, .register base, .number n]
      (.load access dr base n)
  | store (access : Access) (sr base : Register) (n : Int) :
    WritesNumber (.store access) [.register sr, .register base, .number n]
      (.store access sr base n)
  | loadAddress (dr : Register) (n : Int) :
    WritesNumber .loadAddress [.register dr, .number n] (.loadAddress dr n)
  | shift (direction : Shift) (dr sr : Register) (n : Nat) :
    WritesNumber (.shift direction) [.register dr, .register sr, .number n]
      (.shift direction dr sr n)
  | trap (n : Nat) : WritesNumber .trap [.number n] (.trap n)

/-- A number for a field, or what is reported if the field cannot hold it. -/
def checked (field : Field) (n : Int) : Except Cause Int :=
  if field.contains n then .ok n else .error (.ofEncodeError (.fieldOutOfRange field n))

/-- A number is checked for its range. -/
theorem immediateOf_eq_checked (hfield : field ∉ Cause.offsetFields) :
    immediateOf field (.number n) = checked field n := by
  rw [immediateOf, checked, Cause.ofEncodeError, if_neg hfield]

/-- A distance is checked for the reach of its field. -/
theorem displacementOf_eq_checked (hfield : field ∈ Cause.offsetFields) :
    displacementOf field (.number n) = checked field n := by
  rw [displacementOf, checked, Cause.ofEncodeError, if_pos hfield]

/-- A number in place of a target is checked for the reach of its field. -/
theorem offset_eq_checked (hfield : field ∈ Cause.offsetFields) :
    s.offset field (.number n) = checked field n := by
  rw [checked, Cause.ofEncodeError, if_pos hfield]
  rfl

/-- The check of a number is the only step of a resolution that can fail. -/
theorem checked_bind_eq_error_iff (hnumbers : i.numbers = [(field, n)]) {cause : Cause}
    {next : Int → Except Cause Instruction} (hnext : ∀ k, ∃ j, next k = .ok j) :
    (checked field n >>= next) = .error cause ↔
      ∃ f k, i.encode = .error (.fieldOutOfRange f k) ∧
        cause = .ofEncodeError (.fieldOutOfRange f k) := by
  simp only [Instruction.encode_eq_fieldOutOfRange_iff, hnumbers, List.mem_singleton,
    Prod.mk.injEq]
  rw [checked]
  cases hcontains : field.contains n with
  | true =>
    obtain ⟨j, hj⟩ := hnext n
    rw [if_pos rfl, Except.ok_bind, hj]
    refine iff_of_false nofun ?_
    rintro ⟨f, k, ⟨⟨rfl, rfl⟩, hfalse⟩, _⟩
    rw [hcontains] at hfalse
    cases hfalse
  | false =>
    rw [if_neg Bool.false_ne_true, Except.error_bind, Except.error.injEq]
    constructor
    · rintro rfl
      exact ⟨field, n, ⟨⟨rfl, rfl⟩, hcontains⟩, rfl⟩
    · rintro ⟨f, k, ⟨⟨rfl, rfl⟩, _⟩, rfl⟩
      rfl

/-- A number is refused exactly if it is out of the range of its field, and for that. -/
theorem resolve_eq_error_iff (h : WritesNumber mnemonic operands i) {cause : Cause} :
    s.resolve name operands mnemonic = .error cause ↔
      ∃ f k, i.encode = .error (.fieldOutOfRange f k) ∧
        cause = .ofEncodeError (.fieldOutOfRange f k) := by
  cases h with
  | operate op dr sr1 n =>
    change (immediateOf .imm5 (.number n) >>= fun k => pure (Argument.immediate k)) >>= _ = _ ↔ _
    rw [immediateOf_eq_checked (by decide), bind_assoc]
    refine checked_bind_eq_error_iff rfl fun k => ?_
    by_cases hnot : op = .xor ∧ Argument.immediate k = .immediate (-1)
    · exact ⟨.not dr sr1, if_pos hnot⟩
    · exact ⟨.operate op dr sr1 (.immediate k), if_neg hnot⟩
  | branch condition n =>
    change s.offset .pcOffset9 (.number n) >>= _ = _ ↔ _
    rw [offset_eq_checked (by decide)]
    exact checked_bind_eq_error_iff rfl fun k => ⟨_, rfl⟩
  | call n =>
    change s.offset .pcOffset11 (.number n) >>= _ = _ ↔ _
    rw [offset_eq_checked (by decide)]
    exact checked_bind_eq_error_iff rfl fun k => ⟨_, rfl⟩
  | load access dr base n | store access dr base n =>
    change displacementOf .offset6 (.number n) >>= _ = _ ↔ _
    rw [displacementOf_eq_checked (by decide)]
    exact checked_bind_eq_error_iff rfl fun k => ⟨_, rfl⟩
  | loadAddress dr n =>
    change s.offset .pcOffset9 (.number n) >>= _ = _ ↔ _
    rw [offset_eq_checked (by decide)]
    exact checked_bind_eq_error_iff rfl fun k => ⟨_, rfl⟩
  | shift direction dr sr n =>
    change immediateOf .amount4 (.number n) >>= _ = _ ↔ _
    rw [immediateOf_eq_checked (by decide)]
    exact checked_bind_eq_error_iff rfl fun k => ⟨_, rfl⟩
  | trap n =>
    change immediateOf .trapVector8 (.number n) >>= _ = _ ↔ _
    rw [immediateOf_eq_checked (by decide)]
    exact checked_bind_eq_error_iff rfl fun k => ⟨_, rfl⟩

end Scope

end Assembly

/-- All bits are set in `-1`, so an exclusive or with it inverts. -/
theorem Machine.executeInPlace_not (r : Registers) (dr sr : Register) :
    executeInPlace r (.not dr sr) =
      executeInPlace r (.operate .xor dr sr (.immediate (-1))) := by
  have hones : (BitVec.ofInt 16 (-1) : Word) = BitVec.allOnes 16 := by decide
  rw [executeInPlace, executeInPlace, Argument.value, Operation.apply, hones, BitVec.xor_allOnes]

namespace Assembly

open Source

/-- Operands are accepted if and only if the instruction can be encoded. What is resolved has a
word, which is decoded to the same instruction. A number is refused exactly if the instruction with
that number in it is out of range, with the cause that is reported for that. An exclusive or with
`-1` and a jump to `R7` are resolved to instructions that do the same to every machine. -/
theorem Scope.operands_agree (s : Scope) (name : String) (operands : List Operand) :
    (∀ i, s.instruction name operands = .ok i →
      ∃ w, i.encode = .ok w ∧ Instruction.decode w = .ok i ∧
        s.instructionWord name operands = .ok w) ∧
    (∀ mnemonic i, Mnemonic.ofName? name = some mnemonic → WritesNumber mnemonic operands i →
      ∀ cause, s.instruction name operands = .error cause ↔
        ∃ f k, i.encode = .error (.fieldOutOfRange f k) ∧
          cause = .ofEncodeError (.fieldOutOfRange f k)) ∧
    (Mnemonic.ofName? name = some (.operate .xor) → ∀ dr sr,
      s.instruction name [.register dr, .register sr, .number (-1)] = .ok (.not dr sr) ∧
      ∀ r, Machine.executeInPlace r (.not dr sr) =
        Machine.executeInPlace r (.operate .xor dr sr (.immediate (-1)))) ∧
    (Mnemonic.ofName? name = some .jump →
      s.instruction name [.register .link] = .ok .ret ∧
      ∀ r, Machine.executeInPlace r .ret = Machine.executeInPlace r (.jump .link)) := by
  refine ⟨fun i hi => ?_, fun mnemonic i hname hwrites cause => ?_, fun hname dr sr => ⟨?_, ?_⟩,
    fun hname => ⟨?_, fun r => rfl⟩⟩
  · rw [instruction] at hi
    cases hname : Mnemonic.ofName? name with
    | none =>
      rw [hname] at hi
      cases hi
    | some mnemonic =>
      rw [hname] at hi
      obtain ⟨w, hw⟩ := exists_encode_of_resolve hi
      exact ⟨w, hw, Instruction.encode_eq_ok_iff.1 hw,
        instructionWord_eq_ok_iff.2 ⟨mnemonic, i, hname, hi, hw⟩⟩
  · rw [instruction, hname]
    exact resolve_eq_error_iff hwrites
  · rw [instruction, hname]
    rfl
  · exact fun r => Machine.executeInPlace_not r dr sr
  · rw [instruction, hname]
    rfl

/-- `XOR` with `-1` is taken for `NOT`, and with `-17` it has no word. -/
theorem Scope.operands_agree_xor :
    let s : Scope := ⟨[], programStart⟩
    Mnemonic.ofName? "xor" = some (.operate .xor) ∧
      s.instruction "xor" [.register 1, .register 2, .number (-1)] = .ok (.not 1 2) ∧
      s.instructionWord "xor" [.register 1, .register 2, .number (-1)] = .ok 0x92BF ∧
      s.instruction "xor" [.register 1, .register 2, .number (-17)] =
        .error (.immediateOutOfRange (-17) (-16) 15) ∧
      Mnemonic.ofName? "Jmp" = some .jump ∧
      s.instruction "Jmp" [.register .link] = .ok .ret := by
  intro s
  have hxor : Mnemonic.ofName? "xor" = some (.operate .xor) := by decide +kernel
  have hjump : Mnemonic.ofName? "Jmp" = some .jump := by decide +kernel
  obtain ⟨_, _, hnot, _⟩ := s.operands_agree "xor" []
  obtain ⟨hresolved, _⟩ := hnot hxor 1 2
  obtain ⟨hencodes, _⟩ := s.operands_agree "xor" [.register 1, .register 2, .number (-1)]
  obtain ⟨w, hw, _, hword⟩ := hencodes _ hresolved
  have hvalue : (Instruction.not 1 2).encode = .ok 0x92BF := by decide
  cases hw.symm.trans hvalue
  obtain ⟨_, hrefuses, _⟩ := s.operands_agree "xor" [.register 1, .register 2, .number (-17)]
  have hcause := (hrefuses _ _ hxor (.operate .xor 1 2 (-17)) _).2
    ⟨.imm5, -17, by decide, rfl⟩
  obtain ⟨_, _, _, hret⟩ := s.operands_agree "Jmp" []
  exact ⟨hxor, hresolved, hword, hcause, hjump, (hret hjump).1⟩

end Assembly

end LittleComputer
