import LittleComputer.Instruction.Decode
import Mathlib

/-!
# Words and instructions are two forms of one thing

Encoding and decoding are inverse to each other: `decode?_of_encode` reads back every instruction
that has a word, and `encode_of_decode?` writes every word that has an instruction. Both come down
to two facts: the parts of a packed word are the parts that it was packed from, and a field holds
every number that fits it.
-/

namespace LittleComputer

namespace Field

/-! ## Numbers in fields -/

variable {f : Field}

/-- A field of some bits has a power of two of values. -/
theorem size_eq_two_pow : f.size = 2 ^ f.bits := Nat.one_shiftLeft f.bits

/-- The highest bit has half of that. -/
theorem signBit_eq_two_pow : f.signBit = 2 ^ (f.bits - 1) := Nat.one_shiftLeft (f.bits - 1)

/-- The highest bit is not zero. -/
theorem signBit_pos : 0 < f.signBit := by
  rw [signBit_eq_two_pow]
  exact Nat.two_pow_pos _

/-- A field has values. -/
theorem size_pos : 0 < f.size := by
  rw [size_eq_two_pow]
  exact Nat.two_pow_pos _

/-- A field has twice as many values as its highest bit tells. -/
theorem size_eq_two_mul_signBit (hf : 0 < f.bits) : f.size = 2 * f.signBit := by
  rw [size_eq_two_pow, signBit_eq_two_pow, ← pow_succ', Nat.sub_add_cancel hf]

/-- What is put into a field does not run over into the next one. -/
theorem lt_of_insert? {value : Int} {n : Nat} (h : f.insert? value = some n) : n < f.size := by
  obtain ⟨-, rfl⟩ := insert?_eq_some_iff.1 h
  have hpos : (0 : Int) < f.size := Int.ofNat_lt.2 f.size_pos
  have hlt : value % f.size < f.size := Int.emod_lt_of_pos value hpos
  have hnonneg : 0 ≤ value % f.size := Int.emod_nonneg value hpos.ne'
  omega

/-- A word with the bits of a number in a field has that number there. -/
theorem extract_insert (hf : 0 < f.bits) {value : Int} {n : Nat} (h : f.insert? value = some n)
    {w : Word} (hw : w.toNat % f.size = n) : f.extract w = value := by
  obtain ⟨hc, rfl⟩ := insert?_eq_some_iff.1 h
  obtain ⟨hmin, hmax⟩ := contains_iff.1 hc
  have hp : f.size = 2 * f.signBit := size_eq_two_mul_signBit hf
  have hpos : 0 < f.signBit := f.signBit_pos
  have hraw : ((w.toNat % f.size : Nat) : Int) = value % f.size := by
    rw [hw]
    exact Int.toNat_of_nonneg (Int.emod_nonneg value (Int.ofNat_ne_zero.2 f.size_pos.ne'))
  have hhalf : (f.signBit ≤ w.toNat % f.size) ↔ (f.signBit : Int) ≤ value % f.size := by
    rw [← hraw]
    norm_cast
  unfold min max at *
  simp only [extract, Bool.and_eq_true, decide_eq_true_eq, hhalf, hraw]
  cases hs : f.signed <;> simp only [hs, if_true, if_false, Bool.false_eq_true, false_and,
    true_and] at hmin hmax ⊢
  · exact Int.emod_eq_of_lt hmin (by omega)
  · by_cases hv : 0 ≤ value
    · rw [Int.emod_eq_of_lt hv (by omega), if_neg (by omega)]
    · have hmod : value % f.size = value + f.size := by
        rw [← Int.add_emod_right, Int.emod_eq_of_lt (by omega) (by omega)]
      rw [hmod, if_pos (by omega)]
      omega

/-- The number that a word has in a field fits the field, and has those bits. -/
theorem insert?_extract (hf : 0 < f.bits) (w : Word) :
    f.insert? (f.extract w) = some (w.toNat % f.size) := by
  have hp : f.size = 2 * f.signBit := size_eq_two_mul_signBit hf
  have hpos : 0 < f.signBit := f.signBit_pos
  have hlt : w.toNat % f.size < f.size := Nat.mod_lt w.toNat f.size_pos
  rw [insert?_eq_some_iff, contains_iff]
  simp only [extract, min, max, Bool.and_eq_true, decide_eq_true_eq]
  generalize w.toNat % f.size = r at hlt ⊢
  have hmod : (r : Int) % f.size = r := Int.emod_eq_of_lt (by omega) (by omega)
  have hmod' : ((r : Int) - f.size) % f.size = r := by
    rw [Int.sub_emod_right, hmod]
  cases hs : f.signed <;> simp only [if_true, if_false, Bool.false_eq_true, false_and, true_and]
  · rw [hmod]
    omega
  · split
    · rw [hmod']
      omega
    · rw [hmod]
      omega

/-- A field without a sign holds no negative number. -/
theorem toNat_extract (hf : f.signed = false) (w : Word) :
    ((f.extract w).toNat : Int) = f.extract w := by
  simp only [extract, hf, Bool.false_and, Bool.false_eq_true, if_false, Int.toNat_natCast]

/-- A word has a number in its field if the field can hold it. -/
theorem map_insert_eq_ok_iff {value : Int} {pack : Nat → Word} {w : Word} :
    (f.insert value).map pack = .ok w ↔ ∃ n, f.insert? value = some n ∧ pack n = w := by
  unfold insert
  cases f.insert? value <;> simp [Except.map]

end Field

namespace Word

/-! ## Parts of a packed word -/

/-- Parts that are in their places do not overlap. -/
theorem toNat_pack {opcode first second operand : Nat}
    (h : opcode * 4096 + first * 512 + second * 64 + operand < 65536) :
    (pack opcode first second operand).toNat =
      opcode * 4096 + first * 512 + second * 64 + operand := by
  rw [pack, BitVec.toNat_ofNat, Nat.mod_eq_of_lt h]

section

variable {o f s x : Nat} (ho : o < 16) (hf : f < 8) (hs : s < 8) (hx : x < 64)
include ho hf hs hx

/-- The opcode that was packed. -/
theorem opcode_pack : (pack o f s x).opcode = o := by
  rw [opcode, toNat_pack (by omega)]
  omega

/-- The first register that was packed. -/
theorem first_pack : (pack o f s x).first = f := by
  rw [first, toNat_pack (by omega)]
  omega

/-- The second register that was packed. -/
theorem second_pack : (pack o f s x).second = s := by
  rw [second, toNat_pack (by omega)]
  omega

/-- The last six bits that were packed. -/
theorem operand_pack : (pack o f s x).operand = x := by
  rw [operand, toNat_pack (by omega)]
  omega

end

section

variable {o f n : Nat} (ho : o < 16) (hf : f < 8) (hn : n < 512)
include ho hf hn

/-- An operand of nine bits takes up the second register field as well. -/
theorem opcode_pack_wide : (pack o f 0 n).opcode = o := by
  rw [opcode, toNat_pack (by omega)]
  omega

/-- The first register that was packed with nine bits after it. -/
theorem first_pack_wide : (pack o f 0 n).first = f := by
  rw [first, toNat_pack (by omega)]
  omega

/-- The nine bits that were packed. -/
theorem toNat_pack_wide_mod : (pack o f 0 n).toNat % 512 = n := by
  rw [toNat_pack (by omega)]
  omega

end

/-- A word is packed from its parts. -/
theorem pack_parts (w : Word) : pack w.opcode w.first w.second w.operand = w := by
  apply BitVec.eq_of_toNat_eq
  have := w.isLt
  unfold opcode first second operand
  rw [toNat_pack (by omega)]
  omega

end Word

namespace Register

/-- A number below eight is that of a register. -/
theorem ofBits_of_lt {n : Nat} (h : n < 8) : (ofBits n : Nat) = n := Nat.mod_eq_of_lt h

/-- The first register of a word has the number that is there. -/
@[simp] theorem ofBits_first (w : Word) : (ofBits w.first : Nat) = w.first :=
  ofBits_of_lt (Nat.mod_lt _ (by decide))

/-- The second register of a word has the number that is there. -/
@[simp] theorem ofBits_second (w : Word) : (ofBits w.second : Nat) = w.second :=
  ofBits_of_lt (Nat.mod_lt _ (by decide))

end Register

namespace Instruction

/-! ## Decoding by opcode -/

section

variable {w : Word}

/-- The opcode of an operation leads to its decoding. -/
theorem decode?_operation (op : Operation) (h : w.opcode = op.opcode) :
    decode? w = decodeOperation op w := by
  cases op <;> simp [decode?, h, Operation.opcode]

/-- The opcode of a load leads to its decoding. -/
theorem decode?_load (access : Access) (h : w.opcode = access.loadOpcode) :
    decode? w = some (.load access (.ofBits w.first) (.ofBits w.second)
      (Field.offset6.extract w)) := by
  cases access <;> simp [decode?, h, Access.loadOpcode]

/-- The opcode of a store leads to its decoding. -/
theorem decode?_store (access : Access) (h : w.opcode = access.storeOpcode) :
    decode? w = some (.store access (.ofBits w.first) (.ofBits w.second)
      (Field.offset6.extract w)) := by
  cases access <;> simp [decode?, h, Access.storeOpcode]

/-- The two bits after the registers tell the direction of a shift. -/
theorem decodeShift_mode (direction : Shift) (h : w.operand / 16 = direction.mode) :
    decodeShift w = some (.shift direction (.ofBits w.first) (.ofBits w.second)
      (Field.amount4.extract w).toNat) := by
  cases direction <;> simp [decodeShift, h, Shift.mode]

end

/-! ## Reading back what was encoded -/

section

variable {op : Operation} {dr sr1 : Register}

/-- An operation on registers is read back. -/
theorem decodeOperation_register (sr2 : Register) :
    decodeOperation op (.pack op.opcode dr sr1 sr2) =
      some (.operate op dr sr1 (.register sr2)) := by
  have ho : op.opcode < 16 := op.opcode_lt
  have hx : (sr2 : Nat) < 64 := by omega
  rw [decodeOperation, Word.operand_pack ho dr.isLt sr1.isLt hx,
    Word.first_pack ho dr.isLt sr1.isLt hx, Word.second_pack ho dr.isLt sr1.isLt hx]
  simp [show ¬32 ≤ (sr2 : Nat) by omega]

/-- An operation with a number is read back, but for the spelling that stands for `NOT`. -/
theorem decodeOperation_immediate {imm5 : Int} {n : Nat} (h : Field.imm5.insert? imm5 = some n) :
    decodeOperation op (.pack op.opcode dr sr1 (32 + n)) =
      if op = .xor ∧ imm5 = -1 then some (.not dr sr1)
      else some (.operate op dr sr1 (.immediate imm5)) := by
  have ho : op.opcode < 16 := op.opcode_lt
  have hn : n < 32 := Field.lt_of_insert? h
  have hx : 32 + n < 64 := by omega
  have hi : Field.imm5.extract (.pack op.opcode dr sr1 (32 + n)) = imm5 := by
    refine Field.extract_insert (by decide) h ?_
    rw [Word.toNat_pack (by omega)]
    simp only [Field.size_eq_two_pow, Field.imm5]
    omega
  rw [decodeOperation, Word.operand_pack ho dr.isLt sr1.isLt hx,
    Word.first_pack ho dr.isLt sr1.isLt hx, Word.second_pack ho dr.isLt sr1.isLt hx, hi]
  simp

end

/-- Opcode, register and a distance of nine bits are read back. -/
theorem parts_pack_offset9 {o : Nat} {r : Nat} {offset9 : Int} {n : Nat} (ho : o < 16)
    (hr : r < 8) (h : Field.pcOffset9.insert? offset9 = some n) :
    (Word.pack o r 0 n).opcode = o ∧ (Word.pack o r 0 n).first = r ∧
      Field.pcOffset9.extract (.pack o r 0 n) = offset9 := by
  have hn : n < 512 := Field.lt_of_insert? h
  exact ⟨Word.opcode_pack_wide ho hr hn, Word.first_pack_wide ho hr hn,
    Field.extract_insert (by decide) h (Word.toNat_pack_wide_mod ho hr hn)⟩

/-- A distance of six bits is read back. -/
theorem extract_offset6_pack {o : Nat} {r base : Register} {offset6 : Int} {n : Nat} (ho : o < 16)
    (h : Field.offset6.insert? offset6 = some n) :
    Field.offset6.extract (.pack o r base n) = offset6 := by
  have hn : n < 64 := Field.lt_of_insert? h
  refine Field.extract_insert (by decide) h ?_
  rw [Word.toNat_pack (by omega)]
  simp only [Field.size_eq_two_pow, Field.offset6]
  omega

/-- A load is read back. -/
theorem decode?_pack_load {access : Access} {dr base : Register} {offset6 : Int} {n : Nat}
    (h : Field.offset6.insert? offset6 = some n) :
    decode? (.pack access.loadOpcode dr base n) = some (.load access dr base offset6) := by
  have ho : access.loadOpcode < 16 := access.loadOpcode_lt
  have hn : n < 64 := Field.lt_of_insert? h
  rw [decode?_load access (Word.opcode_pack ho dr.isLt base.isLt hn), extract_offset6_pack ho h,
    Word.first_pack ho dr.isLt base.isLt hn, Word.second_pack ho dr.isLt base.isLt hn]
  simp

/-- A store is read back. -/
theorem decode?_pack_store {access : Access} {sr base : Register} {offset6 : Int} {n : Nat}
    (h : Field.offset6.insert? offset6 = some n) :
    decode? (.pack access.storeOpcode sr base n) = some (.store access sr base offset6) := by
  have ho : access.storeOpcode < 16 := access.storeOpcode_lt
  have hn : n < 64 := Field.lt_of_insert? h
  rw [decode?_store access (Word.opcode_pack ho sr.isLt base.isLt hn), extract_offset6_pack ho h,
    Word.first_pack ho sr.isLt base.isLt hn, Word.second_pack ho sr.isLt base.isLt hn]
  simp

/-- A shift is read back. -/
theorem decode?_pack_shift {direction : Shift} {dr sr : Register} {amount4 n : Nat}
    (h : Field.amount4.insert? amount4 = some n) :
    decode? (.pack 13 dr sr (16 * direction.mode + n)) = some (.shift direction dr sr amount4) := by
  have hn : n < 16 := Field.lt_of_insert? h
  have hm : direction.mode < 4 := direction.mode_lt
  have hx : 16 * direction.mode + n < 64 := by omega
  have ho : 13 < 16 := by decide
  have hmode : (Word.pack 13 dr sr (16 * direction.mode + n)).operand / 16 = direction.mode := by
    rw [Word.operand_pack ho dr.isLt sr.isLt hx]
    omega
  have hamount : Field.amount4.extract (.pack 13 dr sr (16 * direction.mode + n)) = amount4 := by
    refine Field.extract_insert (by decide) h ?_
    rw [Word.toNat_pack (by omega)]
    simp only [Field.size_eq_two_pow, Field.amount4]
    omega
  simp only [decode?, Word.opcode_pack ho dr.isLt sr.isLt hx, decodeShift_mode direction hmode,
    hamount, Word.first_pack ho dr.isLt sr.isLt hx, Word.second_pack ho dr.isLt sr.isLt hx]
  simp

/-- A call is read back. -/
theorem decode?_pack_call {offset11 : Int} {n : Nat}
    (h : Field.pcOffset11.insert? offset11 = some n) :
    decode? (.pack 4 4 0 n) = some (.call offset11) := by
  have hn : n < 2048 := Field.lt_of_insert? h
  have hw : (Word.pack 4 4 0 n).toNat = 18432 + n := by
    rw [Word.toNat_pack (by omega)]
  have hopcode : (Word.pack 4 4 0 n).opcode = 4 := by
    rw [Word.opcode, hw]
    omega
  have hfirst : 4 ≤ (Word.pack 4 4 0 n).first := by
    rw [Word.first, hw]
    omega
  have hoffset : Field.pcOffset11.extract (.pack 4 4 0 n) = offset11 := by
    refine Field.extract_insert (by decide) h ?_
    rw [hw]
    simp only [Field.size_eq_two_pow, Field.pcOffset11]
    omega
  simp [decode?, hopcode, decodeCall, hfirst, hoffset]

/-- A call of a routine is read back. -/
theorem decode?_pack_trap {vector n : Nat} (h : Field.trapVector8.insert? vector = some n) :
    decode? (.pack 15 0 0 n) = some (.trap vector) := by
  have hn : n < 256 := Field.lt_of_insert? h
  have hw : (Word.pack 15 0 0 n).toNat = 61440 + n := by
    rw [Word.toNat_pack (by omega)]
  have hopcode : (Word.pack 15 0 0 n).opcode = 15 := by
    rw [Word.opcode, hw]
    omega
  have hlow : (Word.pack 15 0 0 n).toNat % 4096 < 256 := by omega
  have hvector : Field.trapVector8.extract (.pack 15 0 0 n) = vector := by
    refine Field.extract_insert (by decide) h ?_
    rw [hw]
    simp only [Field.size_eq_two_pow, Field.trapVector8]
    omega
  simp [decode?, hopcode, hlow, hvector]

/-- Every instruction that has a word is read back from it. -/
theorem decode?_of_encode {i : Instruction} {w : Word} (h : i.encode = .ok w) :
    decode? w = some i := by
  cases i with
  | operate op dr sr1 argument =>
    have ho : op.opcode < 16 := op.opcode_lt
    cases argument with
    | register sr2 =>
      obtain rfl : Word.pack op.opcode dr sr1 sr2 = w := by simpa [encode] using h
      have hx : (sr2 : Nat) < 64 := by omega
      rw [decode?_operation op (Word.opcode_pack ho dr.isLt sr1.isLt hx), decodeOperation_register]
    | immediate imm5 =>
      simp only [encode] at h
      split at h
      · simp at h
      · rename_i hne
        obtain ⟨n, hn, rfl⟩ := Field.map_insert_eq_ok_iff.1 h
        have hlt : n < 32 := Field.lt_of_insert? hn
        rw [decode?_operation op (Word.opcode_pack ho dr.isLt sr1.isLt (by omega)),
          decodeOperation_immediate hn, if_neg hne]
  | not dr sr =>
    obtain rfl : Word.pack Operation.xor.opcode dr sr (32 + 31) = w := Except.ok.inj h
    have hn : Field.imm5.insert? (-1) = some 31 := by decide
    rw [decode?_operation .xor (Word.opcode_pack (by decide) dr.isLt sr.isLt (by decide)),
      decodeOperation_immediate hn]
    simp
  | branch condition offset9 =>
    obtain ⟨n, hn, rfl⟩ := Field.map_insert_eq_ok_iff.1 h
    obtain ⟨ho, hc, hi⟩ := parts_pack_offset9 (o := 0) (by decide) condition.bits_lt hn
    simp [decode?, ho, hc, hi]
  | jump base =>
    simp only [encode] at h
    split at h
    · simp at h
    · rename_i hne
      obtain rfl := Except.ok.inj h
      revert hne
      clear h
      revert base
      decide
  | ret =>
    obtain rfl := Except.ok.inj h
    decide
  | call offset11 =>
    obtain ⟨n, hn, rfl⟩ := Field.map_insert_eq_ok_iff.1 h
    exact decode?_pack_call hn
  | callRegister base =>
    obtain rfl := Except.ok.inj h
    clear h
    revert base
    decide
  | load access dr base offset6 =>
    obtain ⟨n, hn, rfl⟩ := Field.map_insert_eq_ok_iff.1 h
    exact decode?_pack_load hn
  | store access sr base offset6 =>
    obtain ⟨n, hn, rfl⟩ := Field.map_insert_eq_ok_iff.1 h
    exact decode?_pack_store hn
  | loadAddress dr offset9 =>
    obtain ⟨n, hn, rfl⟩ := Field.map_insert_eq_ok_iff.1 h
    obtain ⟨ho, hr, hi⟩ := parts_pack_offset9 (o := 14) (by decide) dr.isLt hn
    simp [decode?, ho, hr, hi]
  | shift direction dr sr amount4 =>
    obtain ⟨n, hn, rfl⟩ := Field.map_insert_eq_ok_iff.1 h
    exact decode?_pack_shift hn
  | returnFromInterrupt =>
    obtain rfl := Except.ok.inj h
    decide
  | trap vector =>
    obtain ⟨n, hn, rfl⟩ := Field.map_insert_eq_ok_iff.1 h
    exact decode?_pack_trap hn

/-! ## Writing back what was decoded -/

section

variable {w : Word}

/-- The number in a field goes into the field again. -/
theorem insert_extract {f : Field} (hf : 0 < f.bits) :
    f.insert (f.extract w) = .ok (w.toNat % f.size) := by
  rw [Field.insert, Field.insert?_extract hf]

/-- A word whose operand takes nine bits is packed from three parts. -/
theorem pack_wide : Word.pack w.opcode w.first 0 (w.toNat % 512) = w := by
  apply BitVec.eq_of_toNat_eq
  have := w.isLt
  unfold Word.opcode Word.first
  rw [Word.toNat_pack (by omega)]
  omega

/-- An operation is written back. -/
theorem encode_of_decodeOperation (op : Operation) {i : Instruction} (ho : w.opcode = op.opcode)
    (h : decodeOperation op w = some i) : i.encode = .ok w := by
  have hw : Word.pack op.opcode w.first w.second w.operand = w := ho ▸ w.pack_parts
  simp only [decodeOperation] at h
  split at h
  · rename_i hi
    have hlow : 32 + w.toNat % 32 = w.operand := by
      unfold Word.operand at hi ⊢
      omega
    split at h
    · rename_i hnot
      obtain rfl := Option.some.inj h
      have hins := Field.insert?_extract (f := .imm5) (by decide) w
      rw [hnot.2, show Field.imm5.insert? (-1) = some 31 by decide, Option.some.injEq] at hins
      have h63 : w.operand = 63 := by
        simp only [Field.size_eq_two_pow, Field.imm5] at hins
        omega
      rw [hnot.1, h63] at hw
      rw [encode, Register.ofBits_first, Register.ofBits_second]
      exact congrArg Except.ok hw
    · rename_i hne
      obtain rfl := Option.some.inj h
      rw [encode, if_neg hne, insert_extract (by decide), Register.ofBits_first,
        Register.ofBits_second]
      simp only [Except.map, Except.ok.injEq]
      rw [show Field.imm5.size = 32 by rfl, hlow, hw]
  · split at h
    · rename_i hr
      obtain rfl := Option.some.inj h
      rw [encode, Register.ofBits_first, Register.ofBits_second, Register.ofBits_of_lt hr, hw]
    · simp at h

/-- A load is written back. -/
theorem encode_load (access : Access) (ho : w.opcode = access.loadOpcode) :
    encode (.load access (.ofBits w.first) (.ofBits w.second) (Field.offset6.extract w)) =
      .ok w := by
  rw [encode, insert_extract (by decide), Register.ofBits_first, Register.ofBits_second, ← ho]
  exact congrArg Except.ok w.pack_parts

/-- A store is written back. -/
theorem encode_store (access : Access) (ho : w.opcode = access.storeOpcode) :
    encode (.store access (.ofBits w.first) (.ofBits w.second) (Field.offset6.extract w)) =
      .ok w := by
  rw [encode, insert_extract (by decide), Register.ofBits_first, Register.ofBits_second, ← ho]
  exact congrArg Except.ok w.pack_parts

/-- A call is written back. -/
theorem encode_of_decodeCall {i : Instruction} (ho : w.opcode = 4) (h : decodeCall w = some i) :
    i.encode = .ok w := by
  have hlt := w.isLt
  unfold decodeCall at h
  split at h
  · rename_i hf
    obtain rfl := Option.some.inj h
    rw [encode, insert_extract (by decide)]
    refine congrArg Except.ok (BitVec.eq_of_toNat_eq ?_)
    unfold Word.opcode at ho
    unfold Word.first at hf
    simp only [Field.size_eq_two_pow, Field.pcOffset11]
    rw [Word.toNat_pack (by omega)]
    omega
  · split at h
    · rename_i hz
      obtain rfl := Option.some.inj h
      have hw := w.pack_parts
      rw [ho, hz.1, hz.2] at hw
      rw [encode, Register.ofBits_second, hw]
    · simp at h

/-- A jump is written back, and so is a return. -/
theorem encode_of_decodeJump {i : Instruction} (ho : w.opcode = 12) (h : decodeJump w = some i) :
    i.encode = .ok w := by
  unfold decodeJump at h
  split at h
  · rename_i hz
    have hw := w.pack_parts
    rw [ho, hz.1, hz.2] at hw
    split at h
    · rename_i h7
      obtain rfl := Option.some.inj h
      rw [h7] at hw
      rw [encode, hw]
    · rename_i h7
      obtain rfl := Option.some.inj h
      have hne : Register.ofBits w.second ≠ .link := by
        intro he
        apply h7
        rw [← Register.ofBits_second, he]
        rfl
      rw [encode, if_neg hne, Register.ofBits_second, hw]
  · simp at h

/-- A shift in a known direction is written back. -/
theorem encode_shift (direction : Shift) (ho : w.opcode = 13)
    (hm : w.operand / 16 = direction.mode) :
    encode (.shift direction (.ofBits w.first) (.ofBits w.second)
      (Field.amount4.extract w).toNat) = .ok w := by
  have hlow : 16 * direction.mode + w.toNat % 16 = w.operand := by
    rw [← hm]
    unfold Word.operand
    omega
  rw [encode, Field.toNat_extract rfl, insert_extract (by decide), Register.ofBits_first,
    Register.ofBits_second]
  simp only [Except.map, show Field.amount4.size = 16 by rfl, hlow]
  rw [← ho, w.pack_parts]

/-- A shift is written back. -/
theorem encode_of_decodeShift {i : Instruction} (ho : w.opcode = 13)
    (h : decodeShift w = some i) : i.encode = .ok w := by
  simp only [decodeShift] at h
  split at h
  · obtain rfl := Option.some.inj h
    exact encode_shift .left ho ‹_›
  · obtain rfl := Option.some.inj h
    exact encode_shift .rightLogical ho ‹_›
  · obtain rfl := Option.some.inj h
    exact encode_shift .rightArithmetic ho ‹_›
  · simp at h

/-- A branch is written back. -/
theorem encode_branch (ho : w.opcode = 0) :
    encode (.branch (.ofBits w.first) (Field.pcOffset9.extract w)) = .ok w := by
  have hf : w.first < 8 := Nat.mod_lt _ (by decide)
  have hw := pack_wide (w := w)
  rw [ho] at hw
  rw [encode, insert_extract (by decide), Condition.bits_ofBits, Nat.mod_eq_of_lt hf]
  exact congrArg Except.ok hw

/-- `LEA` is written back. -/
theorem encode_loadAddress (ho : w.opcode = 14) :
    encode (.loadAddress (.ofBits w.first) (Field.pcOffset9.extract w)) = .ok w := by
  rw [encode, insert_extract (by decide), Register.ofBits_first, ← ho]
  exact congrArg Except.ok pack_wide

/-- A call of a routine is written back if the bits before its vector are zero. -/
theorem encode_trap (ho : w.opcode = 15) (hlow : w.toNat % 4096 < 256) :
    encode (.trap (Field.trapVector8.extract w).toNat) = .ok w := by
  have := w.isLt
  rw [encode, Field.toNat_extract rfl, insert_extract (by decide)]
  refine congrArg Except.ok (BitVec.eq_of_toNat_eq ?_)
  unfold Word.opcode at ho
  simp only [Field.size_eq_two_pow, Field.trapVector8]
  rw [Word.toNat_pack (by omega)]
  omega

/-- `RTI` is written back if all other bits are zero. -/
theorem encode_returnFromInterrupt (ho : w.opcode = 8) (hlow : w.toNat % 4096 = 0) :
    encode .returnFromInterrupt = .ok w := by
  have := w.isLt
  refine congrArg Except.ok (BitVec.eq_of_toNat_eq ?_)
  unfold Word.opcode at ho
  rw [Word.toNat_pack (by decide)]
  omega

end

/-- Every word that has an instruction is written back from it. -/
theorem encode_of_decode? {w : Word} {i : Instruction} (h : decode? w = some i) :
    i.encode = .ok w := by
  unfold decode? at h
  dsimp only at h
  split at h
  case h_1 ho => exact Option.some.inj h ▸ encode_branch ho
  case h_2 ho => exact encode_of_decodeOperation .add ho h
  case h_3 ho => exact Option.some.inj h ▸ encode_load .byte ho
  case h_4 ho => exact Option.some.inj h ▸ encode_store .byte ho
  case h_5 ho => exact encode_of_decodeCall ho h
  case h_6 ho => exact encode_of_decodeOperation .and ho h
  case h_7 ho => exact Option.some.inj h ▸ encode_load .word ho
  case h_8 ho => exact Option.some.inj h ▸ encode_store .word ho
  case h_9 ho =>
    split at h
    · exact Option.some.inj h ▸ encode_returnFromInterrupt ho ‹_›
    · simp at h
  case h_10 ho => exact encode_of_decodeOperation .xor ho h
  case h_11 ho => exact Option.some.inj h ▸ encode_load .indirect ho
  case h_12 ho => exact Option.some.inj h ▸ encode_store .indirect ho
  case h_13 ho => exact encode_of_decodeJump ho h
  case h_14 ho => exact encode_of_decodeShift ho h
  case h_15 ho => exact Option.some.inj h ▸ encode_loadAddress ho
  case h_16 ho =>
    split at h
    · exact Option.some.inj h ▸ encode_trap ho ‹_›
    · simp at h
  case h_17 => simp at h

end Instruction

end LittleComputer
