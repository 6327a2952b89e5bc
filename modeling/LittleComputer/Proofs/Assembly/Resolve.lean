import LittleComputer.Assembly.Resolve
import LittleComputer.Proofs.Assembly.Layout
import LittleComputer.Proofs.Outcome
import Mathlib

/-!
# How operands are resolved

When the second pass finds an instruction for a line, what the operands of the line were and what
became of them.
-/

namespace LittleComputer.Assembly

open Source

variable {name : String} {operands : List Operand}

/-- Only a list of two has two operands. -/
theorem takeTwo_eq_ok_iff {a b : Operand} :
    takeTwo name operands = .ok (a, b) ↔ operands = [a, b] := by
  unfold takeTwo
  split <;> simp_all

/-- Only a register is taken for one. -/
theorem registerOf_eq_ok_iff {operand : Operand} {r : Register} :
    registerOf operand = .ok r ↔ operand = .register r := by
  cases operand <;> simp [registerOf]

/-- A number that its field can hold is taken as it is. -/
theorem immediateOf_number {field : Field} {n : Int} (h : field.contains n = true) :
    immediateOf field (.number n) = .ok n := if_pos h

/-- A distance that its field can hold is taken as it is. -/
theorem displacementOf_number {field : Field} {n : Int} (h : field.contains n = true) :
    displacementOf field (.number n) = .ok n := if_pos h

namespace Scope

variable {s : Scope} {field : Field} {label : String} {n : Int} {i : Instruction}

/-- A label stands for the address that it has. -/
theorem labelAddress_eq_ok_iff {target : Word} :
    s.labelAddress label = .ok target ↔ s.symbols.address? label = some target := by
  unfold labelAddress
  cases s.symbols.address? label <;> simp

/-- The distance to a label is counted in words from the next instruction, so only a label at a
whole number of words has one. -/
theorem distance_eq_ok_iff :
    s.distance field label = .ok n ↔
      ∃ target, s.symbols.address? label = some target ∧
        (s.address.toNat : Int) + wordSize + 2 * n = target.toNat := by
  simp only [distance, Except.bind_eq_ok_iff, labelAddress_eq_ok_iff]
  refine exists_congr fun target => and_congr_right fun _ => ?_
  have hsize : ((wordSize : Nat) : Int) = 2 := rfl
  rw [hsize]
  by_cases h : ((target.toNat : Int) - (s.address.toNat + 2)) % 2 = 0
  · rw [if_pos h]
    show Except.ok _ = Except.ok n ↔ _
    rw [Except.ok.injEq]
    omega
  · rw [if_neg h]
    constructor
    · rintro ⟨⟩
    · intro hn
      omega

/-- A number that is found still has to fit its field. -/
theorem check_eq_ok_iff {m : Int} {cause : Cause} :
    (if field.contains m then Except.ok m else .error cause) = .ok n ↔
      m = n ∧ field.contains n = true := by
  by_cases h : field.contains m = true
  · rw [if_pos h, Except.ok.injEq]
    constructor
    · rintro rfl
      exact ⟨rfl, h⟩
    · exact fun hn => hn.1
  · rw [if_neg h]
    constructor
    · rintro ⟨⟩
    · rintro ⟨rfl, hn⟩
      exact absurd hn h

/-- A number is a distance to a target if the field can hold it. -/
theorem offset_number_eq_ok_iff {m : Int} :
    s.offset field (.number m) = .ok n ↔ m = n ∧ field.contains n = true :=
  check_eq_ok_iff

/-- A label is a target if the field can hold the distance to it. -/
theorem offset_label_eq_ok_iff :
    s.offset field (.label label) = .ok n ↔
      s.distance field label = .ok n ∧ field.contains n = true := by
  show (s.distance field label >>= fun m => if field.contains m then Except.ok m else _) = _ ↔ _
  rw [Except.bind_eq_ok_iff]
  constructor
  · rintro ⟨m, hm, h⟩
    obtain ⟨rfl, hn⟩ := check_eq_ok_iff.1 h
    exact ⟨hm, hn⟩
  · rintro ⟨hm, hn⟩
    exact ⟨n, hm, check_eq_ok_iff.2 ⟨rfl, hn⟩⟩

/-- The target that an instruction gets from a label is the label's address. -/
theorem exists_target_of_offset (h : s.offset field (.label label) = .ok n) :
    ∃ target, s.symbols.address? label = some target ∧
      (s.address.toNat : Int) + wordSize + 2 * n = target.toNat :=
  distance_eq_ok_iff.1 (offset_label_eq_ok_iff.1 h).1

/-! ## Instructions with a target -/

/-- A target that is the only operand. -/
theorem target_eq_ok_iff {make : Int → Instruction} :
    (do
      let target ← takeOne name operands
      return make (← s.offset field target)) = .ok i ↔
      ∃ target n, operands = [target] ∧ s.offset field target = .ok n ∧ i = make n := by
  simp only [Except.bind_eq_ok_iff, takeOne_eq_ok_iff, pure, Except.pure, Except.ok.injEq]
  constructor
  · rintro ⟨target, hop, n, hn, rfl⟩
    exact ⟨target, n, hop, hn, rfl⟩
  · rintro ⟨target, n, hop, hn, rfl⟩
    exact ⟨target, hop, n, hn, rfl⟩

/-- A branch has a target that is in the reach of nine bits. -/
theorem resolve_branch_eq_ok_iff {condition : Condition} :
    s.resolve name operands (.branch condition) = .ok i ↔
      ∃ target n, operands = [target] ∧ s.offset .pcOffset9 target = .ok n ∧
        i = .branch condition n :=
  target_eq_ok_iff

/-- A call has a target that is in the reach of eleven bits. -/
theorem resolve_call_eq_ok_iff :
    s.resolve name operands .call = .ok i ↔
      ∃ target n, operands = [target] ∧ s.offset .pcOffset11 target = .ok n ∧ i = .call n :=
  target_eq_ok_iff

/-- `LEA` has a register and a target that is in the reach of nine bits. -/
theorem resolve_loadAddress_eq_ok_iff :
    s.resolve name operands .loadAddress = .ok i ↔
      ∃ dr target n, operands = [.register dr, target] ∧ s.offset .pcOffset9 target = .ok n ∧
        i = .loadAddress dr n := by
  simp only [resolve, Except.bind_eq_ok_iff, takeTwo_eq_ok_iff, registerOf_eq_ok_iff, pure,
    Except.pure, Except.ok.injEq, Prod.exists]
  constructor
  · rintro ⟨_, target, hop, dr, rfl, n, hn, rfl⟩
    exact ⟨dr, target, n, hop, hn, rfl⟩
  · rintro ⟨dr, target, n, hop, hn, rfl⟩
    exact ⟨_, target, hop, dr, rfl, n, hn, rfl⟩

/-- A line has a word if its operands resolve to an instruction that has an encoding. -/
theorem instructionWord_eq_ok_iff {w : Word} :
    s.instructionWord name operands = .ok w ↔
      ∃ mnemonic i, Mnemonic.ofName? name = some mnemonic ∧
        s.resolve name operands mnemonic = .ok i ∧ i.encode = .ok w := by
  unfold instructionWord instruction
  cases Mnemonic.ofName? name with
  | none => simp
  | some mnemonic =>
    simp only [Except.bind_eq_ok_iff, Option.some.injEq]
    constructor
    · rintro ⟨i, hi, h⟩
      split at h
      · rename_i hw
        cases h
        exact ⟨mnemonic, i, rfl, hi, hw⟩
      · cases h
    · rintro ⟨_, i, rfl, hi, hw⟩
      exact ⟨i, hi, by rw [hw]⟩

end Scope

end LittleComputer.Assembly
