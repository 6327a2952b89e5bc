import LittleComputer.Register
import LittleComputer.Source.Literal
import LittleComputer.Text.Quoted

/-!
# Operands

An operand is the first of string, number, register and label that a text starts with, so a word
that is also a number or a register is never a label. Operands are separated by commas.
-/

namespace LittleComputer.Source

inductive Operand where
  | register (name : Register)
  | number (value : Int)
  | label (name : String)
  | string (text : String)
deriving DecidableEq, Repr

/-- A word that names a register. -/
def register : Scanner Register := fun s => do
  let (name, r) ← word s
  let register ← Register.ofName? name
  some (register, r)

/-- A comma, with any blanks around it. -/
def comma (s : List Char) : Option (List Char) :=
  match Text.skipBlanks s with
  | ',' :: r => some (Text.skipBlanks r)
  | _ => none

namespace Operand

/-- How an operand is shown in an error. -/
def text : Operand → String
  | .register r => r.name
  | .number n => s!"#{n}"
  | .label name => name
  | .string s => Text.quoted s

/-- An operand at the front of a text. -/
def scan : Scanner Operand := fun s =>
  match Source.string s with
  | some (text, r) => some (.string text, r)
  | none =>
    match Source.number s with
    | some (n, r) => some (.number n, r)
    | none =>
      match Source.register s with
      | some (name, r) => some (.register name, r)
      | none => (word s).map fun (name, r) => (.label name, r)

end Operand

/-- A register takes up a character. -/
theorem consumes_register : Consumes register := by
  intro s a r h
  simp only [register, Option.bind_eq_bind, Option.bind_eq_some_iff, Option.some.injEq,
    Prod.mk.injEq, Prod.exists] at h
  obtain ⟨name, r', hw, _, _, _, rfl⟩ := h
  exact consumes_word s _ _ hw

/-- An operand takes up a character. -/
theorem Operand.consumes_scan : Consumes scan := by
  intro s a r h
  unfold scan at h
  split at h
  · rename_i e
    cases h
    exact consumes_string _ _ _ e
  · split at h
    · rename_i e
      cases h
      exact consumes_number _ _ _ e
    · split at h
      · rename_i e
        cases h
        exact consumes_register _ _ _ e
      · simp only [Option.map_eq_some_iff, Prod.mk.injEq, Prod.exists] at h
        obtain ⟨name, r', hw, _, rfl⟩ := h
        exact consumes_word _ _ _ hw

/-- A comma takes up a character. -/
theorem length_comma_lt {s r : List Char} (h : comma s = some r) : r.length < s.length := by
  unfold comma at h
  split at h
  · rename_i t e
    cases h
    have := Text.length_skipBlanks_le t
    have := Text.length_skipBlanks_le s
    rw [e, List.length_cons] at this
    omega
  · simp at h

/-- The operands that follow one, each after a comma. A comma with no operand after it is left. -/
def operandsAfter (s : List Char) : List Operand × List Char :=
  match hc : comma s with
  | none => ([], s)
  | some t =>
    match ho : Operand.scan t with
    | none => ([], s)
    | some (operand, r) =>
      have : r.length < s.length :=
        Nat.lt_trans (Operand.consumes_scan t operand r ho) (length_comma_lt hc)
      let (operands, rest) := operandsAfter r
      (operand :: operands, rest)
termination_by s.length

/-- Without a comma there are no more operands. -/
theorem operandsAfter_of_comma_eq_none {s : List Char} (h : comma s = none) :
    operandsAfter s = ([], s) := by
  unfold operandsAfter
  split
  · rfl
  · rename_i hc
    rw [h] at hc
    cases hc

/-- A comma without an operand after it is left where it is. -/
theorem operandsAfter_of_scan_eq_none {s t : List Char} (hc : comma s = some t)
    (ho : Operand.scan t = none) : operandsAfter s = ([], s) := by
  unfold operandsAfter
  split
  · rfl
  · rename_i hc'
    cases hc.symm.trans hc'
    split
    · rfl
    · rename_i ho'
      rw [ho] at ho'
      cases ho'

/-- An operand after a comma is the next of the operands. -/
theorem operandsAfter_of_scan {s t r : List Char} {operand : Operand} (hc : comma s = some t)
    (ho : Operand.scan t = some (operand, r)) :
    operandsAfter s = (operand :: (operandsAfter r).1, (operandsAfter r).2) := by
  rw [operandsAfter]
  split
  · rename_i hc'
    rw [hc] at hc'
    cases hc'
  · rename_i hc'
    cases hc.symm.trans hc'
    split
    · rename_i ho'
      rw [ho] at ho'
      cases ho'
    · rename_i ho'
      cases ho.symm.trans ho'
      rfl

/-- One operand or more, separated by commas. -/
def operandList : Scanner (List Operand) := fun s => do
  let (operand, r) ← Operand.scan s
  let (operands, rest) := operandsAfter r
  some (operand :: operands, rest)

/-- The operands after a mnemonic or directive, from the blank before them. Without any, nothing is
taken. -/
def operands (s : List Char) : List Operand × List Char :=
  match (Text.skipSomeBlanks s).bind operandList with
  | some (operands, r) => (operands, r)
  | none => ([], s)

end LittleComputer.Source
