import LittleComputer.Proofs.Source.Extent
import LittleComputer.Proofs.Source.Words
import Mathlib

/-!
# Words that operands are read from

Where an operand is to be read, a number is looked for before a label. So a word that can be defined
as a label is read as that label if and only if it is not a hexadecimal literal.
-/

namespace LittleComputer.Source

/-- The number that a word denotes as an operand: an `x` and hexadecimal digits, unless there are
more of them than a literal can have. -/
def hexLiteral? (name : String) : Option Int :=
  match name.toList with
  | [] => none
  | c :: digits =>
    if (c = 'x' ∨ c = 'X') ∧ digits ≠ [] ∧ digits.all Text.Hex.isDigit = true ∧
        (Text.Hex.ofDigits digits : Int) ≤ maxNumber then
      some (Text.Hex.ofDigits digits)
    else none

/-- What a word stands for as an operand, if it can be defined as a label. -/
def Operand.ofWord (name : String) : Operand :=
  match hexLiteral? name with
  | some n => .number n
  | none => .label name

/-! ## One operand -/

variable {s t r : List Char} {name : String} {operand : Operand}

/-- A word is taken in full. -/
theorem word_eq_some_iff :
    word t = some (name, r) ↔ IsWord name.toList ∧ Ends r ∧ t = name.toList ++ r := by
  constructor
  · intro h
    unfold word at h
    split at h
    · cases h
    · rename_i c s
      split at h
      · rename_i hstart
        cases h
        rw [String.toList_ofList]
        refine ⟨⟨hstart, fun d hd => ?_⟩, fun d hd => ?_, ?_⟩
        · exact List.mem_takeWhile_imp hd
        · have hhead := List.head?_dropWhile_not isWordChar s
          rw [hd] at hhead
          exact hhead
        · rw [List.cons_append, List.takeWhile_append_dropWhile]
      · cases h
  · rintro ⟨hname, hr, rfl⟩
    rw [word_append hname hr, String.ofList_toList]

/-- A register is read where its name is a word. -/
theorem register_eq_some_iff {i : Register} :
    register s = some (i, r) ↔
      ∃ name, word s = some (name, r) ∧ Register.ofName? name = some i := by
  simp only [Source.register, Option.bind_eq_bind, Option.bind_eq_some_iff, Option.some.injEq,
    Prod.mk.injEq, Prod.exists]
  constructor
  · rintro ⟨name, _, hword, _, hi, rfl, rfl⟩
    exact ⟨name, hword, hi⟩
  · rintro ⟨name, hword, hi⟩
    exact ⟨name, r, hword, i, hi, rfl, rfl⟩

/-- A word is a literal if it is an `x` with digits after it that make a number in range. -/
theorem hexLiteral?_ofList (c : Char) (s : List Char) :
    hexLiteral? (String.ofList (c :: s)) =
      if (c = 'x' ∨ c = 'X') ∧ s ≠ [] ∧ s.all Text.Hex.isDigit = true ∧
          (Text.Hex.ofDigits s : Int) ≤ maxNumber then
        some (Text.Hex.ofDigits s : Int)
      else none := by
  rw [hexLiteral?, String.toList_ofList]

/-- No number is read where a word goes on after its digits. -/
theorem number_eq_none {d : Char} {q : List Char} (hd : isWordChar d = true)
    (h : ∀ n r, numeral s = some (n, r) → r = d :: q) : number s = none := by
  unfold number
  split
  · rename_i hnumeral
    cases h _ _ hnumeral
    exact if_pos hd
  · rename_i hnumeral
    cases h _ _ hnumeral
  · rfl

section WordStart

variable {c : Char} (hc : isWordStart c = true)
include hc

/-- Digits up to the end of the word make it a number, unless it is too large. -/
theorem number_of_digits (hs : s.all Text.Hex.isDigit = true) (hr : Ends r) :
    number (c :: (s ++ r)) = (hexLiteral? (String.ofList (c :: s))).map fun n => (n, r) := by
  have hdigits := List.all_eq_true.1 hs
  have hnumeral := numeral_cons hc (s := s ++ r)
  rw [takeWhile_append_of_ends isWordChar_of_isHexDigit hdigits hr,
    dropWhile_append_of_ends isWordChar_of_isHexDigit hdigits hr] at hnumeral
  rw [hexLiteral?_ofList]
  by_cases hmark : (c = 'x' ∨ c = 'X') ∧ s ≠ []
  · rw [if_pos hmark] at hnumeral
    by_cases hmax : (Text.Hex.ofDigits s : Int) ≤ maxNumber
    · rw [number?_of_mem (by unfold minNumber; omega) hmax] at hnumeral
      rw [if_pos ⟨hmark.1, hmark.2, hs, hmax⟩]
      exact number_of_numeral hnumeral hr
    · have hlarge : number? (Text.Hex.ofDigits s) = none := if_neg fun h => hmax h.2
      rw [hlarge] at hnumeral
      rw [if_neg fun h => hmax h.2.2.2, number, hnumeral]
      rfl
  · rw [if_neg hmark] at hnumeral
    rw [if_neg fun h => hmark ⟨h.1, h.2.1⟩, number, hnumeral]
    rfl

/-- Digits that end inside of a word make no number. -/
theorem number_of_not_digits (hword : ∀ d ∈ s, isWordChar d = true)
    (hs : ¬s.all Text.Hex.isDigit = true) : number (c :: (s ++ r)) = none := by
  obtain ⟨d, t, hrest⟩ : ∃ d t, s.dropWhile Text.Hex.isDigit = d :: t := by
    refine List.exists_cons_of_ne_nil fun hnil => hs ?_
    rw [List.dropWhile_eq_nil_iff] at hnil
    exact List.all_eq_true.2 hnil
  have hd : isWordChar d = true := by
    refine hword d ((List.dropWhile_suffix Text.Hex.isDigit).subset ?_)
    rw [hrest]
    exact List.mem_cons_self
  have hdrop : (s ++ r).dropWhile Text.Hex.isDigit = d :: (t ++ r) := by
    rw [List.dropWhile_append, hrest]
    rfl
  refine number_eq_none hd (q := t ++ r) fun n q hnumeral => ?_
  rw [numeral_cons hc, hdrop] at hnumeral
  split at hnumeral
  · obtain ⟨_, _, heq⟩ := Option.map_eq_some_iff.1 hnumeral
    cases heq
    rfl
  · cases hnumeral

/-- A word is read as a number if it is a literal. -/
theorem number_of_ends (hword : ∀ d ∈ s, isWordChar d = true) (hr : Ends r) :
    number (c :: (s ++ r)) = (hexLiteral? (String.ofList (c :: s))).map fun n => (n, r) := by
  by_cases hs : s.all Text.Hex.isDigit = true
  · exact number_of_digits hc hs hr
  · rw [number_of_not_digits hc hword hs, hexLiteral?_ofList, if_neg fun h => hs h.2.2.1]
    rfl

end WordStart

section IsWord

variable (hword : IsWord name.toList)
include hword

/-- No word begins a string. -/
theorem string_of_word : string (name.toList ++ r) = none := by
  obtain ⟨c, s, hcs, hc⟩ := hword.exists_cons
  rw [hcs]
  unfold string
  split
  · rename_i h
    cases (List.cons.inj h).1
    cases hc
  · rfl

/-- A word is read as the number of the literal that it is. -/
theorem number_of_word (hr : Ends r) :
    number (name.toList ++ r) = (hexLiteral? name).map fun n => (n, r) := by
  obtain ⟨c, s, hcs, hc⟩ := hword.exists_cons
  rw [hcs] at hword
  rw [hcs, List.cons_append, number_of_ends hc hword.2 hr, ← hcs, String.ofList_toList]

/-- A word is read as the register that it names. -/
theorem register_of_word (hr : Ends r) :
    register (name.toList ++ r) = (Register.ofName? name).map fun i => (i, r) := by
  rw [register, word_append hword hr, String.ofList_toList]
  cases h : Register.ofName? name <;> simp [h]

end IsWord

/-- A word that can be a label is read as what it stands for. -/
theorem scan_of_word (hword : word t = some (name, r)) (hname : isLabelName name = true) :
    Operand.scan t = some (.ofWord name, r) := by
  obtain ⟨hspelled, hr, rfl⟩ := word_eq_some_iff.1 hword
  rw [isLabelName, Bool.and_eq_true, Option.isNone_iff_eq_none, Option.isNone_iff_eq_none] at hname
  have hregister : register (name.toList ++ r) = none := by
    rw [register_of_word hspelled hr, hname.2]
    rfl
  unfold Operand.scan Operand.ofWord
  rw [string_of_word hspelled, number_of_word hspelled hr]
  cases hexLiteral? name with
  | some n => rfl
  | none => simp [hregister, hword]

/-! ## The operands of a line -/

/-- Operands with the texts that they are read from, each after a comma. -/
def readingsAfter (s : List Char) : List (List Char × Operand) :=
  match hc : comma s with
  | none => []
  | some t =>
    match ho : Operand.scan t with
    | none => []
    | some (operand, r) =>
      have : r.length < s.length :=
        Nat.lt_trans (Operand.consumes_scan t operand r ho) (length_comma_lt hc)
      (t, operand) :: readingsAfter r
termination_by s.length

/-- What further operands are read from gives the operands. -/
theorem map_snd_readingsAfter (s : List Char) :
    (readingsAfter s).map Prod.snd = (operandsAfter s).1 := by
  fun_induction readingsAfter s with
  | case1 s hcomma =>
    rw [operandsAfter_of_comma_eq_none hcomma]
    rfl
  | case2 s t hcomma hscan =>
    rw [operandsAfter_of_scan_eq_none hcomma hscan]
    rfl
  | case3 s t hcomma operand r hscan _ ih =>
    rw [operandsAfter_of_scan hcomma hscan, List.map_cons, ih]

/-- Each further operand is read from its own text. -/
theorem scan_of_mem_readingsAfter (h : (t, operand) ∈ readingsAfter s) :
    ∃ r, Operand.scan t = some (operand, r) := by
  fun_induction readingsAfter s with
  | case1 | case2 => cases h
  | case3 s _ _ _ r hscan _ ih =>
    rcases List.mem_cons.1 h with h | h
    · cases h
      exact ⟨r, hscan⟩
    · exact ih h

/-- The operands after a mnemonic or directive, with the texts that they are read from. -/
def readings (s : List Char) : List (List Char × Operand) :=
  match Text.skipSomeBlanks s with
  | none => []
  | some t =>
    match Operand.scan t with
    | none => []
    | some (operand, r) => (t, operand) :: readingsAfter r

/-- What operands are read from gives the operands. -/
theorem map_snd_readings (s : List Char) : (readings s).map Prod.snd = (operands s).1 := by
  unfold readings operands operandList
  cases Text.skipSomeBlanks s with
  | none => rfl
  | some t =>
    cases hscan : Operand.scan t with
    | none => simp [hscan]
    | some v => simp [hscan, map_snd_readingsAfter]

/-- Each operand is read from its own text. -/
theorem scan_of_mem_readings (h : (t, operand) ∈ readings s) :
    ∃ r, Operand.scan t = some (operand, r) := by
  unfold readings at h
  split at h
  · cases h
  · split at h
    · cases h
    · rename_i hscan
      rcases List.mem_cons.1 h with h | h
      · cases h
        exact ⟨_, hscan⟩
      · exact scan_of_mem_readingsAfter h

/-- The text after the mnemonic, or after the name of the directive. -/
def afterName (s : List Char) : List Char :=
  match s with
  | '.' :: t => (word t).elim [] Prod.snd
  | s => (word s).elim [] Prod.snd

/-- The operands of a content are read after its name. -/
theorem operands_content {c : Content} (h : content s = some (c, r)) :
    c.operands = (operands (afterName s)).1 := by
  unfold content at h
  split at h
  · obtain ⟨⟨name, t⟩, hword, h⟩ := Option.bind_eq_some_iff.1 h
    cases h
    rw [afterName, hword]
    rfl
  · rename_i hdot
    obtain ⟨⟨name, t⟩, hword, h⟩ := Option.bind_eq_some_iff.1 h
    have hafter : afterName s = t := by
      unfold afterName
      split
      · exact (hdot _ rfl).elim
      · rw [hword]
        rfl
    cases h
    rw [hafter]
    rfl

/-- What is read as the name of a label can be one. -/
theorem isLabelName_of_labelName (h : labelName s = some (name, r)) : isLabelName name = true := by
  simp only [labelName, Option.bind_eq_bind, Option.bind_eq_some_iff, Prod.exists] at h
  obtain ⟨_, _, _, h⟩ := h
  split at h
  · rename_i hname
    cases h
    exact hname
  · cases h

/-- What is read as a label can be one. -/
theorem isLabelName_of_label (h : label s = some (name, r)) : isLabelName name = true := by
  simp only [label, Option.bind_eq_bind, Option.bind_eq_some_iff, Prod.exists] at h
  obtain ⟨_, _, hname, h⟩ := h
  split at h
  · cases h
    exact isLabelName_of_labelName hname
  · split at h
    · cases h
    · cases h
      exact isLabelName_of_labelName hname

namespace Line

/-- The operands of a line, with the texts that they are read from. -/
def readings (s : List Char) : List (List Char × Operand) :=
  let (label, s) := optional Source.label (Text.skipBlanks s)
  Source.readings (afterName (if label.isSome then Text.skipBlanks s else s))

/-- What the operands of a line are read from gives those operands. -/
theorem map_snd_readings {line : Line} {c : Content} (h : parse s = .ok line)
    (hc : line.content = some c) : (readings s).map Prod.snd = c.operands := by
  obtain ⟨rfl, _⟩ := parse_eq_ok_iff.1 h
  obtain ⟨r, hr⟩ := fst_optional_eq_some_iff.1 hc
  rw [operands_content hr]
  exact Source.map_snd_readings _

/-- The label of a line can be one. -/
theorem isLabelName_of_parse {line : Line} (h : parse s = .ok line)
    (hlabel : line.label = some name) : isLabelName name = true := by
  obtain ⟨rfl, _⟩ := parse_eq_ok_iff.1 h
  obtain ⟨r, hr⟩ := fst_optional_eq_some_iff.1
    (show (optional Source.label (Text.skipBlanks s)).1 = some name from hlabel)
  exact isLabelName_of_label hr

end Line

end LittleComputer.Source
