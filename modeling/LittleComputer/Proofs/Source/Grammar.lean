import LittleComputer.Proofs.Source.Reading
import Mathlib

/-!
# How operands are written

The ways in which an operand can be written, as relations between a value and its texts. A scanner
is compared with them in both directions: what it takes off a text is one of the ways to write its
answer, and every way to write a value is read as that value, as long as nothing goes on with it.
-/

namespace LittleComputer.Source

variable {s t q r : List Char}

/-! ## Blanks -/

/-- Whether a text is a run of blanks, which may be empty. -/
def Blanks (s : List Char) : Prop := ∀ c ∈ s, Text.isBlank c = true

instance : DecidablePred Blanks := List.decidableBAll fun c => Text.isBlank c = true

/-- An empty text is a run of blanks. -/
theorem blanks_nil : Blanks [] := by simp [Blanks]

/-- A blank is a run of blanks. -/
theorem blanks_singleton : Blanks [' '] := by decide

/-- Two runs of blanks make one. -/
theorem Blanks.append (hs : Blanks s) (ht : Blanks t) : Blanks (s ++ t) := by
  intro c hc
  rcases List.mem_append.1 hc with hc | hc
  · exact hs c hc
  · exact ht c hc

/-- No blank is a part of a word. -/
theorem isWordChar_of_isBlank {c : Char} (h : Text.isBlank c = true) : isWordChar c = false := by
  rw [Text.isBlank, Bool.or_eq_true, beq_iff_eq, beq_iff_eq] at h
  rcases h with rfl | rfl <;> rfl

/-- A word ends at blanks, or where it would end without them. -/
theorem Blanks.ends (hs : Blanks s) (hr : Ends r) : Ends (s ++ r) := by
  cases s with
  | nil => exact hr
  | cons c s => exact ends_cons (isWordChar_of_isBlank (hs c List.mem_cons_self))

/-- Blanks are skipped up to what comes after them. -/
theorem Blanks.skipBlanks_append (hs : Blanks s) :
    Text.skipBlanks (s ++ r) = Text.skipBlanks r :=
  List.dropWhile_append_of_pos hs

/-- Nothing is skipped of what does not begin with a blank. -/
theorem skipBlanks_of_head (h : ∀ c ∈ s.head?, Text.isBlank c = false) :
    Text.skipBlanks s = s := by
  cases s with
  | nil => rfl
  | cons c t => rw [Text.skipBlanks, List.dropWhile_cons, h c rfl]; rfl

/-- No blank is left at the front when blanks are skipped. -/
theorem head_skipBlanks (s : List Char) :
    ∀ c ∈ (Text.skipBlanks s).head?, Text.isBlank c = false := by
  intro c hc
  have hhead := List.head?_dropWhile_not Text.isBlank s
  rwa [show (s.dropWhile Text.isBlank).head? = some c from hc] at hhead

/-- There is nothing to skip a second time. -/
theorem skipBlanks_skipBlanks (s : List Char) :
    Text.skipBlanks (Text.skipBlanks s) = Text.skipBlanks s :=
  skipBlanks_of_head (head_skipBlanks s)

/-- What is skipped is a run of blanks. -/
theorem exists_blanks_append_skipBlanks (s : List Char) :
    ∃ b, Blanks b ∧ s = b ++ Text.skipBlanks s :=
  ⟨s.takeWhile Text.isBlank, fun _ hc => List.mem_takeWhile_imp hc,
    List.takeWhile_append_dropWhile.symm⟩

/-- One blank or more are skipped where some are needed. -/
theorem Blanks.skipSomeBlanks_append (hs : Blanks s) (hne : s ≠ []) :
    Text.skipSomeBlanks (s ++ r) = some (Text.skipBlanks r) := by
  obtain ⟨c, t, rfl⟩ := List.exists_cons_of_ne_nil hne
  rw [List.cons_append, Text.skipSomeBlanks, if_pos (hs c List.mem_cons_self),
    Blanks.skipBlanks_append fun d hd => hs d (List.mem_cons_of_mem c hd)]

/-- Where blanks are needed, what is skipped is one blank or more. -/
theorem exists_blanks_of_skipSomeBlanks (h : Text.skipSomeBlanks s = some t) :
    ∃ b, b ≠ [] ∧ Blanks b ∧ s = b ++ t := by
  unfold Text.skipSomeBlanks at h
  split at h
  · rename_i c q
    split at h
    · rename_i hc
      cases h
      obtain ⟨b, hb, hq⟩ := exists_blanks_append_skipBlanks q
      refine ⟨c :: b, List.cons_ne_nil c b, fun d hd => ?_, by rw [List.cons_append, ← hq]⟩
      rcases List.mem_cons.1 hd with rfl | hd
      · exact hc
      · exact hb d hd
    · cases h
  · cases h

/-! ## Strings -/

/-- What the characters between two quotes stand for: most for themselves, and a backslash with the
character after it for one of six. -/
inductive Quotes : List Char → List Char → Prop
  | nil : Quotes [] []
  | plain {c : Char} {s t : List Char} (hquote : c ≠ '"') (hescape : c ≠ '\\') (h : Quotes s t) :
    Quotes (c :: s) (c :: t)
  | escape {c d : Char} {s t : List Char} (hc : unescape c = some d) (h : Quotes s t) :
    Quotes ('\\' :: c :: s) (d :: t)

/-- What is read after the text of some characters follows these. -/
theorem stringRest_append (h : Quotes s t) :
    stringRest (s ++ r) = (stringRest r).map fun (u, q) => (t ++ u, q) := by
  induction h with
  | nil => exact Option.map_id_apply.symm
  | plain hquote hescape h ih =>
    rw [List.cons_append, stringRest, ih, Option.map_map]
    · rfl
    · exact hquote
    · intro hc
      exact absurd hc hescape
    · intro _ _ hc
      exact absurd hc hescape
  | escape hc h ih =>
    rw [List.cons_append, List.cons_append, stringRest, hc]
    simp only [ih, Option.map_map]
    rfl

/-- What is read after an opening quote is quoted, and a closing quote comes next. -/
theorem exists_quotes_of_stringRest (h : stringRest q = some (t, r)) :
    ∃ s, q = s ++ '"' :: r ∧ Quotes s t := by
  induction q using stringRest.induct generalizing t with
  | case1 => cases h
  | case2 q =>
    cases h
    exact ⟨[], rfl, .nil⟩
  | case3 => cases h
  | case4 c q d hd ih =>
    simp only [stringRest, hd, Option.map_eq_some_iff, Prod.mk.injEq, Prod.exists] at h
    obtain ⟨t', _, h, rfl, rfl⟩ := h
    obtain ⟨s, rfl, hs⟩ := ih h
    exact ⟨'\\' :: c :: s, rfl, .escape hd hs⟩
  | case5 c q hd =>
    simp only [stringRest, hd] at h
    cases h
  | case6 c q hquote hend hescape ih =>
    have hne : c ≠ '\\' := by
      rintro rfl
      cases q with
      | nil => exact hend rfl rfl
      | cons d q => exact hescape d q rfl rfl
    rw [stringRest] at h
    · simp only [Option.map_eq_some_iff, Prod.mk.injEq, Prod.exists] at h
      obtain ⟨t', _, h, rfl, rfl⟩ := h
      obtain ⟨s, rfl, hs⟩ := ih h
      exact ⟨c :: s, rfl, .plain hquote hne hs⟩
    all_goals assumption

/-- A string is read if and only if it is quoted. -/
theorem string_eq_some_iff {text : String} :
    string q = some (text, r) ↔ ∃ s, q = '"' :: (s ++ '"' :: r) ∧ Quotes s text.toList := by
  constructor
  · intro h
    unfold string at h
    split at h
    · simp only [Option.map_eq_some_iff, Prod.mk.injEq, Prod.exists] at h
      obtain ⟨t, _, h, rfl, rfl⟩ := h
      obtain ⟨s, rfl, hs⟩ := exists_quotes_of_stringRest h
      exact ⟨s, rfl, by rwa [String.toList_ofList]⟩
    · cases h
  · rintro ⟨s, rfl, hs⟩
    simp only [string, stringRest_append hs, stringRest, Option.map_some, List.append_nil,
      String.ofList_toList]

/-! ## Numbers -/

/-- What can stand before hexadecimal digits. -/
def hexMarks : List (List Char) := [['x'], ['X'], ['0', 'x'], ['0', 'X']]

/-- Whether some characters are a literal for a number. -/
inductive Numeral : List Char → Int → Prop
  | hexadecimal {mark digits : List Char} (hmark : mark ∈ hexMarks) (hne : digits ≠ [])
    (hdigits : ∀ c ∈ digits, Text.Hex.isDigit c = true) {n : Int}
    (hn : number? (Text.Hex.ofDigits digits) = some n) : Numeral (mark ++ digits) n
  | decimal (sharp negative : Bool) {digits : List Char} (hne : digits ≠ [])
    (hdigits : ∀ c ∈ digits, c.isDigit = true) {n : Int}
    (hn : number? (if negative then -(Nat.ofDigitChars 10 digits 0 : Int)
      else Nat.ofDigitChars 10 digits 0) = some n) :
    Numeral (optionalChar '#' sharp ++ (optionalChar '-' negative ++ digits)) n

/-- No literal is out of the range of numbers. -/
theorem Numeral.mem {n : Int} (h : Numeral s n) : minNumber ≤ n ∧ n ≤ maxNumber := by
  cases h with
  | hexadecimal _ _ _ hn => exact mem_of_number? hn
  | decimal _ _ _ _ hn => exact mem_of_number? hn

/-- Every mark is taken off the digits after it. -/
theorem hexMark_append {mark : List Char} (hmark : mark ∈ hexMarks) :
    hexMark (mark ++ r) = some r := by
  simp only [hexMarks, List.mem_cons, List.not_mem_nil, or_false] at hmark
  rcases hmark with rfl | rfl | rfl | rfl <;> rfl

/-- What is taken off is a mark. -/
theorem exists_mark_of_hexMark (h : hexMark q = some r) : ∃ mark ∈ hexMarks, q = mark ++ r := by
  unfold hexMark at h
  split at h
  · cases h
    exact ⟨['0', 'x'], by decide, rfl⟩
  · cases h
    exact ⟨['0', 'X'], by decide, rfl⟩
  · cases h
    exact ⟨['x'], by decide, rfl⟩
  · cases h
    exact ⟨['X'], by decide, rfl⟩
  · cases h

/-- Decimal digits are not taken for hexadecimal ones, even if the first of them is a zero. -/
theorem hexMark_of_isDigit {d : Char} (hd : d.isDigit = true)
    (hs : ∀ c ∈ s.head?, c ≠ 'x' ∧ c ≠ 'X') : hexMark (d :: s) = none := by
  unfold hexMark
  split
  · rename_i heq
    cases heq
    exact absurd rfl (hs 'x' rfl).1
  · rename_i heq
    cases heq
    exact absurd rfl (hs 'X' rfl).2
  · rename_i heq
    cases heq
    cases hd
  · rename_i heq
    cases heq
    cases hd
  · rfl

/-- Digits up to the end of a word are followed by no `x`. -/
theorem head_digits_append {digits : List Char} (hdigits : ∀ c ∈ digits, c.isDigit = true)
    (hr : Ends r) : ∀ c ∈ (digits ++ r).head?, c ≠ 'x' ∧ c ≠ 'X' := by
  intro c hc
  cases digits with
  | nil =>
    have hc := hr c hc
    constructor <;> rintro rfl <;> cases hc
  | cons d ds =>
    cases hc
    have hc := hdigits c List.mem_cons_self
    constructor <;> rintro rfl <;> cases hc

/-- No hexadecimal number begins without a mark. -/
theorem hexadecimal_of_hexMark (h : hexMark q = none) : hexadecimal q = none := by
  rw [hexadecimal, h]
  rfl

/-- A literal is read in full. -/
theorem number_append {n : Int} (h : Numeral s n) (hr : Ends r) :
    number (s ++ r) = some (n, r) := by
  refine number_of_numeral ?_ hr
  cases h with
  | @hexadecimal mark digits hmark hne hdigits _ hn =>
    have hhex : hexadecimal (mark ++ digits ++ r) = some (n, r) := by
      rw [List.append_assoc]
      simp only [hexadecimal, hexMark_append hmark, Option.bind_eq_bind, Option.bind_some,
        takeWhile_append_of_ends isWordChar_of_isHexDigit hdigits hr,
        dropWhile_append_of_ends isWordChar_of_isHexDigit hdigits hr, hn]
      simp [hne]
    rw [numeral, hhex]
    rfl
  | @decimal sharp negative digits hne hdigits _ hn =>
    have hmark : hexMark (optionalChar '#' sharp ++ (optionalChar '-' negative ++ digits) ++ r) =
        none := by
      obtain ⟨d, ds, rfl⟩ := List.exists_cons_of_ne_nil hne
      cases sharp with
      | true => rfl
      | false =>
        cases negative with
        | true => rfl
        | false =>
          exact hexMark_of_isDigit (hdigits d List.mem_cons_self)
            (head_digits_append (fun c hc => hdigits c (List.mem_cons_of_mem d hc)) hr)
    rw [numeral, hexadecimal_of_hexMark hmark, Option.none_or]
    exact decimal_append hne hdigits sharp negative hn (head_of_ends isWordChar_of_isDigit hr)

/-- A character that may be missing is taken off or is not there. -/
theorem eq_optionalChar_append (c : Char) (s : List Char) :
    s = optionalChar c (dropChar c s).1 ++ (dropChar c s).2 := by
  unfold dropChar
  split
  · rfl
  · rename_i d t
    split
    · rename_i hd
      rw [hd]
      rfl
    · rfl

/-- What is read as a hexadecimal number is a literal for it. -/
theorem exists_numeral_of_hexadecimal {n : Int} (h : hexadecimal q = some (n, r)) :
    ∃ s, q = s ++ r ∧ Numeral s n := by
  simp only [hexadecimal, Option.bind_eq_bind, Option.bind_eq_some_iff] at h
  obtain ⟨t, ht, h⟩ := h
  obtain ⟨mark, hmark, rfl⟩ := exists_mark_of_hexMark ht
  split at h
  · cases h
  · rename_i hne
    simp only [Option.bind_eq_some_iff, Option.some.injEq, Prod.mk.injEq] at h
    obtain ⟨_, hn, rfl, rfl⟩ := h
    refine ⟨mark ++ t.takeWhile Text.Hex.isDigit, ?_, .hexadecimal hmark (by simpa using hne)
      (fun c hc => List.mem_takeWhile_imp hc) hn⟩
    rw [List.append_assoc, List.takeWhile_append_dropWhile]

/-- What is read as a decimal number is a literal for it. -/
theorem exists_numeral_of_decimal {n : Int} (h : decimal q = some (n, r)) :
    ∃ s, q = s ++ r ∧ Numeral s n := by
  simp only [decimal] at h
  split at h
  · cases h
  · rename_i hne
    simp only [Option.bind_eq_bind, Option.bind_eq_some_iff, Option.some.injEq,
      Prod.mk.injEq] at h
    obtain ⟨_, hn, rfl, rfl⟩ := h
    refine ⟨_, ?_, .decimal (dropChar '#' q).1 (dropChar '-' (dropChar '#' q).2).1
      (by simpa using hne) (fun c hc => List.mem_takeWhile_imp hc) hn⟩
    rw [List.append_assoc, List.append_assoc, List.takeWhile_append_dropWhile,
      ← eq_optionalChar_append, ← eq_optionalChar_append]

/-- What is read as a number of either base is a literal for it. -/
theorem exists_numeral_of_numeral {n : Int} (h : numeral q = some (n, r)) :
    ∃ s, q = s ++ r ∧ Numeral s n := by
  rw [numeral, Option.or_eq_some_iff] at h
  rcases h with h | ⟨_, h⟩
  · exact exists_numeral_of_hexadecimal h
  · exact exists_numeral_of_decimal h

/-- What is read as a number is a literal for it, with no word character after it. -/
theorem number_eq_some_iff {n : Int} :
    number q = some (n, r) ↔ ∃ s, q = s ++ r ∧ Numeral s n ∧ Ends r := by
  constructor
  · intro h
    have hr : Ends r := by
      unfold number at h
      split at h
      · rename_i c t hnumeral
        split at h
        · cases h
        · rename_i hc
          cases h
          exact ends_cons (Bool.not_eq_true _ ▸ hc)
      · cases h
        exact ends_nil
      · cases h
    obtain ⟨s, hs, hn⟩ := exists_numeral_of_numeral (numeral_of_number h)
    exact ⟨s, hs, hn, hr⟩
  · rintro ⟨s, rfl, hn, hr⟩
    exact number_append hn hr

/-- A word with a value is a literal for it. -/
theorem numeral_of_hexLiteral? {name : String} {n : Int} (h : hexLiteral? name = some n) :
    Numeral name.toList n := by
  unfold hexLiteral? at h
  split at h
  · cases h
  · rename_i c digits hname
    split at h
    · rename_i hhex
      cases h
      obtain ⟨hmark, hne, hdigits, hmax⟩ := hhex
      rw [hname]
      show Numeral ([c] ++ digits) _
      refine .hexadecimal ?_ hne (List.all_eq_true.1 hdigits)
        (number?_of_mem (by unfold minNumber; omega) hmax)
      rcases hmark with rfl | rfl <;> decide
    · cases h

/-! ## Operands -/

/-- The characters that an operand can begin with. -/
def isOperandStart (c : Char) : Bool := c == '"' || c == '#' || c == '-' || isWordChar c

namespace Operand

/-- Whether no label can be mistaken for an operand: a string, a number or a register. -/
def isValue : Operand → Bool
  | .label _ => false
  | _ => true

/-- Whether some characters are a way to write an operand. A word is a label if it is neither a
register nor a number. -/
inductive Written : Operand → List Char → Prop
  | string {text : String} {s : List Char} (h : Quotes s text.toList) :
    Written (.string text) ('"' :: (s ++ ['"']))
  | number {n : Int} {s : List Char} (h : Numeral s n) : Written (.number n) s
  | register {name : String} {i : Register} (hword : IsWord name.toList)
    (hregister : Register.ofName? name = some i) : Written (.register i) name.toList
  | label {name : String} (hword : IsWord name.toList) (hregister : Register.ofName? name = none)
    (hnumber : hexLiteral? name = none) : Written (.label name) name.toList

/-- Whether an operand ends where a text begins. A string ends with its quote in any case. -/
def EndsBefore : Operand → List Char → Prop
  | .string _, _ => True
  | _, r => Ends r

variable {o : Operand}

/-- Every operand ends where a word ends. -/
theorem endsBefore_of_ends (hr : Ends r) : o.EndsBefore r := by
  cases o with
  | string => trivial
  | _ => exact hr

/-- What begins a word can also go on with it. -/
theorem isWordChar_of_isWordStart {c : Char} (h : isWordStart c = true) : isWordChar c = true := by
  rw [isWordChar, h, Bool.true_or]

/-- A literal begins like an operand, and not like a string. -/
theorem exists_cons_of_numeral {n : Int} (h : Numeral s n) :
    ∃ c t, s = c :: t ∧ isOperandStart c = true ∧ c ≠ '"' := by
  cases h with
  | hexadecimal hmark hne hdigits hn =>
    simp only [hexMarks, List.mem_cons, List.not_mem_nil, or_false] at hmark
    rcases hmark with rfl | rfl | rfl | rfl <;> exact ⟨_, _, rfl, by decide, by decide⟩
  | @decimal sharp negative digits hne hdigits _ hn =>
    cases sharp with
    | true => exact ⟨'#', _, rfl, rfl, by decide⟩
    | false =>
      cases negative with
      | true => exact ⟨'-', _, rfl, rfl, by decide⟩
      | false =>
        obtain ⟨d, ds, rfl⟩ := List.exists_cons_of_ne_nil hne
        have hd := hdigits d List.mem_cons_self
        refine ⟨d, ds, rfl, ?_, ?_⟩
        · rw [isOperandStart, isWordChar_of_isDigit d hd, Bool.or_true]
        · rintro rfl
          cases hd

/-- A word begins like an operand. -/
theorem exists_cons_of_isWord (h : IsWord s) : ∃ c t, s = c :: t ∧ isOperandStart c = true := by
  obtain ⟨c, t, rfl, hc⟩ := h.exists_cons
  exact ⟨c, t, rfl, by rw [isOperandStart, isWordChar, hc, Bool.true_or, Bool.or_true]⟩

/-- Every operand begins with one of the characters for that. -/
theorem Written.exists_cons (h : o.Written s) : ∃ c t, s = c :: t ∧ isOperandStart c = true := by
  cases h with
  | string h => exact ⟨'"', _, rfl, rfl⟩
  | number h =>
    obtain ⟨c, t, hs, hc, _⟩ := exists_cons_of_numeral h
    exact ⟨c, t, hs, hc⟩
  | register hword => exact exists_cons_of_isWord hword
  | label hword => exact exists_cons_of_isWord hword

/-- No register is a number. -/
theorem hexLiteral?_of_register {name : String} {i : Register}
    (h : Register.ofName? name = some i) : hexLiteral? name = none := by
  unfold Register.ofName? at h
  split at h
  · rename_i letter digit hname
    split at h
    · rename_i hletter
      rw [hexLiteral?, hname]
      refine if_neg fun hmark => ?_
      rcases hletter.1 with rfl | rfl <;> rcases hmark.1 with hx | hx <;> cases hx
    · cases h
  · cases h

/-- Every way to write an operand is read as that operand. -/
theorem scan_append (h : o.Written s) (hr : o.EndsBefore r) : scan (s ++ r) = some (o, r) := by
  cases h with
  | @string text s h =>
    have hstring : Source.string ('"' :: (s ++ ['"']) ++ r) = some (text, r) :=
      string_eq_some_iff.2 ⟨s, by simp, h⟩
    rw [scan, hstring]
  | @number n s h =>
    obtain ⟨c, t, hs, _, hc⟩ := exists_cons_of_numeral h
    have hstring : Source.string (s ++ r) = none := by
      rw [hs, List.cons_append]
      unfold Source.string
      split
      · rename_i heq
        exact absurd (List.cons.inj heq).1 hc
      · rfl
    rw [scan, hstring, number_append h hr]
  | @register name i hword hregister =>
    rw [scan, string_of_word hword, number_of_word hword hr, register_of_word hword hr,
      hexLiteral?_of_register hregister, hregister]
    rfl
  | @label name hword hregister hnumber =>
    rw [scan, string_of_word hword, number_of_word hword hr, register_of_word hword hr, hnumber,
      hregister, word_append hword hr, String.ofList_toList]
    rfl

/-- What is read as an operand is a way to write it. -/
theorem exists_written_of_scan (h : scan q = some (o, r)) :
    ∃ s, q = s ++ r ∧ o.Written s ∧ o.EndsBefore r := by
  unfold scan at h
  split at h
  · rename_i text _ hstring
    cases h
    obtain ⟨s, rfl, hs⟩ := string_eq_some_iff.1 hstring
    exact ⟨'"' :: (s ++ ['"']), by simp, .string hs, trivial⟩
  · split at h
    · rename_i hnumber
      cases h
      obtain ⟨s, rfl, hs, hr⟩ := number_eq_some_iff.1 hnumber
      exact ⟨s, rfl, .number hs, hr⟩
    · rename_i hnumber
      split at h
      · rename_i hregister
        cases h
        obtain ⟨name, hword, hi⟩ := register_eq_some_iff.1 hregister
        obtain ⟨hname, hr, rfl⟩ := word_eq_some_iff.1 hword
        exact ⟨name.toList, rfl, .register hname hi, hr⟩
      · rename_i hregister
        simp only [Option.map_eq_some_iff, Prod.mk.injEq, Prod.exists] at h
        obtain ⟨name, _, hword, rfl, rfl⟩ := h
        obtain ⟨hname, hr, rfl⟩ := word_eq_some_iff.1 hword
        rw [number_of_word hname hr, Option.map_eq_none_iff] at hnumber
        rw [register_of_word hname hr, Option.map_eq_none_iff] at hregister
        exact ⟨name.toList, rfl, .label hname hregister hnumber, hr⟩

/-- An operand is read if and only if it is written and ends there. -/
theorem scan_eq_some_iff :
    scan q = some (o, r) ↔ ∃ s, q = s ++ r ∧ o.Written s ∧ o.EndsBefore r := by
  constructor
  · exact exists_written_of_scan
  · rintro ⟨s, rfl, h, hr⟩
    exact scan_append h hr

/-- An operand that takes a whole text is written in it. -/
theorem scan_eq_some_nil_iff : scan s = some (o, []) ↔ o.Written s := by
  rw [scan_eq_some_iff]
  constructor
  · rintro ⟨t, rfl, h, _⟩
    rwa [List.append_nil]
  · intro h
    exact ⟨s, (List.append_nil s).symm, h, endsBefore_of_ends ends_nil⟩

/-- No text is a way to write two operands. -/
theorem Written.unique {o' : Operand} (h : o.Written s) (h' : o'.Written s) : o = o' := by
  cases (scan_eq_some_nil_iff.2 h).symm.trans (scan_eq_some_nil_iff.2 h')
  rfl

/-- No operand is read where none begins. -/
theorem scan_eq_none_of_head (h : ∀ c ∈ q.head?, isOperandStart c = false) : scan q = none := by
  refine Option.eq_none_iff_forall_ne_some.2 fun ⟨o, r⟩ hscan => ?_
  obtain ⟨s, rfl, hs, _⟩ := exists_written_of_scan hscan
  obtain ⟨c, t, rfl, hc⟩ := hs.exists_cons
  rw [h c rfl] at hc
  cases hc

end Operand

/-! ## White space around tokens -/

/-- What begins an operand is a visible character of the first 128. -/
theorem toNat_of_isOperandStart {c : Char} (h : isOperandStart c = true) :
    33 < c.toNat ∧ c.toNat < 128 := by
  simp only [isOperandStart, isWordChar, isWordStart, Char.isAlpha, Char.isUpper, Char.isLower,
    Char.isDigit, Bool.or_eq_true, Bool.and_eq_true, decide_eq_true_eq, beq_iff_eq, ge_iff_le,
    UInt32.le_iff_toNat_le] at h
  simp only [Char.toNat]
  rcases h with ((rfl | rfl) | rfl) | ((rfl | h) | h)
  · decide
  · decide
  · decide
  · decide
  · have : UInt32.toNat 'A'.val = 65 := rfl
    have : UInt32.toNat 'Z'.val = 90 := rfl
    have : UInt32.toNat 'a'.val = 97 := rfl
    have : UInt32.toNat 'z'.val = 122 := rfl
    omega
  · have : UInt32.toNat '0'.val = 48 := rfl
    have : UInt32.toNat '9'.val = 57 := rfl
    omega

/-- No white space begins an operand. -/
theorem isSpace_of_isOperandStart {c : Char} (h : isOperandStart c = true) :
    Text.isSpace c = false := by
  refine Bool.eq_false_iff.2 fun hspace => ?_
  have := toNat_of_isOperandStart h
  simp only [Text.isSpace, Bool.or_eq_true, Bool.and_eq_true, decide_eq_true_eq, beq_iff_eq]
    at hspace
  omega

/-- No blank begins an operand. -/
theorem isBlank_of_isOperandStart {c : Char} (h : isOperandStart c = true) :
    Text.isBlank c = false := by
  refine Bool.eq_false_iff.2 fun hblank => ?_
  have hspace := isSpace_of_isOperandStart h
  rw [Text.isSpace_of_isBlank hblank] at hspace
  cases hspace

/-- Whether the last character of a text is no white space. -/
def Solid (s : List Char) : Prop := ∃ c ∈ s.getLast?, Text.isSpace c = false

/-- What stands before does not matter to the last character. -/
theorem Solid.append (s : List Char) (h : Solid t) : Solid (s ++ t) := by
  obtain ⟨c, hc, hspace⟩ := h
  refine ⟨c, ?_, hspace⟩
  rw [List.getLast?_append, Option.mem_def.1 hc]
  rfl

/-- Characters of words do not end with white space. -/
theorem solid_of_isWordChar (hne : s ≠ []) (hs : ∀ c ∈ s, isWordChar c = true) : Solid s := by
  refine ⟨s.getLast hne, List.getLast?_eq_some_getLast hne, isSpace_of_isOperandStart ?_⟩
  rw [isOperandStart, hs _ (List.getLast_mem hne), Bool.or_true]

/-- A word does not end with white space. -/
theorem IsWord.solid (h : IsWord s) : Solid s := by
  cases s with
  | nil => exact h.elim
  | cons c t =>
    refine solid_of_isWordChar (List.cons_ne_nil c t) (List.forall_mem_cons.2 ⟨?_, h.2⟩)
    exact Operand.isWordChar_of_isWordStart h.1

/-- A literal does not end with white space. -/
theorem Numeral.solid {n : Int} (h : Numeral s n) : Solid s := by
  cases h with
  | hexadecimal _ hne hdigits =>
    exact (solid_of_isWordChar hne fun c hc => isWordChar_of_isHexDigit c (hdigits c hc)).append _
  | decimal _ _ hne hdigits =>
    exact ((solid_of_isWordChar hne fun c hc =>
      isWordChar_of_isDigit c (hdigits c hc)).append _).append _

/-- An operand does not end with white space. -/
theorem Operand.Written.solid {o : Operand} (h : o.Written s) : Solid s := by
  cases h with
  | string => exact Solid.append ('"' :: _) ⟨'"', rfl, rfl⟩
  | number h => exact h.solid
  | register hword => exact hword.solid
  | label hword => exact hword.solid

/-! ## Lists of operands -/

/-- Whether nothing but a comment or white space can follow, up to the blanks before it. -/
def Finished (r : List Char) : Prop :=
  ∀ c ∈ (Text.skipBlanks r).head?, c = ';' ∨ Text.isSpace c = true

namespace Finished

variable (hr : Finished r)
include hr

/-- After the operands there is nothing that begins one. -/
theorem isOperandStart_head : ∀ c ∈ (Text.skipBlanks r).head?, isOperandStart c = false := by
  intro c hc
  rcases hr c hc with rfl | hspace
  · rfl
  · refine Bool.eq_false_iff.2 fun hstart => ?_
    rw [isSpace_of_isOperandStart hstart] at hspace
    cases hspace

/-- After the operands no operand is read. -/
theorem scan : Operand.scan (Text.skipBlanks r) = none :=
  Operand.scan_eq_none_of_head hr.isOperandStart_head

/-- After the operands every word ends. -/
theorem ends : Ends r := by
  obtain ⟨b, hb, heq⟩ := exists_blanks_append_skipBlanks r
  rw [heq]
  refine hb.ends fun c hc => ?_
  have hstart := hr.isOperandStart_head c hc
  rw [isOperandStart, Bool.or_eq_false_iff] at hstart
  exact hstart.2

/-- After the operands there is no comma. -/
theorem comma : Source.comma r = none := by
  unfold Source.comma
  split
  · rename_i t heq
    rcases hr ',' (by rw [heq]; rfl) with hc | hc <;> cases hc
  · rfl

end Finished

/-- Operands after the first, each after a comma. -/
inductive Further : List Operand → List Char → Prop
  | nil : Further [] []
  | cons {o : Operand} {os : List Operand} {before after s t : List Char} (hbefore : Blanks before)
    (hafter : Blanks after) (h : o.Written s) (hrest : Further os t) :
    Further (o :: os) (before ++ ',' :: (after ++ (s ++ t)))

/-- The operands after a name, with one comma between any two, from the blanks before them. -/
inductive Arguments : List Operand → List Char → Prop
  | none : Arguments [] []
  | some {o : Operand} {os : List Operand} {b s t : List Char} (hne : b ≠ []) (hb : Blanks b)
    (h : o.Written s) (hrest : Further os t) : Arguments (o :: os) (b ++ (s ++ t))

variable {os : List Operand}

/-- There are no blanks at the front of an operand. -/
theorem Operand.Written.skipBlanks_append {o : Operand} (h : o.Written s) :
    Text.skipBlanks (s ++ r) = s ++ r := by
  obtain ⟨c, t, rfl, hc⟩ := h.exists_cons
  refine skipBlanks_of_head fun d hd => ?_
  cases hd
  exact isBlank_of_isOperandStart hc

/-- A word ends where further operands begin. -/
theorem Further.ends (h : Further os s) (hr : Ends r) : Ends (s ++ r) := by
  cases h with
  | nil => exact hr
  | cons hbefore =>
    rw [List.append_assoc]
    exact hbefore.ends (ends_cons rfl)

/-- Further operands are read as they are written. -/
theorem operandsAfter_append (h : Further os s) (hr : Finished r) :
    operandsAfter (s ++ r) = (os, r) := by
  induction h with
  | nil => exact operandsAfter_of_comma_eq_none hr.comma
  | @cons o os before after s t hbefore hafter h hrest ih =>
    have hcomma : comma (before ++ ',' :: (after ++ (s ++ t)) ++ r) = some (s ++ (t ++ r)) := by
      have hskip : Text.skipBlanks (before ++ ',' :: (after ++ (s ++ t)) ++ r) =
          ',' :: (after ++ (s ++ (t ++ r))) := by
        rw [List.append_assoc, hbefore.skipBlanks_append]
        simp [Text.skipBlanks, Text.isBlank]
      rw [comma, hskip]
      simp only [hafter.skipBlanks_append, h.skipBlanks_append]
    rw [operandsAfter_of_scan hcomma
      (Operand.scan_append h (Operand.endsBefore_of_ends (hrest.ends hr.ends))), ih]

/-- What is read as a comma is one, with blanks around it. -/
theorem exists_blanks_of_comma (h : comma q = some t) :
    ∃ before after, Blanks before ∧ Blanks after ∧ q = before ++ ',' :: (after ++ t) := by
  unfold comma at h
  split at h
  · rename_i u hu
    cases h
    obtain ⟨before, hbefore, hq⟩ := exists_blanks_append_skipBlanks q
    obtain ⟨after, hafter, hu'⟩ := exists_blanks_append_skipBlanks u
    refine ⟨before, after, hbefore, hafter, ?_⟩
    rw [← hu', ← hu, ← hq]
  · cases h

/-- What is read as further operands is a way to write them. -/
theorem exists_further (q : List Char) :
    ∃ s, q = s ++ (operandsAfter q).2 ∧ Further (operandsAfter q).1 s := by
  induction q using operandsAfter.induct with
  | case1 q hcomma =>
    rw [operandsAfter_of_comma_eq_none hcomma]
    exact ⟨[], rfl, .nil⟩
  | case2 q t hcomma hscan =>
    rw [operandsAfter_of_scan_eq_none hcomma hscan]
    exact ⟨[], rfl, .nil⟩
  | case3 q t hcomma o r hscan _ _ _ _ ih =>
    rw [operandsAfter_of_scan hcomma hscan]
    obtain ⟨before, after, hbefore, hafter, rfl⟩ := exists_blanks_of_comma hcomma
    obtain ⟨s, rfl, hs, _⟩ := Operand.exists_written_of_scan hscan
    obtain ⟨u, hu, hrest⟩ := ih
    refine ⟨before ++ ',' :: (after ++ (s ++ u)), ?_, .cons hbefore hafter hs hrest⟩
    rw [List.append_assoc, List.cons_append, List.append_assoc, List.append_assoc, ← hu]

/-- A name ends where its operands begin. -/
theorem Arguments.ends (h : Arguments os s) (hr : Ends r) : Ends (s ++ r) := by
  cases h with
  | none => exact hr
  | some hne hb =>
    obtain ⟨c, b, rfl⟩ := List.exists_cons_of_ne_nil hne
    exact ends_cons (isWordChar_of_isBlank (hb c List.mem_cons_self))

/-- Operands are read as they are written. -/
theorem operands_append (h : Arguments os s) (hr : Finished r) : operands (s ++ r) = (os, r) := by
  cases h with
  | none =>
    have hnone : (Text.skipSomeBlanks r).bind operandList = none := by
      refine Option.eq_none_iff_forall_ne_some.2 fun v hv => ?_
      obtain ⟨t, ht, hlist⟩ := Option.bind_eq_some_iff.1 hv
      obtain ⟨b, hne, hb, rfl⟩ := exists_blanks_of_skipSomeBlanks ht
      rw [hb.skipSomeBlanks_append hne] at ht
      have hscan := hr.scan
      rw [hb.skipBlanks_append, Option.some.inj ht] at hscan
      simp [operandList, hscan] at hlist
    rw [List.nil_append, operands, hnone]
  | @some o os b s t hne hb h hrest =>
    have hskip : Text.skipSomeBlanks (b ++ (s ++ t) ++ r) = some (s ++ (t ++ r)) := by
      rw [List.append_assoc, hb.skipSomeBlanks_append hne, List.append_assoc, h.skipBlanks_append]
    have hscan : Operand.scan (s ++ (t ++ r)) = some (o, t ++ r) :=
      Operand.scan_append h (Operand.endsBefore_of_ends (hrest.ends hr.ends))
    have hlist : operandList (s ++ (t ++ r)) = some (o :: os, r) := by
      simp only [operandList, hscan, Option.bind_eq_bind, Option.bind_some,
        operandsAfter_append hrest hr]
    simp only [operands, hskip, Option.bind_some, hlist]

/-- What is read as operands is a way to write them. -/
theorem exists_arguments (q : List Char) :
    ∃ s, q = s ++ (operands q).2 ∧ Arguments (operands q).1 s := by
  unfold operands
  split
  · rename_i os r hbind
    obtain ⟨t, ht, hlist⟩ := Option.bind_eq_some_iff.1 hbind
    obtain ⟨b, hne, hb, rfl⟩ := exists_blanks_of_skipSomeBlanks ht
    simp only [operandList, Option.bind_eq_bind, Option.bind_eq_some_iff, Option.some.injEq,
      Prod.mk.injEq, Prod.exists] at hlist
    obtain ⟨o, u, hscan, rfl, rfl⟩ := hlist
    obtain ⟨s, rfl, hs, _⟩ := Operand.exists_written_of_scan hscan
    obtain ⟨v, hv, hrest⟩ := exists_further u
    refine ⟨b ++ (s ++ v), ?_, .some hne hb hs hrest⟩
    rw [List.append_assoc, List.append_assoc, ← hv]
  · exact ⟨[], rfl, .none⟩

/-! ## Values -/

/-- A string, number or register is read if and only if an operand that is a value is. -/
theorem exists_isValue_iff :
    ((string t).isSome || (number t).isSome || (register t).isSome) = true ↔
      ∃ o r, Operand.scan t = some (o, r) ∧ o.isValue = true := by
  unfold Operand.scan
  cases string t with
  | some v => simp [Operand.isValue]
  | none =>
    cases number t with
    | some v => simp [Operand.isValue]
    | none =>
      cases register t with
      | some v => simp [Operand.isValue]
      | none => cases word t <;> simp [Operand.isValue]

/-- Whether blanks follow, and then a string, a number or a register. -/
def ValueFollows (q : List Char) : Prop :=
  ∃ (b s r : List Char) (o : Operand), q = b ++ (s ++ r) ∧ b ≠ [] ∧ Blanks b ∧ o.Written s ∧
    o.EndsBefore r ∧ o.isValue = true

/-- A value is found behind blanks if and only if one is written there. -/
theorem startsWithValue_iff : startsWithValue q = true ↔ ValueFollows q := by
  constructor
  · intro h
    unfold startsWithValue at h
    split at h
    · rename_i t ht
      obtain ⟨b, hne, hb, rfl⟩ := exists_blanks_of_skipSomeBlanks ht
      obtain ⟨o, r, hscan, ho⟩ := exists_isValue_iff.1 h
      obtain ⟨s, rfl, hs, hr⟩ := Operand.exists_written_of_scan hscan
      exact ⟨b, s, r, o, rfl, hne, hb, hs, hr, ho⟩
    · cases h
  · rintro ⟨b, s, r, o, rfl, hne, hb, hs, hr, ho⟩
    unfold startsWithValue
    rw [hb.skipSomeBlanks_append hne, hs.skipBlanks_append]
    exact exists_isValue_iff.2 ⟨o, r, Operand.scan_append hs hr, ho⟩

/-- A value follows a name if it is the first of the operands. -/
theorem startsWithValue_append (h : Arguments os s) (hr : Finished r) :
    startsWithValue (s ++ r) = os.head?.any Operand.isValue := by
  cases h with
  | none =>
    refine Bool.eq_false_iff.2 fun hvalue => ?_
    obtain ⟨b, s, t, o, heq, hne, hb, hs, ht, _⟩ := startsWithValue_iff.1 hvalue
    have hscan := hr.scan
    rw [List.nil_append] at heq
    rw [heq, hb.skipBlanks_append, hs.skipBlanks_append, Operand.scan_append hs ht] at hscan
    cases hscan
  | @some o os b s t hne hb h hrest =>
    have hscan : Operand.scan (s ++ (t ++ r)) = some (o, t ++ r) :=
      Operand.scan_append h (Operand.endsBefore_of_ends (hrest.ends hr.ends))
    unfold startsWithValue
    rw [List.append_assoc, hb.skipSomeBlanks_append hne, List.append_assoc, h.skipBlanks_append]
    rw [Bool.eq_iff_iff]
    refine exists_isValue_iff.trans ?_
    rw [hscan]
    simp

end LittleComputer.Source
