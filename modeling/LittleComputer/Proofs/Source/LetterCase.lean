import LittleComputer.Proofs.Source.Rendering
import Mathlib

/-!
# Letter case

Mnemonics, names of directives, registers and hexadecimal numerals can be written in either letter
case. A line in which such tokens are written in another case is read as the same line, but for the
names of instructions and directives, which are kept as written: `Line.Recased` relates the two
texts, token by token as they are written. What is a label stays one, since the words that cannot be
labels are the same in either case.
-/

namespace LittleComputer

open Source

/-! ## Characters -/

/-- What is no part of a word has no letter case. -/
theorem toUpper_of_not_isWordChar {c : Char} (h : isWordChar c = false) : c.toUpper = c := by
  unfold Char.toUpper
  refine dif_neg fun hlower => ?_
  have hword : isWordChar c = true := by
    have : c.isLower = true := by simpa [Char.isLower] using hlower
    rw [isWordChar, isWordStart, Char.isAlpha, this]
    simp
  rw [h] at hword
  cases hword

/-- What does not depend on the case of any of the first 128 characters depends on that of none. -/
theorem apply_toUpper {α : Type} {f : Char → α}
    (hf : ∀ n < 128, f (Char.ofNat n).toUpper = f (Char.ofNat n)) (c : Char) :
    f c.toUpper = f c := by
  cases hc : isWordChar c with
  | true => exact of_isWordChar (P := fun c => f c.toUpper = f c) hf hc
  | false => rw [toUpper_of_not_isWordChar hc]

/-- What does not depend on the case of the first 128 characters does not depend on it at all. -/
theorem toUpper_iff {P : Char → Prop}
    (hP : ∀ n < 128, P (Char.ofNat n).toUpper ↔ P (Char.ofNat n)) (c : Char) :
    P c.toUpper ↔ P c :=
  iff_of_eq (apply_toUpper (fun n hn => propext (hP n hn)) c)

/-- A word begins in either case. -/
theorem isWordStart_toUpper (c : Char) : isWordStart c.toUpper = isWordStart c :=
  apply_toUpper (by decide +kernel) c

/-- A word goes on in either case. -/
theorem isWordChar_toUpper (c : Char) : isWordChar c.toUpper = isWordChar c :=
  apply_toUpper (by decide +kernel) c

/-- A digit has the same value in either case. -/
theorem value?_toUpper (c : Char) : Text.Hex.value? c.toUpper = Text.Hex.value? c :=
  apply_toUpper (by decide +kernel) c

/-- A digit is one in either case. -/
theorem isHexDigit_toUpper (c : Char) : Text.Hex.isDigit c.toUpper = Text.Hex.isDigit c := by
  rw [Text.Hex.isDigit, value?_toUpper, Text.Hex.isDigit]

/-! ## Texts in another letter case -/

namespace Text

/-- Whether two texts differ in nothing but the case of the letters A to Z. -/
def SameLetters (s t : List Char) : Prop := s.map Char.toUpper = t.map Char.toUpper

instance : DecidableRel SameLetters := fun s t =>
  inferInstanceAs (Decidable (s.map Char.toUpper = t.map Char.toUpper))

namespace SameLetters

variable {s t : List Char}

/-- Names that differ in letter case are the same in upper case. -/
theorem upperCase_eq {name name' : String} (h : SameLetters name.toList name'.toList) :
    upperCase name = upperCase name' :=
  congrArg String.ofList h

/-- What holds of a text in upper case as well holds of both texts or of neither. -/
theorem iff {P : List Char → Prop} (hP : ∀ s, P (s.map Char.toUpper) ↔ P s)
    (h : SameLetters s t) : P s ↔ P t := by
  rw [← hP s, h, hP t]

/-- A text in another letter case has two parts wherever the text has. -/
theorem exists_append {u : List Char} (h : SameLetters (s ++ t) u) :
    ∃ s' t', u = s' ++ t' ∧ SameLetters s s' ∧ SameLetters t t' := by
  rw [SameLetters, List.map_append, eq_comm] at h
  obtain ⟨s', t', rfl, hs, ht⟩ := List.map_eq_append_iff.1 h
  exact ⟨s', t', rfl, hs.symm, ht.symm⟩

end SameLetters

end Text

namespace Source

open Text (SameLetters)

variable {s s' t t' : List Char} {name name' : String} {os : List Operand}

/-! ## Words and numerals in another letter case -/

/-- A word is one in either case. -/
theorem isWord_map_toUpper (s : List Char) : IsWord (s.map Char.toUpper) ↔ IsWord s := by
  cases s with
  | nil => exact Iff.rfl
  | cons c t => simp [IsWord, isWordStart_toUpper, isWordChar_toUpper]

/-- Digits are digits in either case. -/
theorem forall_isHexDigit_map_toUpper (s : List Char) :
    (∀ c ∈ s.map Char.toUpper, Text.Hex.isDigit c = true) ↔
      ∀ c ∈ s, Text.Hex.isDigit c = true := by
  simp [isHexDigit_toUpper]

/-- Digits denote the same number in either case. -/
theorem ofDigits_map_toUpper (s : List Char) :
    Text.Hex.ofDigits (s.map Char.toUpper) = Text.Hex.ofDigits s := by
  simp only [Text.Hex.ofDigits, List.foldl_map, value?_toUpper]

/-- An `x` is one in either case. -/
theorem toUpper_isMark_iff (c : Char) :
    (c.toUpper = 'x' ∨ c.toUpper = 'X') ↔ (c = 'x' ∨ c = 'X') :=
  toUpper_iff (P := fun c => c = 'x' ∨ c = 'X') (by decide +kernel) c

/-- A mark before digits is one in either case. -/
theorem mem_hexMarks_map_toUpper (s : List Char) :
    s.map Char.toUpper ∈ hexMarks ↔ s ∈ hexMarks := by
  have hzero (c : Char) : c.toUpper = '0' ↔ c = '0' :=
    toUpper_iff (P := (· = '0')) (by decide +kernel) c
  rcases s with _ | ⟨c, _ | ⟨d, _ | ⟨e, t⟩⟩⟩
  · simp [hexMarks]
  · simpa [hexMarks] using toUpper_isMark_iff c
  · simp [hexMarks, hzero, ← and_or_left, toUpper_isMark_iff]
  · simp [hexMarks]

/-- A register has its name in either case. -/
theorem Register.ofName?_upperCase (name : String) :
    Register.ofName? (Text.upperCase name) = Register.ofName? name := by
  have hletter (c : Char) : (c.toUpper = 'R' ∨ c.toUpper = 'r') ↔ (c = 'R' ∨ c = 'r') :=
    toUpper_iff (P := fun c => c = 'R' ∨ c = 'r') (by decide +kernel) c
  have hdigit := apply_toUpper (f := fun d : Char =>
    if '0' ≤ d ∧ d ≤ '7' then some (Register.ofBits (d.toNat - '0'.toNat)) else none)
    (by decide +kernel)
  rw [Register.ofName?, Text.upperCase, String.toList_ofList, Register.ofName?]
  rcases name.toList with _ | ⟨c, _ | ⟨d, _ | ⟨e, t⟩⟩⟩
  · rfl
  · rfl
  · simp only [List.map_cons, List.map_nil, ite_and, hletter, hdigit]
  · rfl

/-- A hexadecimal literal is the same number in either case. -/
theorem hexLiteral?_upperCase (name : String) :
    hexLiteral? (Text.upperCase name) = hexLiteral? name := by
  rw [hexLiteral?, Text.upperCase, String.toList_ofList, hexLiteral?]
  cases name.toList with
  | nil => rfl
  | cons c digits =>
    have hall : (digits.map Char.toUpper).all Text.Hex.isDigit = digits.all Text.Hex.isDigit := by
      simp only [List.all_map, Function.comp_def, isHexDigit_toUpper]
    simp only [List.map_cons, toUpper_isMark_iff, ne_eq, List.map_eq_nil_iff, hall,
      ofDigits_map_toUpper]

section Names

variable (h : SameLetters name.toList name'.toList)
include h

/-- Names that differ in letter case are of one mnemonic. -/
theorem Mnemonic.ofName?_eq : Mnemonic.ofName? name = Mnemonic.ofName? name' := by
  rw [Mnemonic.ofName?, h.upperCase_eq, Mnemonic.ofName?]

/-- Names that differ in letter case are of one directive. -/
theorem Directive.ofName?_eq : Directive.ofName? name = Directive.ofName? name' := by
  rw [Directive.ofName?, h.upperCase_eq, Directive.ofName?]

/-- Names that differ in letter case are of one register. -/
theorem registerOfName?_eq : Register.ofName? name = Register.ofName? name' := by
  rw [← Register.ofName?_upperCase, h.upperCase_eq, Register.ofName?_upperCase]

/-- Names that differ in letter case are literals of one number. -/
theorem hexLiteral?_eq : hexLiteral? name = hexLiteral? name' := by
  rw [← hexLiteral?_upperCase, h.upperCase_eq, hexLiteral?_upperCase]

/-- The words that can be labels are the same in either case. -/
theorem isLabelName_eq : isLabelName name = isLabelName name' := by
  rw [isLabelName, Mnemonic.ofName?_eq h, registerOfName?_eq h, isLabelName]

end Names

/-- A hexadecimal numeral denotes the same number in another case. -/
theorem numeral_of_sameLetters {mark digits : List Char} {n : Int} (hmark : mark ∈ hexMarks)
    (hne : digits ≠ []) (hdigits : ∀ c ∈ digits, Text.Hex.isDigit c = true)
    (hn : number? (Text.Hex.ofDigits digits) = some n) (ht : SameLetters (mark ++ digits) t) :
    Numeral t n := by
  obtain ⟨mark', digits', rfl, hmarks, hletters⟩ := ht.exists_append
  refine .hexadecimal ((hmarks.iff mem_hexMarks_map_toUpper).1 hmark) ?_
    ((hletters.iff (P := fun s => ∀ c ∈ s, Text.Hex.isDigit c = true)
      forall_isHexDigit_map_toUpper).1 hdigits) ?_
  · rintro rfl
    exact hne (List.map_eq_nil_iff.1 hletters)
  · rwa [← ofDigits_map_toUpper, ← hletters, ofDigits_map_toUpper]

/-! ## Tokens in another letter case -/

/-- Two ways to write an operand, which differ in the letter case of a register or of a hexadecimal
numeral. Labels, strings and decimal numerals have one way each here. -/
inductive Operand.Recased : Operand → List Char → List Char → Prop
  | register {name : String} {i : Register} (hword : IsWord name.toList)
    (hregister : Register.ofName? name = some i) {name' : String}
    (h : SameLetters name.toList name'.toList) : Recased (.register i) name.toList name'.toList
  | hexadecimal {mark digits : List Char} (hmark : mark ∈ hexMarks) (hne : digits ≠ [])
    (hdigits : ∀ c ∈ digits, Text.Hex.isDigit c = true) {n : Int}
    (hn : number? (Text.Hex.ofDigits digits) = some n) {t : List Char}
    (h : SameLetters (mark ++ digits) t) : Recased (.number n) (mark ++ digits) t
  | same {o : Operand} {s : List Char} (h : o.Written s) : Recased o s s

/-- Operands after the first in another letter case. -/
inductive Further.Recased : List Operand → List Char → List Char → Prop
  | nil : Recased [] [] []
  | cons {o : Operand} {os : List Operand} {before after s s' t t' : List Char}
    (hbefore : Blanks before) (hafter : Blanks after) (h : o.Recased s s')
    (hrest : Recased os t t') :
    Recased (o :: os) (before ++ ',' :: (after ++ (s ++ t)))
      (before ++ ',' :: (after ++ (s' ++ t')))

/-- The operands after a name in another letter case. -/
inductive Arguments.Recased : List Operand → List Char → List Char → Prop
  | none : Recased [] [] []
  | some {o : Operand} {os : List Operand} {b s s' t t' : List Char} (hne : b ≠ []) (hb : Blanks b)
    (h : o.Recased s s') (hrest : Further.Recased os t t') :
    Recased (o :: os) (b ++ (s ++ t)) (b ++ (s' ++ t'))

/-- An instruction or directive in another letter case. -/
inductive Content.Recased : Content → List Char → List Char → Prop
  | instruction {name name' : String} {os : List Operand} {s s' : List Char}
    (hname : IsWord name.toList) (hletters : SameLetters name.toList name'.toList)
    (h : Arguments.Recased os s s') :
    Recased (.instruction name os) (name.toList ++ s) (name'.toList ++ s')
  | directive {name name' : String} {os : List Operand} {s s' : List Char}
    (hname : IsWord name.toList) (hletters : SameLetters name.toList name'.toList)
    (h : Arguments.Recased os s s') :
    Recased (.directive name os) ('.' :: (name.toList ++ s)) ('.' :: (name'.toList ++ s'))

/-- A line with its instruction or directive in another letter case. The label, the blanks and the
comment are left as they are. -/
inductive Line.Recased : List Char → List Char → Prop
  | mk {label : Option String} {c : Content} {comment : Option String}
    {opening body body' gap ending : List Char} (hopening : Opening label (some c) opening)
    (hbody : c.Recased body body') (hgap : Blanks gap) (hending : Ending comment ending) :
    Recased (opening ++ (body ++ (gap ++ ending))) (opening ++ (body' ++ (gap ++ ending)))

/-- Whether two sources have the same lines, but for the letter case of some. -/
def RecasedLines (texts texts' : List (List Char)) : Prop :=
  List.Forall₂ (fun text text' => text = text' ∨ Line.Recased text text') texts texts'

/-! ## Reading in either letter case -/

/-- Both texts are ways to write the operand. -/
theorem Operand.Recased.written {o : Operand} (h : o.Recased s s') :
    o.Written s ∧ o.Written s' := by
  cases h with
  | register hword hregister h =>
    refine ⟨.register hword hregister, .register ((h.iff isWord_map_toUpper).1 hword) ?_⟩
    rw [← registerOfName?_eq h, hregister]
  | hexadecimal hmark hne hdigits hn h =>
    exact ⟨.number (.hexadecimal hmark hne hdigits hn),
      .number (numeral_of_sameLetters hmark hne hdigits hn h)⟩
  | same h => exact ⟨h, h⟩

/-- Both texts are ways to write the further operands. -/
theorem Further.Recased.further (h : Further.Recased os s s') : Further os s ∧ Further os s' := by
  induction h with
  | nil => exact ⟨.nil, .nil⟩
  | cons hbefore hafter h _ ih =>
    exact ⟨.cons hbefore hafter h.written.1 ih.1, .cons hbefore hafter h.written.2 ih.2⟩

/-- Both texts are ways to write the operands. -/
theorem Arguments.Recased.arguments (h : Arguments.Recased os s s') :
    Arguments os s ∧ Arguments os s' := by
  cases h with
  | none => exact ⟨.none, .none⟩
  | some hne hb h hrest =>
    exact ⟨.some hne hb h.written.1 hrest.further.1, .some hne hb h.written.2 hrest.further.2⟩

/-- Whether two instructions, or two directives, differ in nothing but the letter case of their
names. -/
inductive Content.Alike : Content → Content → Prop
  | instruction {name name' : String} (h : SameLetters name.toList name'.toList)
    (os : List Operand) : Alike (.instruction name os) (.instruction name' os)
  | directive {name name' : String} (h : SameLetters name.toList name'.toList)
    (os : List Operand) : Alike (.directive name os) (.directive name' os)

namespace Content

variable {c c' : Content}

/-- A content differs from itself in nothing. -/
theorem Alike.refl (c : Content) : c.Alike c := by
  cases c with
  | instruction name os => exact .instruction rfl os
  | directive name os => exact .directive rfl os

/-- The same for a content that may be missing. -/
theorem Alike.rel_refl (content : Option Content) : Option.Rel Alike content content := by
  cases content with
  | none => exact .none
  | some c => exact .some (.refl c)

/-- The other text is a way to write a content that differs in letter case only. -/
theorem Recased.exists_written (h : c.Recased s s') :
    c.Written s ∧ ∃ c', c.Alike c' ∧ c'.Written s' := by
  cases h with
  | instruction hname hletters h =>
    exact ⟨.instruction hname h.arguments.1, _, .instruction hletters _,
      .instruction ((hletters.iff isWord_map_toUpper).1 hname) h.arguments.2⟩
  | directive hname hletters h =>
    exact ⟨.directive hname h.arguments.1, _, .directive hletters _,
      .directive ((hletters.iff isWord_map_toUpper).1 hname) h.arguments.2⟩

/-- A name stands first in either case. -/
theorem Alike.standsFirst (h : c.Alike c') (hc : c.StandsFirst) : c'.StandsFirst := by
  cases h with
  | instruction h os =>
    rw [StandsFirst, ← isLabelName_eq h]
    exact hc
  | directive => trivial

/-- A name stands second in either case. -/
theorem Alike.standsSecond (h : c.Alike c') (hc : c.StandsSecond) : c'.StandsSecond := by
  cases h with
  | instruction h os =>
    rw [StandsSecond, ← registerOfName?_eq h, ← hexLiteral?_eq h]
    exact hc
  | directive => trivial

/-- What a line can begin with depends on the letter case of nothing that follows it. -/
theorem Alike.opening (h : c.Alike c') {label : Option String} (ho : Opening label (some c) s) :
    Opening label (some c') s := by
  cases ho with
  | unlabelled hlead hfirst =>
    exact .unlabelled hlead (by rintro _ ⟨⟩; exact h.standsFirst (hfirst c rfl))
  | colon hlead hword hname hbefore hafter => exact .colon hlead hword hname hbefore hafter
  | bare hlead hword hname hafter hsecond hapart =>
    refine .bare hlead hword hname hafter ?_ ?_
    · rintro _ ⟨⟩
      exact h.standsSecond (hsecond c rfl)
    · rintro mnemonic os ⟨⟩
      cases h with
      | instruction _ os => exact hapart _ os rfl

end Content

/-- A line in another letter case is read as the same line, but for the case of a name in it. -/
theorem Line.Recased.exists_parse (h : Line.Recased s t) :
    ∃ label c c' comment, c.Alike c' ∧ Line.parse s = .ok ⟨label, some c, comment⟩ ∧
      Line.parse t = .ok ⟨label, some c', comment⟩ := by
  obtain ⟨hopening, hbody, hgap, hending⟩ := h
  obtain ⟨hwritten, c', halike, hwritten'⟩ := hbody.exists_written
  exact ⟨_, _, c', _, halike, (Written.mk hopening (.some hwritten) hgap hending).parse,
    (Written.mk (halike.opening hopening) (.some hwritten') hgap hending).parse⟩

end Source

end LittleComputer
