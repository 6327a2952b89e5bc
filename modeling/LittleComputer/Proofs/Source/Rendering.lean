import LittleComputer.Proofs.Source.Spelling
import Mathlib

/-!
# Lines written out

Every rendering of a line is read as that line, with any blanks, with any spelling of its numbers
and strings, and with a colon after the label or not. What is read of a line is all there is to it,
so the line can be written out again from what was read.
-/

namespace LittleComputer.Source

variable {s t : List Char} {name : String}

/-! ## Mnemonics as words -/

/-- The first letters of a name are those of its upper case. -/
theorem exists_cons_cons_of_upperCase {a b : Char} {u : List Char}
    (h : (Text.upperCase name).toList = a :: b :: u) :
    ∃ c d t, name.toList = c :: d :: t ∧ c.toUpper = a ∧ d.toUpper = b := by
  rw [Text.upperCase, String.toList_ofList] at h
  obtain ⟨c, _, hname, hc, h⟩ := List.map_eq_cons_iff.1 h
  obtain ⟨d, t, rfl, hd, _⟩ := List.map_eq_cons_iff.1 h
  exact ⟨c, d, t, hname, hc, hd⟩

/-- The first two letters of the mnemonics. -/
def mnemonicStarts : List (Char × Char) :=
  [('A', 'D'), ('A', 'N'), ('X', 'O'), ('N', 'O'), ('J', 'M'), ('J', 'S'), ('R', 'E'), ('L', 'D'),
    ('L', 'E'), ('S', 'T'), ('L', 'S'), ('R', 'S'), ('R', 'T'), ('T', 'R'), ('G', 'E'), ('O', 'U'),
    ('P', 'U'), ('I', 'N'), ('H', 'A'), ('B', 'R')]

/-- Every mnemonic begins with two of these letters, also a branch, whose conditions follow the
`BR`. -/
theorem exists_start_of_mnemonic {m : Mnemonic} (h : Mnemonic.ofName? name = some m) :
    ∃ c d t, name.toList = c :: d :: t ∧ (c.toUpper, d.toUpper) ∈ mnemonicStarts := by
  have hstart {a b : Char} {u : List Char} (hupper : (Text.upperCase name).toList = a :: b :: u)
      (hmem : (a, b) ∈ mnemonicStarts) :
      ∃ c d t, name.toList = c :: d :: t ∧ (c.toUpper, d.toUpper) ∈ mnemonicStarts := by
    obtain ⟨c, d, t, hname, rfl, rfl⟩ := exists_cons_cons_of_upperCase hupper
    exact ⟨c, d, t, hname, hmem⟩
  unfold Mnemonic.ofName? at h
  split at h
  case h_28 =>
    split at h
    · rename_i heq
      exact hstart heq (by decide)
    · cases h
  all_goals
    rename_i heq
    exact hstart (congrArg String.toList heq) (by decide)

/-- What holds of the first 128 characters holds of those that words are made of. -/
theorem of_isWordChar {P : Char → Prop} (h : ∀ n < 128, P (Char.ofNat n)) {c : Char}
    (hc : isWordChar c = true) : P c := by
  have hlt := (toNat_of_isOperandStart (c := c) (by rw [isOperandStart, hc, Bool.or_true])).2
  have := h c.toNat hlt
  rwa [Char.ofNat_toNat] at this

/-- The letter O is no hexadecimal digit, in either case. -/
theorem toUpper_ne_of_isHexDigit {c : Char} (h : Text.Hex.isDigit c = true) : c.toUpper ≠ 'O' :=
  of_isWordChar (P := fun c => Text.Hex.isDigit c = true → c.toUpper ≠ 'O') (by decide +kernel)
    (isWordChar_of_isHexDigit c h) h

/-- A digit has no letter case. -/
theorem toUpper_of_isDigit {c : Char} (h : c.isDigit = true) : c.toUpper = c :=
  of_isWordChar (P := fun c => c.isDigit = true → c.toUpper = c) (by decide +kernel)
    (isWordChar_of_isDigit c h) h

/-- No mnemonic is a register. -/
theorem register_of_mnemonic {m : Mnemonic} (h : Mnemonic.ofName? name = some m) :
    Register.ofName? name = none := by
  obtain ⟨c, d, t, hname, hstart⟩ := exists_start_of_mnemonic h
  unfold Register.ofName?
  split
  · rename_i letter digit heq
    rw [hname] at heq
    cases heq
    refine if_neg fun ⟨_, hzero, hseven⟩ => ?_
    have hdigit : d.isDigit = true := by
      rw [Char.isDigit, Bool.and_eq_true, decide_eq_true_eq, decide_eq_true_eq]
      exact ⟨hzero, Char.le_trans hseven (by decide)⟩
    have hletters : ∀ p ∈ mnemonicStarts, p.2.isDigit = false := by decide
    have hletter := hletters _ hstart
    rw [toUpper_of_isDigit hdigit, hdigit] at hletter
    cases hletter
  · rfl

/-- No mnemonic is a number, not even the one that begins with an `X`. -/
theorem hexLiteral?_of_mnemonic {m : Mnemonic} (h : Mnemonic.ofName? name = some m) :
    hexLiteral? name = none := by
  obtain ⟨c, d, t, hname, hstart⟩ := exists_start_of_mnemonic h
  rw [hexLiteral?, hname]
  refine if_neg ?_
  rintro ⟨hmark, _, hdigits, _⟩
  have hX : c.toUpper = 'X' := by rcases hmark with rfl | rfl <;> rfl
  have hall : ∀ p ∈ mnemonicStarts, p.1 = 'X' → p.2 = 'O' := by decide
  exact toUpper_ne_of_isHexDigit (List.all_eq_true.1 hdigits d List.mem_cons_self)
    (hall _ hstart hX)

/-! ## Renderings -/

/-- Ways to set down the label of a line, with blanks after it if there is content to keep apart. -/
inductive Heading : Option String → Option Content → List Char → Prop
  | none {content : Option Content} : Heading none content []
  | some {content : Option Content} {name : String} {after : List Char} (colon : Bool)
    (hword : IsWord name.toList) (hname : isLabelName name = true) (hafter : Blanks after)
    (hapart : content ≠ none → after ≠ []) :
    Heading (some name) content (name.toList ++ (optionalChar ':' colon ++ after))

/-- A comment as it stands at the end of a line, if there is one. -/
inductive Remark : Option String → List Char → Prop
  | none : Remark none []
  | some {t : List Char} (ht : ∀ c ∈ t, Text.isLineEnd c = false) :
    Remark (some (String.ofList (';' :: t))) (';' :: t)

namespace Line

/-- Ways to render a line with a known mnemonic or any directive. Blanks at its end are a part of
the comment if there is one. -/
inductive Rendering : Line → List Char → Prop
  | mk {label : Option String} {content : Option Content} {comment : Option String}
    {lead heading body gap remark : List Char} (hlead : Blanks lead)
    (hheading : Heading label content heading) (hbody : Body content body)
    (hknown : ∀ name os, content = some (.instruction name os) → (Mnemonic.ofName? name).isSome)
    (hgap : Blanks gap) (hremark : Remark comment remark) :
    Rendering ⟨label, content, comment⟩ (lead ++ (heading ++ (body ++ (gap ++ remark))))

variable {line : Line}

/-- A known mnemonic can stand first on its line. -/
theorem standsFirst_of_known {content : Option Content}
    (h : ∀ name os, content = some (.instruction name os) → (Mnemonic.ofName? name).isSome) :
    ∀ c ∈ content, c.StandsFirst := by
  rintro c rfl
  cases c with
  | instruction name os =>
    refine Or.inl ?_
    rw [isLabelName, Bool.and_eq_false_iff]
    exact Or.inl (by simpa using h name os rfl)
  | directive => trivial

/-- A known mnemonic can stand second on its line. -/
theorem standsSecond_of_known {content : Option Content}
    (h : ∀ name os, content = some (.instruction name os) → (Mnemonic.ofName? name).isSome) :
    ∀ c ∈ content, c.StandsSecond := by
  rintro c rfl
  cases c with
  | instruction name os =>
    obtain ⟨m, hm⟩ := Option.isSome_iff_exists.1 (h name os rfl)
    exact ⟨register_of_mnemonic hm, hexLiteral?_of_mnemonic hm⟩
  | directive => trivial

/-- Every rendering of a line is a way to write it. -/
theorem Rendering.written (h : line.Rendering s) : line.Written s := by
  obtain ⟨hlead, hheading, hbody, hknown, hgap, hremark⟩ := h
  rename_i label content comment lead heading body gap remark
  have hending : Ending comment remark := by
    cases hremark with
    | none => exact ending_nil
    | some ht => exact ending_of_onLine ht
  have hopening : Opening label content (lead ++ heading) := by
    cases hheading with
    | none =>
      rw [List.append_nil]
      exact .unlabelled hlead (standsFirst_of_known hknown)
    | some colon hword hname hafter hapart =>
      cases colon with
      | true => exact .colon hlead hword hname blanks_nil hafter
      | false =>
        refine .bare hlead hword hname hafter (standsSecond_of_known hknown) ?_
        rintro mnemonic os rfl
        exact hapart (Option.some_ne_none _)
  rw [← List.append_assoc]
  exact .mk hopening hbody hgap hending

end Line

/-! ## Canonical renderings -/

/-- A character between two quotes, with one of the six escapes if it has one. -/
def escapeChar : Char → List Char
  | '\\' => ['\\', '\\']
  | '"' => ['\\', '"']
  | '\n' => ['\\', 'n']
  | '\t' => ['\\', 't']
  | '\r' => ['\\', 'r']
  | '\x00' => ['\\', '0']
  | c => [c]

/-- A character with its escape stands for itself. -/
theorem quotes_escapeChar (c : Char) (h : Quotes s t) : Quotes (escapeChar c ++ s) (c :: t) := by
  unfold escapeChar
  split
  case h_7 hescape hquote _ _ _ _ => exact .plain hquote hescape h
  all_goals exact .escape rfl h

/-- Characters with their escapes stand for themselves. -/
theorem quotes_flatMap_escapeChar (t : List Char) : Quotes (t.flatMap escapeChar) t := by
  induction t with
  | nil => exact .nil
  | cons c t ih => exact quotes_escapeChar c ih

/-- No line ends within an escaped character. -/
theorem isLineEnd_of_mem_escapeChar {c d : Char} (h : c ∈ escapeChar d) :
    Text.isLineEnd c = false := by
  unfold escapeChar at h
  split at h
  case h_7 hnewline _ hreturn _ =>
    obtain rfl := List.mem_singleton.1 h
    rw [Text.isLineEnd, beq_eq_false_iff_ne.2 hnewline, beq_eq_false_iff_ne.2 hreturn,
      Bool.or_false]
  all_goals
    rcases List.mem_cons.1 h with rfl | h
    · rfl
    · cases List.mem_singleton.1 h
      rfl

namespace Operand

/-- A register by its name, a number in decimal after a `#`, and a string with its escapes. -/
def render : Operand → List Char
  | .register i => i.name.toList
  | .number n => '#' :: (toString n).toList
  | .label name => name.toList
  | .string text => '"' :: (text.toList.flatMap escapeChar ++ ['"'])

/-- Whether there is a way to write an operand at all. -/
def Spellable : Operand → Prop
  | .number n => minNumber ≤ n ∧ n ≤ maxNumber
  | .label name =>
    IsWord name.toList ∧ Register.ofName? name = none ∧ hexLiteral? name = none
  | .register _ | .string _ => True

variable {o : Operand}

/-- An operand that can be spelled is spelled by its rendering. -/
theorem Spellable.written_render (h : o.Spellable) : o.Written o.render := by
  cases o with
  | register i => exact .register (isWord_register i) (Register.ofName?_name i)
  | number n => exact .number (numeral_toString h.1 h.2)
  | label name => exact .label h.1 h.2.1 h.2.2
  | string text => exact .string (quotes_flatMap_escapeChar text.toList)

/-- No operand goes over the end of a line, not even a string that has line ends in it. -/
theorem Spellable.spells (h : o.Spellable) : Spells o.render o := by
  refine h.written_render.spells fun c hc => ?_
  cases o with
  | register i => exact (isWord_register i).onLine c hc
  | number n => exact (spells_decimal h.1 h.2).onLine c hc
  | label name => exact h.1.onLine c hc
  | string text =>
    rcases List.mem_cons.1 hc with rfl | hc
    · rfl
    rcases List.mem_append.1 hc with hc | hc
    · obtain ⟨d, _, hd⟩ := List.mem_flatMap.1 hc
      exact isLineEnd_of_mem_escapeChar hd
    · cases List.mem_singleton.1 hc
      rfl

/-- What is written can be spelled. -/
theorem Written.spellable (h : o.Written s) : o.Spellable := by
  cases h with
  | string => trivial
  | number h => exact h.mem
  | register => trivial
  | label hword hregister hnumber => exact ⟨hword, hregister, hnumber⟩

end Operand

section Arguments

variable {os : List Operand}

/-- All operands that are written can be spelled. -/
theorem Further.spellable (h : Further os s) : ∀ o ∈ os, o.Spellable := by
  induction h with
  | nil => simp
  | cons _ _ ho _ ih => exact List.forall_mem_cons.2 ⟨ho.spellable, ih⟩

/-- The same from the first operand on. -/
theorem Arguments.spellable (h : Arguments os s) : ∀ o ∈ os, o.Spellable := by
  cases h with
  | none => simp
  | some _ _ ho hrest => exact List.forall_mem_cons.2 ⟨ho.spellable, hrest.spellable⟩

/-- Operands that can be spelled are written by their renderings. -/
theorem arguments_render (h : ∀ o ∈ os, o.Spellable) :
    Arguments os (operandText (os.map Operand.render)) := by
  refine arguments_operandText (List.forall₂_map_left_iff.2 (List.forall₂_same.2 fun o ho => ?_))
  exact (h o ho).written_render

end Arguments

namespace Content

/-- The name of an instruction or directive, then its operands with a comma and a blank between any
two. -/
def render : Content → List Char
  | .instruction name os => name.toList ++ operandText (os.map Operand.render)
  | .directive name os => '.' :: (name.toList ++ operandText (os.map Operand.render))

/-- Whether the mnemonic is known, and the operands can be spelled. -/
def Spellable : Content → Prop
  | .instruction name os =>
    IsWord name.toList ∧ (Mnemonic.ofName? name).isSome ∧ ∀ o ∈ os, o.Spellable
  | .directive name os => IsWord name.toList ∧ ∀ o ∈ os, o.Spellable

/-- A content that can be spelled is written by its rendering. -/
theorem Spellable.written_render {c : Content} (h : c.Spellable) : c.Written c.render := by
  cases c with
  | instruction name os => exact .instruction h.1 (arguments_render h.2.2)
  | directive name os => exact .directive h.1 (arguments_render h.2)

/-- What can be written at all is written by its rendering. -/
theorem Written.render {c : Content} (h : c.Written s) : c.Written c.render := by
  cases h with
  | instruction hname h => exact .instruction hname (arguments_render h.spellable)
  | directive hname h => exact .directive hname (arguments_render h.spellable)

variable {c : Content}

/-- A rendering stays on its line. -/
theorem Spellable.onLine (h : c.Spellable) : ∀ d ∈ c.render, Text.isLineEnd d = false := by
  have hspells {os : List Operand} (hos : ∀ o ∈ os, o.Spellable) :
      List.Forall₂ Spells (os.map Operand.render) os :=
    List.forall₂_map_left_iff.2 (List.forall₂_same.2 fun o ho => (hos o ho).spells)
  cases c with
  | instruction name os => exact onLine_append_operandText h.1 (hspells h.2.2)
  | directive name os => exact onLine_dot_append_operandText h.1 (hspells h.2)

/-- The mnemonic of a content that can be spelled is known. -/
theorem Spellable.known (h : c.Spellable) (name : String) (os : List Operand)
    (hc : some c = some (.instruction name os)) : (Mnemonic.ofName? name).isSome := by
  cases hc
  exact h.2.1

/-- The rendering of a content is read as the content. -/
theorem Spellable.parse_render (h : c.Spellable) :
    Line.parse c.render = .ok ⟨none, some c, none⟩ :=
  Line.parse_of_content h.written_render (Line.standsFirst_of_known h.known c rfl)

/-- A label needs no colon after it. -/
theorem Spellable.parse_labelled (h : c.Spellable) {name : String} (hword : IsWord name.toList)
    (hname : isLabelName name = true) :
    Line.parse (name.toList ++ ' ' :: c.render) = .ok ⟨some name, some c, none⟩ := by
  have hheading : Heading (some name) (some c) (name.toList ++ (optionalChar ':' false ++ [' '])) :=
    .some false hword hname blanks_singleton fun _ => List.cons_ne_nil _ _
  have hrendering :=
    Line.Rendering.mk blanks_nil hheading (.some h.written_render) h.known blanks_nil .none
  have htext : [] ++ (name.toList ++ (optionalChar ':' false ++ [' ']) ++
      (c.render ++ ([] ++ []))) = name.toList ++ ' ' :: c.render := by
    simp [optionalChar]
  exact htext ▸ hrendering.written.parse

end Content

namespace Line

/-- The label of a line with a colon, its content and its comment, with a blank between any two. -/
def render (line : Line) : List Char :=
  (line.label.elim [] fun name => name.toList ++ [':', ' ']) ++
    (line.content.elim [] Content.render ++ line.comment.elim [] fun c => ' ' :: c.toList)

variable {line : Line}

/-- A line that can be written at all is written by its rendering. -/
theorem Written.render (h : line.Written s) : line.Written line.render := by
  obtain ⟨hopening, hbody, hgap, hending⟩ := h
  rename_i label content comment _ _ _ _
  have hopening : Opening label content (label.elim [] fun name => name.toList ++ [':', ' ']) := by
    cases hopening with
    | unlabelled hlead hfirst => exact .unlabelled blanks_nil hfirst
    | colon _ hword hname | bare _ hword hname =>
      exact .colon blanks_nil hword hname blanks_nil blanks_singleton
  have hbody : Body content (content.elim [] Content.render) := by
    cases hbody with
    | none => exact .none
    | some h => exact .some h.render
  cases hending with
  | blank => exact .mk hopening hbody blanks_nil ending_nil
  | @comment t r ht =>
    have hending : Ending (some (String.ofList (';' :: t))) (String.ofList (';' :: t)).toList := by
      rw [String.toList_ofList]
      exact ending_of_onLine ht
    exact .mk hopening hbody blanks_singleton hending

/-- Whether a line has a label that can be defined, a known mnemonic or any directive, operands that
can be spelled, and a comment that stays on the line, or lacks some of these. -/
structure Spellable (line : Line) : Prop where
  label : ∀ name ∈ line.label, IsWord name.toList ∧ isLabelName name = true
  content : ∀ c ∈ line.content, c.Spellable
  comment : ∀ c ∈ line.comment, ∃ t, c = String.ofList (';' :: t) ∧
    ∀ d ∈ t, Text.isLineEnd d = false

/-- The canonical rendering is one of the renderings. -/
theorem Spellable.rendering_render (h : line.Spellable) : line.Rendering line.render := by
  obtain ⟨label, content, comment⟩ := line
  have hheading : Heading label content (label.elim [] fun name => name.toList ++ [':', ' ']) := by
    cases label with
    | none => exact .none
    | some name =>
      obtain ⟨hword, hname⟩ := h.label name rfl
      exact .some true hword hname blanks_singleton fun _ => List.cons_ne_nil _ _
  have hbody : Body content (content.elim [] Content.render) := by
    cases content with
    | none => exact .none
    | some c => exact .some (h.content c rfl).written_render
  have hknown : ∀ name os, content = some (.instruction name os) →
      (Mnemonic.ofName? name).isSome := by
    rintro name os rfl
    exact (h.content _ rfl).2.1
  cases comment with
  | none => exact .mk blanks_nil hheading hbody hknown blanks_nil .none
  | some c =>
    obtain ⟨t, rfl, ht⟩ := h.comment c rfl
    have hremark : Remark (some (String.ofList (';' :: t))) (String.ofList (';' :: t)).toList := by
      rw [String.toList_ofList]
      exact .some ht
    exact .mk blanks_nil hheading hbody hknown blanks_singleton hremark

/-- A line that can be spelled has renderings, and each of them is read as exactly that line. -/
theorem parse_rendering (h : line.Spellable) :
    line.Rendering line.render ∧ ∀ s, line.Rendering s → Line.parse s = .ok line :=
  ⟨h.rendering_render, fun _ hs => hs.written.parse⟩

/-- A line whose label could be a number, whose mnemonic begins like one, and whose operands include
a mnemonic and a string with a quote in it. -/
def crowded : Line :=
  ⟨some "x1",
    some (.instruction "xOr"
      [.register (.ofBits 1), .number 31, .label "XOR", .string "\"\n"]),
    some (String.ofList [';', '\t'])⟩

def crowdedText : String := " x1 xOr\tr1 ,0X1f, XOR,\"\\\"\\n\" ;\t"

/-- Its text is a rendering of the crowded line. -/
theorem crowded_rendering : crowded.Rendering crowdedText.toList := by
  have hregister : Operand.Written (.register 1) "r1".toList :=
    .register (by decide +kernel) (by decide +kernel)
  have hnumber : Operand.Written (.number 31) (['0', 'X'] ++ ['1', 'f']) :=
    .number (.hexadecimal (by decide) (List.cons_ne_nil _ _) (List.all_eq_true.1 (by decide)) rfl)
  have hlabel : Operand.Written (.label "XOR") "XOR".toList :=
    .label (by decide +kernel) (by decide +kernel) (by decide +kernel)
  have hstring : Operand.Written (.string "\"\n") ('"' :: (['\\', '"', '\\', 'n'] ++ ['"'])) :=
    .string (.escape rfl (.escape rfl .nil))
  have hfurther := Further.cons blanks_singleton blanks_nil hnumber
    (.cons blanks_nil blanks_singleton hlabel (.cons blanks_nil blanks_nil hstring .nil))
  have hbody := Content.Written.instruction (by decide +kernel : IsWord "xOr".toList)
    (.some (List.cons_ne_nil _ _) (by decide : Blanks ['\t']) hregister hfurther)
  have hheading : Heading crowded.label crowded.content
      ("x1".toList ++ (optionalChar ':' false ++ [' '])) :=
    .some false (by decide +kernel) (by decide +kernel) blanks_singleton
      fun _ => List.cons_ne_nil _ _
  have hknown : ∀ name os, crowded.content = some (.instruction name os) →
      (Mnemonic.ofName? name).isSome := by
    rintro _ _ ⟨⟩
    decide +kernel
  have hremark : Remark crowded.comment [';', '\t'] := .some (by simp [Text.isLineEnd])
  exact .mk blanks_singleton hheading (.some hbody) hknown blanks_singleton hremark

/-- The crowded line is read back from both renderings. -/
theorem parse_rendering_crowded :
    Line.parse crowded.render = .ok crowded ∧ Line.parse crowdedText.toList = .ok crowded := by
  have hspellable : crowded.Spellable := by
    refine ⟨?_, ?_, ?_⟩
    · rintro _ ⟨⟩
      decide +kernel
    · rintro _ ⟨⟩
      refine ⟨by decide +kernel, by decide +kernel, ?_⟩
      simp only [List.forall_mem_cons]
      refine ⟨trivial, ?_, ?_, trivial, List.forall_mem_nil _⟩
      · exact ⟨by decide, by decide⟩
      · exact ⟨by decide +kernel, by decide +kernel, by decide +kernel⟩
    · rintro _ ⟨⟩
      exact ⟨['\t'], rfl, by simp [Text.isLineEnd]⟩
  obtain ⟨hrender, hparse⟩ := parse_rendering hspellable
  exact ⟨hparse _ hrender, hparse _ crowded_rendering⟩

/-! ## The first word -/

/-- Whether a colon follows, up to blanks. -/
def ColonFollows (r : List Char) : Prop := ∃ b u, Blanks b ∧ r = b ++ ':' :: u

/-- A colon is read if and only if one follows. -/
theorem isSome_afterColon_iff {r : List Char} : (afterColon r).isSome = true ↔ ColonFollows r := by
  constructor
  · intro h
    obtain ⟨u, hu⟩ := Option.isSome_iff_exists.1 h
    obtain ⟨b, hb, hr⟩ := exists_blanks_of_afterColon hu
    exact ⟨b, u, hb, hr⟩
  · rintro ⟨b, u, hb, rfl⟩
    rw [afterColon, hb.skipBlanks_append]
    rfl

instance : DecidablePred ColonFollows := fun _ => decidable_of_iff _ isSome_afterColon_iff

/-- Without a colon, the first word is a label if it can be one and no value follows. -/
theorem label_eq_some_iff {lead r : List Char} (h : Line.parse s = .ok line)
    (hs : s = lead ++ (name.toList ++ r)) (hlead : Blanks lead) (hword : IsWord name.toList)
    (hr : Ends r) (hcolon : ¬ColonFollows r) :
    line.label = some name ↔ isLabelName name = true ∧ ¬ValueFollows r := by
  have hskip : Text.skipBlanks s = name.toList ++ r := by
    have := Content.Written.skipBlanks_append (r := r) (.instruction hword .none)
    rw [List.append_nil] at this
    rw [hs, hlead.skipBlanks_append, this]
  have hline : line.label = (optional Source.label (name.toList ++ r)).1 := by
    rw [← (parse_eq_ok_iff.1 h).1, ← hskip]
    rfl
  rw [hline, fst_optional_eq_some_iff]
  have hafter : afterColon r = none := by
    rwa [← isSome_afterColon_iff, Option.not_isSome_iff_eq_none] at hcolon
  by_cases hname : isLabelName name = true
  · rw [label_of_word hword hname hr, hafter, ← startsWithValue_iff]
    by_cases hvalue : startsWithValue r = true
    · simp [hvalue]
    · simp [hvalue, hname]
  · rw [Source.label, labelName_of_word hword hr, if_neg hname]
    simp [hname]

/-- What is read as a line is made of the parts of that line and of nothing else, its first word is
taken for a label where that is possible, and the line can be written out and read again. -/
theorem parse_exhaustive (h : Line.parse s = .ok line) :
    line.Written s ∧
      (∀ lead name r, s = lead ++ (name.toList ++ r) → Blanks lead → IsWord name.toList →
        Ends r → ¬ColonFollows r →
          (line.label = some name ↔
            Mnemonic.ofName? name = none ∧ Register.ofName? name = none ∧ ¬ValueFollows r)) ∧
      Line.parse line.render = .ok line := by
  have hwritten := Written.of_parse h
  refine ⟨hwritten, fun lead name r hs hlead hword hr hcolon => ?_, hwritten.render.parse⟩
  rw [label_eq_some_iff h hs hlead hword hr hcolon, isLabelName, Bool.and_eq_true,
    Option.isNone_iff_eq_none, Option.isNone_iff_eq_none, and_assoc]

def leap : Line :=
  ⟨none, some (.instruction "leap" [.register (.ofBits 2), .number 16]), some ";on"⟩

/-- The first word would be a label if there were no register after it. -/
theorem parse_exhaustive_leap :
    leap.Written "leap r2 ,x10\t;on\r\n ".toList ∧
      (leap.label = some "leap" ↔ ¬ValueFollows " r2 ,x10\t;on\r\n ".toList) ∧
      Line.parse "leap R2, #16 ;on".toList = .ok leap := by
  have hparse : Line.parse "leap r2 ,x10\t;on\r\n ".toList = .ok leap := by decide +kernel
  obtain ⟨hwritten, hfirst, hrender⟩ := parse_exhaustive hparse
  have hlabel := hfirst [] "leap" " r2 ,x10\t;on\r\n ".toList (by decide +kernel) blanks_nil
    (by decide +kernel) (by simp [Ends]; decide) (by decide +kernel)
  have htext : leap.render = "leap R2, #16 ;on".toList := by decide +kernel
  refine ⟨hwritten, hlabel.trans ?_, htext ▸ hrender⟩
  have hmnemonic : Mnemonic.ofName? "leap" = none := by decide +kernel
  have hregister : Register.ofName? "leap" = none := by decide +kernel
  simp only [hmnemonic, hregister, true_and]

end Line

end LittleComputer.Source
