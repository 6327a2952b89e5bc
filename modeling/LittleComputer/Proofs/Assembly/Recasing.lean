import LittleComputer.Proofs.Assembly.Emission
import LittleComputer.Proofs.Source.LetterCase
import Mathlib

/-!
# Sources in another letter case

A source in which mnemonics, names of directives, registers and hexadecimal numerals are written in
another letter case assembles to the same program, or else with the same error on the same line, but
for the case of a name that the error cites. Both passes treat the two sources alike: their layouts
have the same labels and addresses, and items that differ in nothing but the case of a mnemonic.
-/

namespace LittleComputer.Assembly

open Source
open Text (SameLetters)

/-! ## Errors and items in another letter case -/

/-- Whether two causes differ in nothing but the letter case of the name that they cite. -/
inductive Cause.Recased : Cause → Cause → Prop
  | same (cause : Cause) : Recased cause cause
  | unknownMnemonic {name name' : String} (h : SameLetters name.toList name'.toList) :
    Recased (.unknownMnemonic name) (.unknownMnemonic name')
  | unknownDirective {name name' : String} (h : SameLetters name.toList name'.toList) :
    Recased (.unknownDirective name) (.unknownDirective name')
  | wrongOperandCount {name name' : String} (h : SameLetters name.toList name'.toList)
    (expected got : Nat) :
    Recased (.wrongOperandCount name expected got) (.wrongOperandCount name' expected got)

/-- Whether two errors are of one line and have such causes. -/
structure Error.Recased (e e' : Error) : Prop where
  line : e'.line = e.line
  cause : Cause.Recased e.cause e'.cause

/-- Whether two items differ in nothing but the letter case of a mnemonic. -/
inductive Item.Recased : Item → Item → Prop
  | same (item : Item) : Recased item item
  | instruction {name name' : String} (h : SameLetters name.toList name'.toList)
    (os : List Operand) : Recased (.instruction name os) (.instruction name' os)

/-- Whether such items stand at one address. -/
structure Placement.Recased (p q : Placement) : Prop where
  line : q.line = p.line
  address : q.address = p.address
  item : Item.Recased p.item q.item

/-- The case of a mnemonic does not change the size of an item. -/
theorem Item.Recased.size_eq {item item' : Item} (h : Item.Recased item item') :
    item'.size = item.size := by
  cases h <;> rfl

/-- Whether two steps of either pass have related answers, or errors that differ in letter case. -/
abbrev Alike {α β : Type} (R : α → β → Prop) : Except Cause α → Except Cause β → Prop :=
  Except.Matched Cause.Recased R

namespace Alike

/-- A step is alike to itself. -/
theorem refl {α : Type} {R : α → α → Prop} (hR : ∀ a, R a a) (x : Except Cause α) :
    Alike R x x :=
  Except.Matched.refl Cause.Recased.same hR x

section Take

variable {name name' : String} (h : SameLetters name.toList name'.toList) (os : List Operand)
include h

/-- Operands that should not be there are reported under the name as it is written. -/
theorem takeNone : Alike Eq (takeNone name os) (takeNone name' os) := by
  unfold Assembly.takeNone
  split
  · exact .ok rfl
  · exact .error (.wrongOperandCount h _ _)

/-- An operand too many or too few is reported under the name as it is written. -/
theorem takeOne : Alike Eq (takeOne name os) (takeOne name' os) := by
  unfold Assembly.takeOne
  split
  · exact .ok rfl
  · exact .error (.wrongOperandCount h _ _)

/-- Two operands are taken alike. -/
theorem takeTwo : Alike Eq (takeTwo name os) (takeTwo name' os) := by
  unfold Assembly.takeTwo
  split
  · exact .ok rfl
  · exact .error (.wrongOperandCount h _ _)

/-- Three operands are taken alike. -/
theorem takeThree : Alike Eq (takeThree name os) (takeThree name' os) := by
  unfold Assembly.takeThree
  split
  · exact .ok rfl
  · exact .error (.wrongOperandCount h _ _)

end Take

end Alike

/-! ## The first pass -/

namespace Layout

/-- Whether two layouts differ in nothing but the letter case of mnemonics. -/
structure Recased (l l' : Layout) : Prop where
  origin : l'.origin = l.origin
  address : l'.address = l.address
  started : l'.started = l.started
  ended : l'.ended = l.ended
  symbols : l'.symbols = l.symbols
  placements : List.Forall₂ Placement.Recased l.placements l'.placements

namespace Recased

variable {l l' : Layout} (h : Recased l l') (requireOrigin : Bool)
include h

/-- A program begins in either layout or in none. -/
theorem start : Alike Recased (l.start requireOrigin) (l'.start requireOrigin) := by
  unfold Layout.start
  rw [h.started]
  split
  · exact .error (.same _)
  · exact .ok { h with started := rfl }

/-- The origin is set in either layout or in none. -/
theorem setOrigin (os : List Operand) : Alike Recased (l.setOrigin os) (l'.setOrigin os) := by
  unfold Layout.setOrigin
  rw [h.started]
  split
  · exact .error (.same _)
  · refine (Alike.refl (fun _ => rfl) (takeOne "ORIG" os)).bind_eq fun operand => ?_
    refine (Alike.refl (fun _ => rfl) (originOf operand)).bind_eq fun origin => ?_
    exact .ok { h with origin := rfl, address := rfl, started := rfl }

/-- A label is defined in either layout, at the same address, or in none. -/
theorem define (label : String) : Alike Recased (l.define label) (l'.define label) := by
  unfold Layout.define
  rw [h.address, h.symbols]
  split
  · exact .error (.same _)
  · split
    · exact .error (.same _)
    · exact .ok { h with address := rfl, symbols := rfl }

/-- The same for a line that may have no label. -/
theorem defineAll (label : Option String) :
    Alike Recased (l.defineAll label) (l'.defineAll label) := by
  cases label with
  | none => exact .ok h
  | some label => exact h.define label

/-- Items that differ in letter case are placed alike. -/
theorem place (number : Nat) {item item' : Item} (hitem : Item.Recased item item') :
    Alike Recased (l.place number item) (l'.place number item') := by
  simp only [Layout.place, h.address, hitem.size_eq]
  split
  · exact .error (.same _)
  · split
    · exact .error (.same _)
    · refine .ok { h with address := rfl, placements := ?_ }
      exact List.rel_append h.placements (.cons ⟨rfl, rfl, hitem⟩ .nil)

/-- Lines with items that differ in letter case are added alike. -/
theorem add (number : Nat) (label : Option String) {item item' : Item}
    (hitem : Item.Recased item item') :
    Alike Recased (l.add requireOrigin number label item)
      (l'.add requireOrigin number label item') := by
  refine (h.start requireOrigin).bind fun _ _ h => ?_
  refine (h.defineAll label).bind fun _ _ h => ?_
  exact h.place number hitem

/-- A directive is found by its name in any letter case. -/
theorem addDirective (number : Nat) (label : Option String) {name name' : String}
    (hname : SameLetters name.toList name'.toList) (os : List Operand) :
    Alike Recased (l.addDirective requireOrigin number label name os)
      (l'.addDirective requireOrigin number label name' os) := by
  unfold Layout.addDirective
  rw [← Directive.ofName?_eq hname]
  split
  case h_1 => exact .error (.unknownDirective hname)
  case h_2 => exact (h.setOrigin os).bind fun _ _ h => h.defineAll label
  case h_3 =>
    refine (Alike.takeNone hname os).bind_eq fun _ => ?_
    refine (h.start requireOrigin).bind fun _ _ h => ?_
    refine (h.defineAll label).bind fun _ _ h => ?_
    exact .ok { h with ended := rfl }
  case h_4 =>
    refine (Alike.takeOne hname os).bind_eq fun value => ?_
    exact h.add requireOrigin number label (.same (.fill value))
  case h_5 | h_6 =>
    refine (Alike.takeOne hname os).bind_eq fun operand => ?_
    refine (Alike.refl (fun _ => rfl) _).bind_eq fun item => ?_
    exact h.add requireOrigin number label (.same item)

/-- A line is added alike whatever the letter case of its names. -/
theorem addLine (number : Nat) (label comment : Option String) {content content' : Option Content}
    (hcontent : Option.Rel Content.Alike content content') :
    Alike Recased (l.addLine requireOrigin number ⟨label, content, comment⟩)
      (l'.addLine requireOrigin number ⟨label, content', comment⟩) := by
  cases hcontent with
  | none =>
    cases label with
    | none => exact .ok h
    | some label => exact (h.start requireOrigin).bind fun _ _ h => h.define label
  | some hc =>
    cases hc with
    | instruction hname os => exact h.add requireOrigin number label (.instruction hname os)
    | directive hname os => exact h.addDirective requireOrigin number label hname os

/-- Texts that differ in letter case are read and added alike. -/
theorem addText (number : Nat) {text text' : List Char}
    (htext : text = text' ∨ Line.Recased text text') :
    Except.Matched Error.Recased Recased (l.addText requireOrigin number text)
      (l'.addText requireOrigin number text') := by
  rcases htext with rfl | htext
  · cases hparse : Line.parse text with
    | error unreadable =>
      simp only [Layout.addText, hparse]
      exact .error ⟨rfl, .same _⟩
    | ok line =>
      rw [addText_of_parse hparse, addText_of_parse hparse]
      exact (h.addLine requireOrigin number line.label line.comment
        (Content.Alike.rel_refl line.content)).mapError fun _ _ he => ⟨rfl, he⟩
  · obtain ⟨label, c, c', comment, halike, hparse, hparse'⟩ := htext.exists_parse
    rw [addText_of_parse hparse, addText_of_parse hparse']
    exact (h.addLine requireOrigin number label comment (.some halike)).mapError
      fun _ _ he => ⟨rfl, he⟩

/-- Lines that differ in letter case are added alike, one after the other. -/
theorem addTexts (number : Nat) {texts texts' : List (List Char)}
    (htexts : RecasedLines texts texts') :
    Except.Matched Error.Recased Recased (addTexts requireOrigin number texts l)
      (addTexts requireOrigin number texts' l') := by
  induction htexts generalizing number l l' with
  | nil => exact .ok h
  | cons htext _ ih =>
    cases hended : l.ended with
    | true =>
      rw [addTexts_of_ended hended, addTexts_of_ended (h.ended.trans hended)]
      exact .ok h
    | false =>
      rw [addTexts_cons hended, addTexts_cons (h.ended.trans hended)]
      exact (h.addText requireOrigin number htext).bind fun _ _ h => ih h (number + 1)

end Recased

/-- The layout before the first line is alike to itself. -/
theorem recased_initial (options : Options) : Recased (.initial options) (.initial options) :=
  ⟨rfl, rfl, rfl, rfl, rfl, .nil⟩

/-- Sources that differ in letter case are laid out alike. -/
theorem ofLines_recased (options : Options) {texts texts' : List (List Char)}
    (htexts : RecasedLines texts texts') :
    Except.Matched Error.Recased Recased (ofLines options texts) (ofLines options texts') := by
  refine ((recased_initial options).addTexts options.requireOrigin 1 htexts).bind fun l l' h => ?_
  rw [h.started]
  split
  · exact .error ⟨rfl, .same _⟩
  · exact .ok h

end Layout

/-! ## The second pass -/

namespace Scope

variable (s : Scope)

/-- Of the name of an instruction only the mnemonic counts, once it has its operands. -/
theorem resolve_recased {name name' : String} (h : SameLetters name.toList name'.toList)
    (os : List Operand) (m : Mnemonic) : Alike Eq (s.resolve name os m) (s.resolve name' os m) := by
  have hrefl {α : Type} (x : Except Cause α) : Alike Eq x x := .refl (fun _ => rfl) x
  cases m with
  | nop | ret | returnFromInterrupt | service =>
    exact (Alike.takeNone h os).bind_eq fun _ => hrefl _
  | branch | jump | call | callRegister | trap =>
    exact (Alike.takeOne h os).bind_eq fun _ => hrefl _
  | not | loadAddress => exact (Alike.takeTwo h os).bind_eq fun _ => hrefl _
  | operate | load | store | shift => exact (Alike.takeThree h os).bind_eq fun _ => hrefl _

/-- Items that differ in letter case have the same words. -/
theorem words_recased {item item' : Item} (h : Item.Recased item item') :
    Alike Eq (s.words item) (s.words item') := by
  have hrefl {α : Type} (x : Except Cause α) : Alike Eq x x := .refl (fun _ => rfl) x
  cases h with
  | same item => exact hrefl _
  | @instruction name name' hname os =>
    have hinstruction : Alike Eq (s.instruction name os) (s.instruction name' os) := by
      unfold Scope.instruction
      rw [← Mnemonic.ofName?_eq hname]
      split
      · exact .error (.unknownMnemonic hname)
      · exact s.resolve_recased hname os _
    have hword : Alike Eq (s.instructionWord name os) (s.instructionWord name' os) :=
      hinstruction.bind_eq fun _ => hrefl _
    exact hword.map fun _ _ hw => by rw [hw]

end Scope

/-- All words are the same, or the same item has none. -/
theorem emit_recased (symbols : Symbols) {ps ps' : List Placement}
    (h : List.Forall₂ Placement.Recased ps ps') :
    Except.Matched Error.Recased Eq (emit symbols ps) (emit symbols ps') := by
  induction h with
  | nil => exact .ok rfl
  | @cons p q ps ps' hpq _ ih =>
    rw [emit_cons, emit_cons, hpq.address, hpq.line]
    refine Except.Matched.bind_eq ?_ fun ws => ih.map fun _ _ hrest => by rw [hrest]
    exact ((Scope.mk symbols p.address).words_recased hpq.item).mapError fun _ _ he => ⟨rfl, he⟩

/-- Sources that differ in letter case assemble alike. -/
theorem assemble_recased (options : Options) {source source' : String}
    (h : RecasedLines (Text.lines source.toList) (Text.lines source'.toList)) :
    Except.Matched Error.Recased Eq (assemble options source) (assemble options source') := by
  refine (Layout.ofLines_recased options h).bind fun l l' hl => ?_
  rw [Layout.program, Layout.program, hl.symbols, hl.origin]
  exact (emit_recased l.symbols hl.placements).map fun _ _ hwords => by rw [hwords]

/-- A source in which mnemonics, names of directives, registers and hexadecimal numerals are written
in another letter case assembles to the same program. -/
theorem letter_case_inert (options : Options) {source source' : String}
    (h : RecasedLines (Text.lines source.toList) (Text.lines source'.toList))
    (p : Program) : assemble options source = .ok p ↔ assemble options source' = .ok p :=
  (assemble_recased options h).eq_ok_iff

/-- Two labels that differ in letter case only, and a numeral of letters. -/
def mixedCase : String := "lp: brnz Lp ;a\nLp add r1,R2,x0f\n.fill XaB"

/-- The same labels and comment, and everything else in another letter case. -/
def mixedCase' : String := "lp: BRnZ Lp ;a\nLp AdD R1,r2,X0F\n.FILL xAb"

/-- The two sources differ in letter case only. -/
theorem recasedLines_mixedCase :
    RecasedLines (Text.lines mixedCase.toList) (Text.lines mixedCase'.toList) := by
  have hLp : Operand.Recased (.label "Lp") "Lp".toList "Lp".toList :=
    .same (.label (by decide +kernel) (by decide +kernel) (by decide +kernel))
  have hr1 : Operand.Recased (.register 1) "r1".toList "R1".toList :=
    .register (by decide +kernel) (by decide +kernel) (by decide +kernel)
  have hr2 : Operand.Recased (.register 2) "R2".toList "r2".toList :=
    .register (by decide +kernel) (by decide +kernel) (by decide +kernel)
  have hx0f : Operand.Recased (.number 15) (['x'] ++ ['0', 'f']) ['X', '0', 'F'] :=
    .hexadecimal (by decide) (List.cons_ne_nil _ _) (List.all_eq_true.1 (by decide)) rfl (by decide)
  have hXaB : Operand.Recased (.number 171) (['X'] ++ ['a', 'B']) ['x', 'A', 'b'] :=
    .hexadecimal (by decide) (List.cons_ne_nil _ _) (List.all_eq_true.1 (by decide)) rfl (by decide)
  have hbranch : Line.Recased "lp: brnz Lp ;a".toList "lp: BRnZ Lp ;a".toList :=
    .mk (.colon blanks_nil (by decide +kernel : IsWord "lp".toList) (by decide +kernel) blanks_nil
        blanks_singleton)
      (.instruction (by decide +kernel : IsWord "brnz".toList)
        (by decide +kernel : SameLetters "brnz".toList "BRnZ".toList)
        (.some (List.cons_ne_nil _ _) blanks_singleton hLp .nil))
      blanks_singleton (ending_of_onLine (by simp [Text.isLineEnd] : ∀ c ∈ ['a'], _))
  have hadd : Line.Recased "Lp add r1,R2,x0f".toList "Lp AdD R1,r2,X0F".toList :=
    .mk (.bare blanks_nil (by decide +kernel : IsWord "Lp".toList) (by decide +kernel)
        blanks_singleton (by rintro _ ⟨⟩; exact ⟨by decide +kernel, by decide +kernel⟩)
        fun _ _ _ => List.cons_ne_nil _ _)
      (.instruction (by decide +kernel : IsWord "add".toList)
        (by decide +kernel : SameLetters "add".toList "AdD".toList)
        (.some (List.cons_ne_nil _ _) blanks_singleton hr1
          (.cons blanks_nil blanks_nil hr2 (.cons blanks_nil blanks_nil hx0f .nil))))
      blanks_nil ending_nil
  have hfill : Line.Recased ".fill XaB".toList ".FILL xAb".toList :=
    .mk (.unlabelled blanks_nil (by rintro _ ⟨⟩; trivial))
      (.directive (by decide +kernel : IsWord "fill".toList)
        (by decide +kernel : SameLetters "fill".toList "FILL".toList)
        (.some (List.cons_ne_nil _ _) blanks_singleton hXaB .nil))
      blanks_nil ending_nil
  have hlines : Text.lines mixedCase.toList =
      ["lp: brnz Lp ;a".toList, "Lp add r1,R2,x0f".toList, ".fill XaB".toList] := by
    decide +kernel
  have hlines' : Text.lines mixedCase'.toList =
      ["lp: BRnZ Lp ;a".toList, "Lp AdD R1,r2,X0F".toList, ".FILL xAb".toList] := by
    decide +kernel
  rw [hlines, hlines']
  exact .cons (.inr hbranch) (.cons (.inr hadd) (.cons (.inr hfill) .nil))

/-- Both give the same words and keep the two labels apart. -/
theorem letter_case_inert_mixedCase :
    RecasedLines (Text.lines mixedCase.toList) (Text.lines mixedCase'.toList) ∧
      assemble {} mixedCase =
        .ok ⟨0x3000, [0x0C00, 0x12AF, 0x00AB], [("lp", 0x3000), ("Lp", 0x3002)]⟩ ∧
      assemble {} mixedCase' =
        .ok ⟨0x3000, [0x0C00, 0x12AF, 0x00AB], [("lp", 0x3000), ("Lp", 0x3002)]⟩ := by
  have hmixed : assemble {} mixedCase =
      .ok ⟨0x3000, [0x0C00, 0x12AF, 0x00AB], [("lp", 0x3000), ("Lp", 0x3002)]⟩ := by
    decide +kernel
  exact ⟨recasedLines_mixedCase, hmixed, (letter_case_inert {} recasedLines_mixedCase _).1 hmixed⟩

end LittleComputer.Assembly
