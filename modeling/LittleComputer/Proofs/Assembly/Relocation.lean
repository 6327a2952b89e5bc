import LittleComputer.Proofs.Assembly.Emission
import LittleComputer.Proofs.Assembly.Range
import LittleComputer.Proofs.Outcome
import Mathlib

/-!
# Programs at another origin

A source that does not set its origin is assembled at any origin to the same words, except for the
addresses that `.FILL` stores. The runs of each pass at two origins are coupled: they do the same,
as long as there is room at both.
-/

namespace LittleComputer.Assembly

open Source

/-- Whether a word is an address that has moved by a distance, without wrapping. -/
def Moved (d : Int) (a b : Word) : Prop := (b.toNat : Int) = a.toNat + d

/-! ## Symbols -/

/-- Whether symbols have the same labels, each moved by a distance. -/
def Symbols.Moved (d : Int) : Symbols → Symbols → Prop :=
  List.Forall₂ fun s t => t.1 = s.1 ∧ Assembly.Moved d s.2 t.2

namespace Symbols.Moved

variable {d : Int} {symbols symbols' : Symbols} (h : Symbols.Moved d symbols symbols')
include h

/-- Moved symbols have the same labels. -/
theorem labels : symbols'.map Prod.fst = symbols.map Prod.fst := by
  induction h with
  | nil => rfl
  | cons h _ ih => rw [List.map_cons, List.map_cons, h.1, ih]

/-- Moved symbols know the same labels. -/
theorem isSome_address? (label : String) :
    (symbols'.address? label).isSome = (symbols.address? label).isSome := by
  rw [Bool.eq_iff_iff, isSome_address?_iff, isSome_address?_iff, h.labels]

/-- A label is looked up alike. -/
theorem address? (label : String) :
    Option.Rel (Assembly.Moved d) (symbols.address? label) (symbols'.address? label) := by
  induction h with
  | nil => exact .none
  | @cons s t symbols symbols' hst _ ih =>
    obtain ⟨name, a⟩ := s
    obtain ⟨name', b⟩ := t
    obtain ⟨rfl, hab⟩ := hst
    simp only [Symbols.address?, List.lookup_cons]
    split
    · exact .some hab
    · exact ih

end Symbols.Moved

/-- Whether an item has moved by a distance. -/
structure Placement.Moved (d : Int) (p q : Placement) : Prop where
  line : q.line = p.line
  item : q.item = p.item
  address : Assembly.Moved d p.address q.address

/-! ## The first pass -/

/-- Whether there is no room for the program, which depends on where it is. -/
def Cause.IsOverflow (cause : Cause) : Prop := cause = .addressOverflow

def Error.IsOverflow (e : Error) : Prop := e.cause.IsOverflow

/-- An error is for want of room if its cause is. -/
theorem Error.isOverflow_mk (line : Nat) (cause : Cause) (h : cause.IsOverflow) :
    Error.IsOverflow ⟨line, cause⟩ := h

namespace Layout

/-- Whether two layouts differ only in where they are. -/
structure Relocated (d : Int) (l l' : Layout) : Prop where
  address : (l'.address : Int) = l.address + d
  started : l'.started = l.started
  ended : l'.ended = l.ended
  symbols : Symbols.Moved d l.symbols l'.symbols
  placements : List.Forall₂ (Placement.Moved d) l.placements l'.placements

/-- Coupled steps of the first pass, at either of which memory may be full. -/
abbrev Together (d : Int) : Except Cause Layout → Except Cause Layout → Prop :=
  Except.Coupled Cause.IsOverflow (Relocated d)

/-- A step without room on the left allows anything on the right. -/
theorem Together.full_left {d : Int} (y : Except Cause Layout) :
    Together d (.error .addressOverflow) y :=
  Except.Coupled.left (show Cause.IsOverflow .addressOverflow from rfl) y

/-- A step without room on the right allows anything on the left. -/
theorem Together.full_right {d : Int} (x : Except Cause Layout) :
    Together d x (.error .addressOverflow) :=
  Except.Coupled.right (show Cause.IsOverflow .addressOverflow from rfl) x

namespace Relocated

variable {d : Int} {l l' : Layout} (h : Relocated d l l') (requireOrigin : Bool)
include h

/-- A program begins at either address or at none. -/
theorem start : Together d (l.start requireOrigin) (l'.start requireOrigin) := by
  unfold Layout.start
  rw [h.started]
  split
  · exact .error _
  · exact .ok { h with started := rfl }

/-- The current addresses have moved, where they are addresses of memory. -/
theorem moved {a b : Word} (ha : Word.address? l.address = some a)
    (hb : Word.address? l'.address = some b) : Moved d a b := by
  rw [Word.address?_eq_some_iff] at ha hb
  rw [Moved, ← ha, ← hb, h.address]

/-- A label is defined in both layouts, or there is no address for it in one. -/
theorem define (label : String) : Together d (l.define label) (l'.define label) := by
  cases ha : Word.address? l.address with
  | none =>
    simp only [Layout.define, ha]
    exact Together.full_left _
  | some a =>
    cases hb : Word.address? l'.address with
    | none =>
      simp only [Layout.define, hb]
      exact Together.full_right _
    | some b =>
      simp only [Layout.define, ha, hb, h.symbols.isSome_address? label]
      split
      · exact .error _
      · refine .ok { h with symbols := ?_ }
        exact List.rel_append h.symbols (.cons ⟨rfl, h.moved ha hb⟩ .nil)

/-- The same for a line that may have no label. -/
theorem defineAll (label : Option String) :
    Together d (l.defineAll label) (l'.defineAll label) := by
  cases label with
  | none => exact .ok h
  | some label => exact h.define label

/-- An item is placed in both layouts, or one has no room for it. -/
theorem place (number : Nat) (item : Item) :
    Together d (l.place number item) (l'.place number item) := by
  rw [Layout.place]
  by_cases hfits : memorySize < l.address + wordSize * item.size
  · rw [if_pos hfits]
    exact Together.full_left _
  by_cases hfits' : memorySize < l'.address + wordSize * item.size
  · rw [Layout.place, if_pos hfits']
    exact Together.full_right _
  cases ha : Word.address? l.address with
  | none =>
    simp only [if_neg hfits]
    exact Together.full_left _
  | some a =>
    cases hb : Word.address? l'.address with
    | none =>
      simp only [Layout.place, if_neg hfits', hb]
      exact Together.full_right _
    | some b =>
      simp only [Layout.place, if_neg hfits, if_neg hfits', hb]
      refine .ok { h with address := ?_, placements := ?_ }
      · have := h.address
        push_cast
        omega
      · exact List.rel_append h.placements (.cons ⟨rfl, rfl, h.moved ha hb⟩ .nil)

/-- A line with an item is added to both layouts, or one has no room for it. -/
theorem add (number : Nat) (label : Option String) (item : Item) :
    Together d (l.add requireOrigin number label item)
      (l'.add requireOrigin number label item) := by
  refine (h.start requireOrigin).bind fun _ _ _ _ h => ?_
  refine (h.defineAll label).bind fun _ _ _ _ h => ?_
  exact h.place number item

/-- A directive other than `.ORIG` does the same at both addresses. -/
theorem addDirective (number : Nat) (label : Option String) {name : String}
    (operands : List Operand) (hname : Directive.ofName? name ≠ some .orig) :
    Together d (l.addDirective requireOrigin number label name operands)
      (l'.addDirective requireOrigin number label name operands) := by
  unfold Layout.addDirective
  split
  case h_1 => exact .error _
  case h_2 horig => exact absurd horig hname
  case h_3 =>
    refine .bind_same fun _ => ?_
    refine (h.start requireOrigin).bind fun _ _ _ _ h => ?_
    refine (h.defineAll label).bind fun _ _ _ _ h => ?_
    exact .ok { h with ended := rfl }
  case h_4 => exact .bind_same fun value => h.add requireOrigin number label (.fill value)
  case h_5 | h_6 =>
    refine .bind_same fun operand => .bind_same fun item => ?_
    exact h.add requireOrigin number label item

/-- A line other than `.ORIG` does the same at both addresses. -/
theorem addLine (number : Nat) (line : Line)
    (hline : line.content.bind directive? ≠ some .orig) :
    Together d (l.addLine requireOrigin number line) (l'.addLine requireOrigin number line) := by
  obtain ⟨label, content, comment⟩ := line
  cases content with
  | none =>
    cases label with
    | none => exact .ok h
    | some label =>
      refine (h.start requireOrigin).bind fun _ _ _ _ h => ?_
      exact h.define label
  | some content =>
    cases content with
    | instruction mnemonic operands =>
      exact h.add requireOrigin number label (.instruction mnemonic operands)
    | directive name operands =>
      exact h.addDirective requireOrigin number label operands hline

/-- A text that does not set the origin does the same at both addresses. -/
theorem addText (number : Nat) {text : List Char} (htext : directiveOf? text ≠ some .orig) :
    Except.Coupled Error.IsOverflow (Relocated d) (l.addText requireOrigin number text)
      (l'.addText requireOrigin number text) := by
  cases hparse : Line.parse text with
  | error unreadable =>
    simp only [Layout.addText, hparse]
    exact .error _
  | ok line =>
    have hline : line.content.bind directive? ≠ some .orig := by
      rwa [directiveOf?_of_parse hparse] at htext
    rw [addText_of_parse hparse, addText_of_parse hparse]
    exact (h.addLine requireOrigin number line hline).mapError (Error.isOverflow_mk number)

/-- Lines that do not set the origin do the same at both addresses, one after the other. -/
theorem addTexts (number : Nat) {texts : List (List Char)}
    (htexts : ∀ text ∈ texts, directiveOf? text ≠ some .orig) :
    Except.Coupled Error.IsOverflow (Relocated d) (addTexts requireOrigin number texts l)
      (addTexts requireOrigin number texts l') := by
  induction texts generalizing number l l' with
  | nil => exact .ok h
  | cons text rest ih =>
    obtain ⟨htext, hrest⟩ := List.forall_mem_cons.1 htexts
    cases hended : l.ended with
    | true =>
      rw [addTexts_of_ended hended, addTexts_of_ended (h.ended.trans hended)]
      exact .ok h
    | false =>
      rw [addTexts_cons hended, addTexts_cons (h.ended.trans hended)]
      exact (h.addText requireOrigin number htext).bind fun _ _ _ _ h => ih h (number + 1) hrest

end Relocated

/-- The first pass does the same at either origin, where there is room. -/
theorem ofLines_coupled (requireOrigin : Bool) (o₁ o₂ : Word) {texts : List (List Char)}
    (htexts : ∀ text ∈ texts, directiveOf? text ≠ some .orig) :
    Except.Coupled Error.IsOverflow (Relocated (o₂.toNat - o₁.toNat))
      (ofLines ⟨o₁, requireOrigin⟩ texts) (ofLines ⟨o₂, requireOrigin⟩ texts) := by
  have hinitial : Relocated (o₂.toNat - o₁.toNat) (.initial ⟨o₁, requireOrigin⟩)
      (.initial ⟨o₂, requireOrigin⟩) :=
    ⟨by simp [initial], rfl, rfl, .nil, .nil⟩
  refine (hinitial.addTexts requireOrigin 1 htexts).bind fun l l' _ _ h => ?_
  rw [h.started]
  split
  · exact .error _
  · exact .ok h

end Layout

/-! ## The second pass -/

/-- Whether words are the same, except that those which are marked are addresses that have moved. -/
inductive Shifted (d : Int) : List Bool → List Word → List Word → Prop
  | nil : Shifted d [] [] []
  | same {w : Word} {marks : List Bool} {ws ws' : List Word} (h : Shifted d marks ws ws') :
    Shifted d (false :: marks) (w :: ws) (w :: ws')
  | moved {w w' : Word} {marks : List Bool} {ws ws' : List Word} (hw : Moved d w w')
    (h : Shifted d marks ws ws') : Shifted d (true :: marks) (w :: ws) (w' :: ws')

namespace Shifted

variable {d : Int} {marks marks₁ : List Bool} {ws ws' ws₁ ws₁' : List Word}

/-- Two runs of words that have moved make one. -/
theorem append (h : Shifted d marks ws ws') (h₁ : Shifted d marks₁ ws₁ ws₁') :
    Shifted d (marks ++ marks₁) (ws ++ ws₁) (ws' ++ ws₁') := by
  induction h with
  | nil => exact h₁
  | same _ ih => exact .same ih
  | moved hw _ ih => exact .moved hw ih

/-- Words are the same as themselves, with no marks. -/
theorem refl (ws : List Word) : Shifted d (List.replicate ws.length false) ws ws := by
  induction ws with
  | nil => exact .nil
  | cons w ws ih => exact .same ih

/-- There is a mark for each word. -/
theorem length_eq (h : Shifted d marks ws ws') :
    ws.length = marks.length ∧ ws'.length = marks.length := by
  induction h with
  | nil => exact ⟨rfl, rfl⟩
  | same _ ih | moved _ _ ih => simp [ih]

/-- A word that is marked has moved, and any other is the same. -/
theorem getElem? (h : Shifted d marks ws ws') {n : Nat} {w w' : Word} (hw : ws[n]? = some w)
    (hw' : ws'[n]? = some w') : if marks[n]? = some true then Moved d w w' else w' = w := by
  induction h generalizing n with
  | nil => cases hw
  | same _ ih =>
    cases n with
    | zero =>
      cases hw
      cases hw'
      rfl
    | succ n => exact ih hw hw'
  | moved hab _ ih =>
    cases n with
    | zero =>
      cases hw
      cases hw'
      exact hab
    | succ n => exact ih hw hw'

end Shifted

namespace Item

/-- Whether an item stores the address of a label. -/
def fillsLabel : Item → Bool
  | .fill (.label _) => true
  | _ => false

/-- A mark for each word of an item, set if the word is the address of a label. -/
def marks (item : Item) : List Bool := List.replicate item.wordCount item.fillsLabel

end Item

/-- A mark for each word of a source, set if `.FILL` stores the address of a label there. -/
def labelFills (texts : List (List Char)) : List Bool :=
  ((upToEnd texts).filterMap lineItem?).flatMap Item.marks

namespace Scope

/-- Whether two scopes differ only in where they are. -/
structure Relocated (d : Int) (s s' : Scope) : Prop where
  symbols : Symbols.Moved d s.symbols s'.symbols
  address : Moved d s.address s'.address

namespace Relocated

variable {d : Int} {s s' : Scope} (h : Relocated d s s')
include h

/-- Distances stay, as both ends move. -/
theorem distance_eq (field : Field) (label : String) :
    s'.distance field label = s.distance field label := by
  have hlookup := h.symbols.address? label
  simp only [distance, labelAddress]
  generalize s.symbols.address? label = x at hlookup
  generalize s'.symbols.address? label = y at hlookup
  cases hlookup with
  | none => rfl
  | @some a b hab =>
    have hbytes : (b.toNat : Int) - (s'.address.toNat + wordSize) =
        a.toNat - (s.address.toNat + wordSize) := by
      have haddress := h.address
      unfold Moved at hab haddress
      omega
    simp only [Except.ok_bind, hbytes]

/-- The distance to a target is the same at both addresses. -/
theorem offset_eq (field : Field) (operand : Operand) :
    s'.offset field operand = s.offset field operand := by
  cases operand <;> simp only [offset, h.distance_eq]

/-- Operands resolve to the same instruction at both addresses. -/
theorem resolve_eq (name : String) (operands : List Operand) (mnemonic : Mnemonic) :
    s'.resolve name operands mnemonic = s.resolve name operands mnemonic := by
  cases mnemonic <;> simp only [resolve, h.offset_eq]

/-- An instruction has the same word at both addresses. -/
theorem instructionWord_eq (name : String) (operands : List Operand) :
    s'.instructionWord name operands = s.instructionWord name operands := by
  simp only [instructionWord, instruction, h.resolve_eq]

/-- An item that does not store a label has the same words at both addresses. -/
theorem words_eq {item : Item} (hitem : item.fillsLabel = false) :
    s'.words item = s.words item := by
  cases item with
  | instruction name operands => rw [words, words, h.instructionWord_eq]
  | fill value =>
    cases value with
    | label => cases hitem
    | _ => rfl
  | block | string => rfl

/-- The address of a label is moved, or there is no such label at either. -/
theorem labelAddress (label : String) :
    Except.Coupled Cause.IsOverflow (Moved d) (s.labelAddress label) (s'.labelAddress label) := by
  have hlookup := h.symbols.address? label
  simp only [Scope.labelAddress]
  generalize s.symbols.address? label = x at hlookup
  generalize s'.symbols.address? label = y at hlookup
  cases hlookup with
  | none => exact .error _
  | some hab => exact .ok hab

/-- The words of an item are the same at both addresses, but for those of a label that is stored. -/
theorem words (item : Item) :
    Except.Coupled Cause.IsOverflow (Shifted d item.marks) (s.words item) (s'.words item) := by
  cases hitem : item.fillsLabel with
  | false =>
    rw [h.words_eq hitem]
    refine .refl fun ws hws => ?_
    rw [Item.marks, hitem, ← length_words hws]
    exact .refl ws
  | true =>
    obtain ⟨label, rfl⟩ : ∃ label, item = .fill (.label label) := by
      unfold Item.fillsLabel at hitem
      split at hitem
      · exact ⟨_, rfl⟩
      · cases hitem
    exact (h.labelAddress label).map fun _ _ hab => .moved hab .nil

end Relocated

end Scope

/-- The second pass does the same at either origin, except for the words that are marked. -/
theorem emit_coupled {d : Int} {symbols symbols' : Symbols}
    (hsymbols : Symbols.Moved d symbols symbols') {ps ps' : List Placement}
    (h : List.Forall₂ (Placement.Moved d) ps ps') :
    Except.Coupled Error.IsOverflow (Shifted d (ps.flatMap (·.item.marks))) (emit symbols ps)
      (emit symbols' ps') := by
  induction h with
  | nil => exact .ok .nil
  | @cons p q ps ps' hpq _ ih =>
    have hscope : Scope.Relocated d ⟨symbols, p.address⟩ ⟨symbols', q.address⟩ :=
      ⟨hsymbols, hpq.address⟩
    rw [emit_cons, emit_cons, hpq.line, hpq.item, List.flatMap_cons]
    refine .bind ((hscope.words p.item).mapError (Error.isOverflow_mk p.line)) ?_
    intro ws ws' _ _ hws
    exact ih.map fun _ _ hrest => hws.append hrest

/-- Assembling a source without an origin of its own at either of two origins. The marks of the
items are those of the source, as the layout has the items of its lines. -/
theorem assemble_coupled (requireOrigin : Bool) (o₁ o₂ : Word) {source : String}
    (hsource : ∀ text ∈ Text.lines source.toList, directiveOf? text ≠ some .orig) :
    Except.Coupled Error.IsOverflow
      (fun p₁ p₂ => Symbols.Moved (o₂.toNat - o₁.toNat) p₁.symbols p₂.symbols ∧
        Shifted (o₂.toNat - o₁.toNat) (labelFills (Text.lines source.toList)) p₁.words p₂.words)
      (assemble ⟨o₁, requireOrigin⟩ source) (assemble ⟨o₂, requireOrigin⟩ source) := by
  refine (Layout.ofLines_coupled requireOrigin o₁ o₂ hsource).bind fun l l' hl _ h => ?_
  have hmarks : l.placements.flatMap (·.item.marks) = labelFills (Text.lines source.toList) := by
    rw [labelFills, ← (Layout.collected_of_ofLines hl).items, List.flatMap_map]
  refine (emit_coupled h.symbols h.placements).map fun ws ws' hws => ⟨h.symbols, ?_⟩
  rw [← hmarks]
  exact hws

/-- A source without an origin of its own is assembled at any origin to the same labels, all moved
by the distance between the origins, and to the same words, except that those of `.FILL` with a
label are moved by that distance as well. An error other than that memory is full is one at any
origin. -/
theorem relocation {source : String}
    (hsource : ∀ text ∈ Text.lines source.toList, directiveOf? text ≠ some .orig)
    (requireOrigin : Bool) (o₁ o₂ : Word) :
    (∀ p₁ p₂, assemble ⟨o₁, requireOrigin⟩ source = .ok p₁ →
      assemble ⟨o₂, requireOrigin⟩ source = .ok p₂ →
        p₂.symbols.map Prod.fst = p₁.symbols.map Prod.fst ∧
        (∀ label a₁, p₁.symbols.address? label = some a₁ →
          ∃ a₂, p₂.symbols.address? label = some a₂ ∧
            (a₂.toNat : Int) = a₁.toNat + (o₂.toNat - o₁.toNat)) ∧
        p₂.words.length = p₁.words.length ∧
        p₁.words.length = (labelFills (Text.lines source.toList)).length ∧
        ∀ (n : Nat) (w₁ w₂ : Word), p₁.words[n]? = some w₁ → p₂.words[n]? = some w₂ →
          if (labelFills (Text.lines source.toList))[n]? = some true then
            (w₂.toNat : Int) = w₁.toNat + (o₂.toNat - o₁.toNat)
          else w₂ = w₁) ∧
    ∀ e, assemble ⟨o₁, requireOrigin⟩ source = .error e → e.cause ≠ .addressOverflow →
      ∃ e', assemble ⟨o₂, requireOrigin⟩ source = .error e' ∧
        (e' = e ∨ e'.cause = .addressOverflow) := by
  have hcoupled := assemble_coupled requireOrigin o₁ o₂ hsource
  constructor
  · intro p₁ p₂ h₁ h₂
    rw [h₁, h₂] at hcoupled
    obtain ⟨hsymbols, hwords⟩ := hcoupled.related
    obtain ⟨hlength₁, hlength₂⟩ := hwords.length_eq
    refine ⟨hsymbols.labels, ?_, hlength₂.trans hlength₁.symm, hlength₁, ?_⟩
    · intro label a₁ ha₁
      have hlookup := hsymbols.address? label
      rw [ha₁] at hlookup
      generalize p₂.symbols.address? label = found at hlookup
      cases hlookup with
      | some hmoved => exact ⟨_, rfl, hmoved⟩
    · intro n w₁ w₂ hw₁ hw₂
      exact hwords.getElem? hw₁ hw₂
  · intro e he hcause
    rw [he] at hcoupled
    exact hcoupled.exists_error hcause

/-- A source that refers to its labels by a distance and by an address. -/
def selfReferring : String := "loop LEA R0, data\ndata .FILL loop\nBR loop"

/-- A source that refers to no label of its own. -/
def dangling : String := "BR nowhere"

/-- From an even origin to an odd one, without an error and with one. -/
theorem relocation_odd :
    (∃ p₁ p₂, assemble ⟨0x3000, false⟩ selfReferring = .ok p₁ ∧
      assemble ⟨0x4001, false⟩ selfReferring = .ok p₂ ∧
      p₂.symbols.map Prod.fst = p₁.symbols.map Prod.fst ∧
      ∀ w, p₂.words[2]? = some w → p₁.words[2]? = some w) ∧
      ∃ e, assemble ⟨0x4001, false⟩ dangling = .error e := by
  constructor
  · obtain ⟨hassembled, _⟩ := @relocation selfReferring (by decide +kernel) false 0x3000 0x4001
    let p₁ : Program := ⟨0x3000, [0xE000, 0x3000, 0x0FFD], [("loop", 0x3000), ("data", 0x3002)]⟩
    let p₂ : Program := ⟨0x4001, [0xE000, 0x4001, 0x0FFD], [("loop", 0x4001), ("data", 0x4003)]⟩
    have h₁ : assemble ⟨0x3000, false⟩ selfReferring = .ok p₁ := by decide +kernel
    have h₂ : assemble ⟨0x4001, false⟩ selfReferring = .ok p₂ := by decide +kernel
    obtain ⟨hlabels, _, _, _, hwords⟩ := hassembled p₁ p₂ h₁ h₂
    refine ⟨p₁, p₂, h₁, h₂, hlabels, fun w hw => ?_⟩
    have hmark : (labelFills (Text.lines selfReferring.toList))[2]? ≠ some true := by
      decide +kernel
    have hsame := hwords 2 0x0FFD w rfl hw
    rw [if_neg hmark] at hsame
    rw [hsame]
    rfl
  · obtain ⟨_, hfailed⟩ := @relocation dangling (by decide +kernel) false 0x3000 0x4001
    obtain ⟨e, he, _⟩ := hfailed ⟨1, .undefinedLabel "nowhere"⟩ (by decide +kernel) (by decide)
    exact ⟨e, he⟩

end LittleComputer.Assembly
