import LittleComputer.Proofs.Assembly.Layout
import LittleComputer.Proofs.Outcome
import Mathlib

/-!
# The lines that are laid out

The first pass reads the lines up to the first `.END`. From each it takes a label and an item, in
the order of the lines. What every step keeps holds of these lines and the layout in the end.
-/

namespace LittleComputer.Assembly

open Source

/-! ## What a line asks for -/

/-- The directive that the name in a line stands for. -/
def directive? : Content → Option Directive
  | .instruction .. => none
  | .directive name _ => Directive.ofName? name

/-- The directive of a line, if the line can be read. -/
def directiveOf? (text : List Char) : Option Directive := (contentOf? text).bind directive?

/-- The directive of a line that has been read. -/
theorem directiveOf?_of_parse {text : List Char} {line : Line} (h : Line.parse text = .ok line) :
    directiveOf? text = line.content.bind directive? := by
  rw [directiveOf?, contentOf?_of_parse h]

/-- The item that an instruction or directive asks for, if its operands allow one. -/
def itemOf? : Content → Option Item
  | .instruction mnemonic operands => some (.instruction mnemonic operands)
  | .directive name operands =>
    match Directive.ofName? name, operands with
    | some .fill, [value] => some (.fill value)
    | some .block, [count] => (blockOf count).toOption
    | some .string, [text] => (stringOf text).toOption
    | _, _ => none

/-- The item that a line asks for, if the line can be read. -/
def lineItem? (text : List Char) : Option Item := (contentOf? text).bind itemOf?

/-- What asks for an item asks for no other. -/
theorem itemOf?_of_itemOf {content : Content} {item : Item} (h : ItemOf content item) :
    itemOf? content = some item := by
  cases h with
  | instruction => rfl
  | fill hname => simp only [itemOf?, hname]
  | block hname hcount => simp [itemOf?, hname, blockOf, hcount, Except.toOption]
  | string hname htext => simp [itemOf?, hname, stringOf, htext, Except.toOption]

/-- The directives that steer the first pass ask for no item. -/
theorem ItemOf.directive?_ne {content : Content} {item : Item} (h : ItemOf content item) :
    directive? content ≠ some .orig ∧ directive? content ≠ some .finish := by
  cases h with
  | instruction => simp [directive?]
  | fill hname | block hname | string hname => simp [directive?, hname]

/-- `.ORIG` and `.END` ask for no item. -/
theorem itemOf?_of_directive {name : String} {operands : List Operand}
    (h : Directive.ofName? name = some .orig ∨ Directive.ofName? name = some .finish) :
    itemOf? (.directive name operands) = none := by
  rcases h with h | h <;> simp only [itemOf?, h]

/-! ## Lines up to the end -/

/-- The lines up to the first `.END`, that line included. -/
def upToEnd : List (List Char) → List (List Char)
  | [] => []
  | text :: rest => if directiveOf? text = some .finish then [text] else text :: upToEnd rest

/-- The lines up to the end are the first ones. -/
theorem isPrefix_upToEnd (texts : List (List Char)) : upToEnd texts <+: texts := by
  induction texts with
  | nil => exact List.prefix_rfl
  | cons text rest ih =>
    rw [upToEnd]
    split
    · exact ⟨rest, rfl⟩
    · exact (List.prefix_cons_inj text).2 ih

/-- Whether a line is laid out does not depend on the lines after it. -/
theorem upToEnd_take (texts : List (List Char)) (n : Nat) :
    upToEnd (texts.take n) = (upToEnd texts).take n := by
  induction texts generalizing n with
  | nil => simp [upToEnd]
  | cons text rest ih =>
    cases n with
    | zero => simp [upToEnd]
    | succ n =>
      simp only [List.take_succ_cons, upToEnd]
      split
      · rw [List.take_succ_cons, List.take_nil]
      · rw [List.take_succ_cons, ih]

/-- One more element adds at most one at the end. -/
theorem filterMap_concat {α β : Type} (f : α → Option β) (as : List α) (a : α) :
    (as ++ [a]).filterMap f = as.filterMap f ++ (f a).toList := by
  rw [List.filterMap_append]
  cases h : f a <;> simp [h]

namespace Layout

variable {requireOrigin : Bool} {number : Nat} {text : List Char} {line : Line} {l l' : Layout}

/-- A step ends the source just if its line says so. -/
theorem ended_of_step (hparse : Line.parse text = .ok line)
    (h : Step requireOrigin number l line l') :
    l'.ended = (l.ended || decide (directiveOf? text = some .finish)) := by
  rw [directiveOf?_of_parse hparse]
  cases h with
  | blank => simp
  | label hstart hdefine =>
    obtain ⟨_, rfl⟩ := start_eq_ok_iff.1 hstart
    obtain ⟨_, rfl⟩ := exists_symbols_of_defineAll hdefine
    simp
  | origin hname horigin hdefine =>
    obtain ⟨_, _, _, _, rfl⟩ := setOrigin_eq_ok_iff.1 horigin
    obtain ⟨_, rfl⟩ := exists_symbols_of_defineAll hdefine
    simp [directive?, hname]
  | finish hname => simp [directive?, hname]
  | item hitem hstart hdefine hplace =>
    obtain ⟨_, rfl⟩ := start_eq_ok_iff.1 hstart
    obtain ⟨_, rfl⟩ := exists_symbols_of_defineAll hdefine
    obtain ⟨_, _, _, rfl⟩ := place_eq_ok_iff.1 hplace
    simp [hitem.directive?_ne.2]

/-! ## Lines that fail -/

/-- A line that fails is reported with its own number. -/
theorem line_of_addText_error {e : Error} (h : l.addText requireOrigin number text = .error e) :
    e.line = number := by
  unfold addText at h
  split at h
  · cases h
    rfl
  · split at h
    · cases h
      rfl
    · cases h

/-- A line that fails is one of those that are added. -/
theorem line_of_addTexts_error {texts : List (List Char)} {e : Error}
    (h : addTexts requireOrigin number texts l = .error e) :
    number ≤ e.line ∧ e.line < number + texts.length := by
  induction texts generalizing number l with
  | nil => cases h
  | cons text rest ih =>
    rw [addTexts] at h
    rw [List.length_cons]
    split at h
    · cases h
    · split at h
      case h_1 htext =>
        cases h
        rw [line_of_addText_error htext]
        omega
      case h_2 =>
        have := ih h
        omega

/-- Nothing after a line that fails is looked at. -/
theorem ofLines_of_take_error {options : Options} {texts : List (List Char)} {n : Nat} {e : Error}
    (h : addTexts options.requireOrigin 1 (texts.take n) (.initial options) = .error e) :
    ofLines options texts = .error e := by
  rw [ofLines, ← List.take_append_drop n texts, addTexts_append, h]
  rfl

/-! ## What every step keeps -/

/-- Whether every step keeps a property of the lines so far and the layout. -/
def Keeps (requireOrigin : Bool) (P : List (List Char) → Layout → Prop) : Prop :=
  ∀ ⦃read text line l l'⦄, P read l → Line.parse text = .ok line →
    Step requireOrigin (read.length + 1) l line l' → P (read ++ [text]) l'

namespace Keeps

variable {P : List (List Char) → Layout → Prop} {read rest : List (List Char)}

/-- What every step keeps holds of all lines up to the end, as nothing is read after `.END`. -/
theorem addTexts (hP : Keeps requireOrigin P) (h : P read l) (hended : l.ended = false)
    (hl : addTexts requireOrigin (read.length + 1) rest l = .ok l') :
    P (read ++ upToEnd rest) l' := by
  induction rest generalizing read l with
  | nil =>
    cases hl
    rwa [upToEnd, List.append_nil]
  | cons text rest ih =>
    rw [addTexts_cons hended] at hl
    obtain ⟨l₁, htext, hl⟩ := Except.bind_eq_ok_iff.1 hl
    obtain ⟨line, hparse, hline⟩ := addText_eq_ok_iff.1 htext
    have hstep := step_of_addLine hline
    have h₁ := hP h hparse hstep
    have hended₁ := ended_of_step hparse hstep
    rw [hended, Bool.false_or] at hended₁
    rw [upToEnd]
    split
    case isTrue hfinish =>
      rw [addTexts_of_ended (by simp [hended₁, hfinish]) rest] at hl
      cases hl
      exact h₁
    case isFalse hfinish =>
      have := ih h₁ (by simp [hended₁, hfinish]) (by simpa using hl)
      rwa [List.append_assoc] at this

/-- A property that is kept from the layout before the first line holds of the layout of a source
and the lines up to the end. -/
theorem ofLines {options : Options} {texts : List (List Char)}
    (hP : Keeps options.requireOrigin P) (hinitial : P [] (.initial options))
    (hl : ofLines options texts = .ok l) : P (upToEnd texts) l := by
  obtain ⟨l₁, hl₁, h⟩ := Except.bind_eq_ok_iff.1 hl
  split at h
  · cases h
  · cases h
    exact hP.addTexts hinitial rfl hl₁

end Keeps

/-! ## What lines leave in a layout -/

section Step

variable {label : Option String}

/-- The label of a line comes after those that are defined. -/
theorem keys_of_defineAll (h : l.defineAll label = .ok l') :
    l'.symbols.map Prod.fst = l.symbols.map Prod.fst ++ label.toList := by
  rcases defineAll_eq_ok_iff.1 h with ⟨rfl, rfl⟩ | ⟨name, rfl, h⟩
  · simp
  · obtain ⟨_, _, _, rfl⟩ := define_eq_ok_iff.1 h
    simp

/-- A label is only defined where it is new. -/
theorem nodup_of_defineAll (h : l.defineAll label = .ok l')
    (hnodup : (l.symbols.map Prod.fst).Nodup) : (l'.symbols.map Prod.fst).Nodup := by
  rcases defineAll_eq_ok_iff.1 h with ⟨rfl, rfl⟩ | ⟨name, rfl, h⟩
  · exact hnodup
  · obtain ⟨_, _, hnew, rfl⟩ := define_eq_ok_iff.1 h
    rw [List.map_append, List.nodup_append]
    refine ⟨hnodup, List.nodup_singleton _, ?_⟩
    rintro a ha b hb rfl
    cases List.mem_singleton.1 hb
    exact Symbols.address?_eq_none_iff.1 hnew ha

variable (h : Step requireOrigin number l line l')
include h

/-- Whatever a line is, its label is all that it adds to the symbols. -/
theorem Step.defines :
    ∃ l₁ l₂ : Layout, l₁.symbols = l.symbols ∧ l₁.defineAll line.label = .ok l₂ ∧
      l₂.symbols = l'.symbols := by
  cases h with
  | blank => exact ⟨l, l, rfl, rfl, rfl⟩
  | label hstart hdefine | finish _ hstart hdefine =>
    obtain ⟨_, rfl⟩ := start_eq_ok_iff.1 hstart
    refine ⟨_, _, ?_, hdefine, ?_⟩ <;> rfl
  | origin _ horigin hdefine =>
    obtain ⟨_, _, _, _, rfl⟩ := setOrigin_eq_ok_iff.1 horigin
    refine ⟨_, _, ?_, hdefine, ?_⟩ <;> rfl
  | item _ hstart hdefine hplace =>
    obtain ⟨_, rfl⟩ := start_eq_ok_iff.1 hstart
    obtain ⟨_, _, _, rfl⟩ := place_eq_ok_iff.1 hplace
    refine ⟨_, _, ?_, hdefine, ?_⟩ <;> rfl

/-- A step places the item of its line. -/
theorem Step.items :
    l'.placements.map Placement.item =
      l.placements.map Placement.item ++ (line.content.bind itemOf?).toList := by
  cases h with
  | blank => simp
  | label hstart hdefine =>
    obtain ⟨_, rfl⟩ := start_eq_ok_iff.1 hstart
    obtain ⟨_, rfl⟩ := exists_symbols_of_defineAll hdefine
    simp
  | origin hname horigin hdefine =>
    obtain ⟨_, _, _, _, rfl⟩ := setOrigin_eq_ok_iff.1 horigin
    obtain ⟨_, rfl⟩ := exists_symbols_of_defineAll hdefine
    simp [itemOf?_of_directive (Or.inl hname)]
  | finish hname hstart hdefine =>
    obtain ⟨_, rfl⟩ := start_eq_ok_iff.1 hstart
    obtain ⟨_, rfl⟩ := exists_symbols_of_defineAll hdefine
    simp [itemOf?_of_directive (Or.inr hname)]
  | item hitem hstart hdefine hplace =>
    obtain ⟨_, rfl⟩ := start_eq_ok_iff.1 hstart
    obtain ⟨_, rfl⟩ := exists_symbols_of_defineAll hdefine
    obtain ⟨_, _, _, rfl⟩ := place_eq_ok_iff.1 hplace
    simp [itemOf?_of_itemOf hitem]

/-- A line that places no item steers the first pass. -/
theorem Step.asks {content : Content} (hcontent : line.content = some content) :
    (∃ item, ItemOf content item) ∨ directive? content = some .orig ∨
      directive? content = some .finish := by
  cases h with
  | blank | label => cases hcontent
  | origin hname =>
    cases hcontent
    exact Or.inr (Or.inl hname)
  | finish hname =>
    cases hcontent
    exact Or.inr (Or.inr hname)
  | item hitem =>
    cases hcontent
    exact Or.inl ⟨_, hitem⟩

end Step

/-- Whether a layout has the labels and the items of some lines, in their order. -/
structure Collected (read : List (List Char)) (l : Layout) : Prop where
  labels : l.symbols.map Prod.fst = read.filterMap labelOf?
  nodup : (l.symbols.map Prod.fst).Nodup
  items : l.placements.map Placement.item = read.filterMap lineItem?
  asks : ∀ text ∈ read, ∀ content, contentOf? text = some content →
    (∃ item, ItemOf content item) ∨ directive? content = some .orig ∨
      directive? content = some .finish

namespace Collected

variable {read : List (List Char)}

/-- Before the first line there are no labels and no items. -/
theorem initial (options : Options) : Collected [] (.initial options) where
  labels := rfl
  nodup := List.nodup_nil
  items := rfl
  asks _ h := by cases h

/-- Every step collects the label and the item of its line. -/
theorem step (h : Collected read l) (hparse : Line.parse text = .ok line)
    (hl : Step requireOrigin number l line l') : Collected (read ++ [text]) l' := by
  have hlabel := labelOf?_of_parse hparse
  have hcontent := contentOf?_of_parse hparse
  obtain ⟨l₁, l₂, hbefore, hdefine, hafter⟩ := hl.defines
  constructor
  case labels =>
    rw [← hafter, keys_of_defineAll hdefine, hbefore, h.labels, filterMap_concat, hlabel]
  case nodup =>
    rw [← hafter]
    exact nodup_of_defineAll hdefine (hbefore ▸ h.nodup)
  case items =>
    rw [hl.items, h.items, filterMap_concat, lineItem?, hcontent]
  case asks =>
    intro t ht
    rcases List.mem_append.1 ht with ht | ht
    · exact h.asks t ht
    · cases List.mem_singleton.1 ht
      intro content hc
      exact hl.asks (hcontent ▸ hc)

/-- What is collected is kept from step to step. -/
theorem keeps : Keeps requireOrigin Collected := fun _ _ _ _ _ h hparse hl => h.step hparse hl

end Collected

/-- A layout has the labels and the items of the lines up to the end. -/
theorem collected_of_ofLines {options : Options} {texts : List (List Char)}
    (h : ofLines options texts = .ok l) : Collected (upToEnd texts) l :=
  Collected.keeps.ofLines (.initial options) h

end Layout

end LittleComputer.Assembly
