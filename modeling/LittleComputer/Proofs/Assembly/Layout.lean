import LittleComputer.Assembly.Layout
import LittleComputer.Proofs.Outcome
import Mathlib

/-!
# How lines are laid out

What each part of the first pass does to a layout, and from that what a whole line does: every line
that is more than a comment begins the program or goes on with it, then defines its label, and then
places its item. Properties of layouts are carried from line to line by `Layout.Step`.
-/

namespace LittleComputer.Assembly

open Source

/-- The label that a line defines, if the line can be read. -/
def labelOf? (text : List Char) : Option String :=
  match Line.parse text with
  | .ok line => line.label
  | .error _ => none

/-- The instruction or directive of a line, if the line can be read. -/
def contentOf? (text : List Char) : Option Content :=
  match Line.parse text with
  | .ok line => line.content
  | .error _ => none

/-- The label of a line that has been read. -/
theorem labelOf?_of_parse {text : List Char} {line : Line} (h : Line.parse text = .ok line) :
    labelOf? text = line.label := by
  rw [labelOf?, h]

/-- The content of a line that has been read. -/
theorem contentOf?_of_parse {text : List Char} {line : Line} (h : Line.parse text = .ok line) :
    contentOf? text = line.content := by
  rw [contentOf?, h]

/-- A line that defines a label can be read. -/
theorem exists_parse_of_labelOf? {text : List Char} {label : String}
    (h : labelOf? text = some label) :
    ∃ line, Line.parse text = .ok line ∧ line.label = some label := by
  unfold labelOf? at h
  split at h
  · rename_i line hparse
    exact ⟨line, hparse, h⟩
  · cases h

/-- A line with a content can be read. -/
theorem exists_parse_of_contentOf? {text : List Char} {content : Content}
    (h : contentOf? text = some content) :
    ∃ line, Line.parse text = .ok line ∧ line.content = some content := by
  unfold contentOf? at h
  split at h
  · rename_i line hparse
    exact ⟨line, hparse, h⟩
  · cases h

/-- The number of the first line that defines a label. -/
def definingLine? (texts : List (List Char)) (label : String) : Option Nat :=
  (texts.findIdx? fun text => labelOf? text == some label).map (· + 1)

/-- The item that an instruction or directive asks for. -/
inductive ItemOf : Content → Item → Prop
  | instruction (mnemonic : String) (operands : List Operand) :
    ItemOf (.instruction mnemonic operands) (.instruction mnemonic operands)
  | fill {name : String} (hname : Directive.ofName? name = some .fill) (value : Operand) :
    ItemOf (.directive name [value]) (.fill value)
  | block {name : String} (hname : Directive.ofName? name = some .block) {count : Int}
    (hcount : 0 ≤ count) : ItemOf (.directive name [.number count]) (.block count.toNat)
  | string {name : String} (hname : Directive.ofName? name = some .string) {text : String}
    (htext : isAscii text = true) : ItemOf (.directive name [.string text]) (.string text)

namespace Symbols

variable {symbols : Symbols} {label : String}

/-- The labels that have no address are those that are not defined. -/
theorem address?_eq_none_iff : symbols.address? label = none ↔ label ∉ symbols.map Prod.fst := by
  simp only [address?, List.lookup_eq_none_iff, bne_iff_ne, List.mem_map, not_exists, not_and,
    ne_comm, ne_eq]

/-- The address of a label is that of one of its definitions. -/
theorem mem_of_address? {a : Word} (h : symbols.address? label = some a) :
    (label, a) ∈ symbols := by
  obtain ⟨before, after, rfl, _⟩ := List.lookup_eq_some_iff.1 h
  exact List.mem_append_right before List.mem_cons_self

/-- The labels that have an address are those that are defined. -/
theorem isSome_address?_iff :
    (symbols.address? label).isSome = true ↔ label ∈ symbols.map Prod.fst := by
  rw [← not_iff_not, Bool.not_eq_true, Option.isSome_eq_false_iff, Option.isNone_iff_eq_none,
    address?_eq_none_iff]

end Symbols

/-- Only an empty list has no operands to complain about. -/
theorem takeNone_eq_ok_iff {name : String} {operands : List Operand} {u : Unit} :
    takeNone name operands = .ok u ↔ operands = [] := by
  cases operands <;> simp [takeNone]

/-- Only a list of one has an only operand. -/
theorem takeOne_eq_ok_iff {name : String} {operands : List Operand} {a : Operand} :
    takeOne name operands = .ok a ↔ operands = [a] := by
  unfold takeOne
  split <;> simp_all

/-- An origin is an even number that is an address. -/
theorem originOf_eq_ok_iff {operand : Operand} {origin : Word} :
    originOf operand = .ok origin ↔
      operand = .number origin.toNat ∧ origin.toNat % wordSize = 0 := by
  constructor
  · intro h
    unfold originOf at h
    split at h
    · split at h
      · rename_i address ha
        split at h
        · rename_i heven
          cases h
          exact ⟨by rw [Word.address?_eq_some_iff.1 ha], heven⟩
        · simp at h
      · simp at h
    · simp at h
  · rintro ⟨rfl, heven⟩
    simp [originOf, heven]

/-- A block is asked for by a number that is not negative. -/
theorem blockOf_eq_ok_iff {operand : Operand} {item : Item} :
    blockOf operand = .ok item ↔
      ∃ count : Int, operand = .number count ∧ 0 ≤ count ∧ item = .block count.toNat := by
  cases operand with
  | number value =>
    by_cases h : 0 ≤ value <;> simp [blockOf, h, eq_comm]
  | _ => simp [blockOf]

/-- A string is stored if all of its characters are of the first 128. -/
theorem stringOf_eq_ok_iff {operand : Operand} {item : Item} :
    stringOf operand = .ok item ↔
      ∃ text, operand = .string text ∧ isAscii text = true ∧ item = .string text := by
  cases operand with
  | string text =>
    simp only [stringOf]
    by_cases h : isAscii text = true
    · rw [if_pos h, Except.ok.injEq]
      constructor
      · rintro rfl
        exact ⟨text, rfl, h, rfl⟩
      · rintro ⟨_, ht, _, rfl⟩
        rw [Operand.string.inj ht]
    · rw [if_neg h]
      constructor
      · rintro ⟨⟩
      · rintro ⟨_, ht, h', _⟩
        rw [Operand.string.inj ht] at h
        exact absurd h' h
  | _ => simp [stringOf]

namespace Layout

/-! ## Parts of a line -/

variable {l l' : Layout} {requireOrigin : Bool}

/-- A line other than `.ORIG` begins a program if it has begun or needs no origin. -/
theorem start_eq_ok_iff :
    l.start requireOrigin = .ok l' ↔
      (l.started = true ∨ requireOrigin = false) ∧ l' = { l with started := true } := by
  unfold start
  cases l.started <;> cases requireOrigin <;> simp [eq_comm]

/-- Only the first line of a program can give it an address. -/
theorem setOrigin_eq_ok_iff {operands : List Operand} :
    l.setOrigin operands = .ok l' ↔
      l.started = false ∧ ∃ origin : Word, operands = [.number origin.toNat] ∧
        origin.toNat % wordSize = 0 ∧
        l' = { l with origin, address := origin.toNat, started := true } := by
  unfold setOrigin
  cases l.started with
  | true => simp
  | false =>
    simp only [Bool.false_eq_true, if_false, pure, Except.pure, Except.bind_eq_ok_iff,
       takeOne_eq_ok_iff, originOf_eq_ok_iff, Except.ok.injEq, true_and]
    constructor
    · rintro ⟨_, rfl, origin, ⟨rfl, heven⟩, rfl⟩
      exact ⟨origin, rfl, heven, rfl⟩
    · rintro ⟨origin, rfl, heven, rfl⟩
      exact ⟨_, rfl, origin, ⟨rfl, heven⟩, rfl⟩

/-- A label is defined if it is new and there is an address for it. -/
theorem define_eq_ok_iff {label : String} :
    l.define label = .ok l' ↔
      ∃ a : Word, l.address = a.toNat ∧ l.symbols.address? label = none ∧
        l' = { l with symbols := l.symbols ++ [(label, a)] } := by
  unfold define
  cases ha : Word.address? l.address with
  | none =>
    constructor
    · rintro ⟨⟩
    · rintro ⟨a, h, _⟩
      rw [h, Word.address?_toNat] at ha
      cases ha
  | some a =>
    have ha := Int.ofNat_inj.1 (Word.address?_eq_some_iff.1 ha)
    cases hs : l.symbols.address? label with
    | none =>
      simp only [Option.isSome_none, Bool.false_eq_true, if_false, Except.ok.injEq, true_and]
      constructor
      · rintro rfl
        exact ⟨a, ha, rfl⟩
      · rintro ⟨b, hb, rfl⟩
        rw [BitVec.eq_of_toNat_eq (ha.symm.trans hb)]
    | some b => simp

/-- A line without a label defines nothing. -/
theorem defineAll_eq_ok_iff {label : Option String} :
    l.defineAll label = .ok l' ↔
      label = none ∧ l' = l ∨ ∃ name, label = some name ∧ l.define name = .ok l' := by
  cases label with
  | none => simp [defineAll, eq_comm]
  | some name => simp [defineAll]

/-- A label is all that is new. -/
theorem exists_symbols_of_defineAll {label : Option String} (h : l.defineAll label = .ok l') :
    ∃ symbols, l' = { l with symbols } := by
  rcases defineAll_eq_ok_iff.1 h with ⟨_, rfl⟩ | ⟨_, _, h⟩
  · exact ⟨l'.symbols, rfl⟩
  · obtain ⟨_, _, _, rfl⟩ := define_eq_ok_iff.1 h
    exact ⟨_, rfl⟩

/-- Labels do not begin a program. -/
theorem started_of_defineAll {label : Option String} (h : l.defineAll label = .ok l') :
    l'.started = l.started := by
  obtain ⟨_, rfl⟩ := exists_symbols_of_defineAll h
  rfl

/-- An item is placed if it has an address and there is room from there on. -/
theorem place_eq_ok_iff {line : Nat} {item : Item} :
    l.place line item = .ok l' ↔
      ∃ a : Word, l.address = a.toNat ∧ l.address + wordSize * item.size ≤ memorySize ∧
        l' = { l with
          address := l.address + wordSize * item.size
          placements := l.placements ++ [⟨line, a, item⟩] } := by
  unfold place
  by_cases hfit : memorySize < l.address + wordSize * item.size
  · rw [if_pos hfit]
    constructor
    · rintro ⟨⟩
    · rintro ⟨_, _, h, _⟩
      omega
  · rw [if_neg hfit]
    cases ha : Word.address? l.address with
    | none =>
      constructor
      · rintro ⟨⟩
      · rintro ⟨a, h, _⟩
        rw [h, Word.address?_toNat] at ha
        cases ha
    | some a =>
      have ha := Int.ofNat_inj.1 (Word.address?_eq_some_iff.1 ha)
      simp only [Except.ok.injEq]
      constructor
      · rintro rfl
        exact ⟨a, ha, by omega, rfl⟩
      · rintro ⟨b, hb, _, rfl⟩
        rw [BitVec.eq_of_toNat_eq (ha.symm.trans hb)]

/-- Every number below the size of memory is an address. -/
theorem exists_word {n : Nat} (h : n < memorySize) : ∃ a : Word, n = a.toNat :=
  ⟨BitVec.ofNat 16 n, (Nat.mod_eq_of_lt h).symm⟩

/-! ## A line -/

/-- A line that asks for an item adds that item. -/
theorem addLine_of_itemOf {number : Nat} {content : Content} {item : Item}
    {label comment : Option String} (h : ItemOf content item) :
    l.addLine requireOrigin number ⟨label, some content, comment⟩ =
      l.add requireOrigin number label item := by
  cases h with
  | instruction => rfl
  | fill hname value => simp only [addLine, addDirective, hname, takeOne, Except.ok_bind]
  | block hname hcount =>
    simp only [addLine, addDirective, hname, takeOne, Except.ok_bind, blockOf, if_pos hcount]
  | string hname htext =>
    simp only [addLine, addDirective, hname, takeOne, Except.ok_bind, stringOf, if_pos htext]

/-- What a line can do to a layout: nothing, or begin the program or go on with it, define its label
and then place its item. -/
inductive Step (requireOrigin : Bool) (number : Nat) (l : Layout) : Line → Layout → Prop
  | blank {comment : Option String} : Step requireOrigin number l ⟨none, none, comment⟩ l
  | label {name : String} {comment : Option String} {l₁ l₂ : Layout}
    (hstart : l.start requireOrigin = .ok l₁) (hdefine : l₁.defineAll (some name) = .ok l₂) :
    Step requireOrigin number l ⟨some name, none, comment⟩ l₂
  | origin {label comment : Option String} {name : String} {operands : List Operand}
    {l₁ l₂ : Layout} (hname : Directive.ofName? name = some .orig)
    (horigin : l.setOrigin operands = .ok l₁) (hdefine : l₁.defineAll label = .ok l₂) :
    Step requireOrigin number l ⟨label, some (.directive name operands), comment⟩ l₂
  | finish {label comment : Option String} {name : String} {l₁ l₂ : Layout}
    (hname : Directive.ofName? name = some .finish)
    (hstart : l.start requireOrigin = .ok l₁) (hdefine : l₁.defineAll label = .ok l₂) :
    Step requireOrigin number l ⟨label, some (.directive name []), comment⟩
      { l₂ with ended := true }
  | item {label comment : Option String} {content : Content} {item : Item} {l₁ l₂ l₃ : Layout}
    (hitem : ItemOf content item) (hstart : l.start requireOrigin = .ok l₁)
    (hdefine : l₁.defineAll label = .ok l₂) (hplace : l₂.place number item = .ok l₃) :
    Step requireOrigin number l ⟨label, some content, comment⟩ l₃

variable {number : Nat} {label comment : Option String}

/-- To add an item is a step of a line that asks for it. -/
theorem Step.of_add {content : Content} {item : Item} (hitem : ItemOf content item)
    (h : l.add requireOrigin number label item = .ok l') :
    Step requireOrigin number l ⟨label, some content, comment⟩ l' := by
  simp only [add, Except.bind_eq_ok_iff] at h
  obtain ⟨l₁, hstart, l₂, hdefine, hplace⟩ := h
  exact .item hitem hstart hdefine hplace

/-- To add a directive is a step of its line. -/
theorem Step.of_addDirective {name : String} {operands : List Operand}
    (h : l.addDirective requireOrigin number label name operands = .ok l') :
    Step requireOrigin number l ⟨label, some (.directive name operands), comment⟩ l' := by
  unfold addDirective at h
  split at h
  case h_1 => cases h
  case h_2 hname =>
    obtain ⟨l₁, horigin, hdefine⟩ := Except.bind_eq_ok_iff.1 h
    exact .origin hname horigin hdefine
  case h_3 hname =>
    simp only [Except.bind_eq_ok_iff, takeNone_eq_ok_iff, pure, Except.pure,
      Except.ok.injEq] at h
    obtain ⟨_, rfl, l₁, hstart, l₂, hdefine, rfl⟩ := h
    exact .finish hname hstart hdefine
  case h_4 hname =>
    simp only [Except.bind_eq_ok_iff, takeOne_eq_ok_iff] at h
    obtain ⟨value, rfl, h⟩ := h
    exact .of_add (.fill hname value) h
  case h_5 hname =>
    simp only [Except.bind_eq_ok_iff, takeOne_eq_ok_iff, blockOf_eq_ok_iff] at h
    obtain ⟨_, rfl, _, ⟨count, rfl, hcount, rfl⟩, h⟩ := h
    exact .of_add (.block hname hcount) h
  case h_6 hname =>
    simp only [Except.bind_eq_ok_iff, takeOne_eq_ok_iff, stringOf_eq_ok_iff] at h
    obtain ⟨_, rfl, _, ⟨text, rfl, htext, rfl⟩, h⟩ := h
    exact .of_add (.string hname htext) h

/-- A line that is added without an error takes one of the steps. -/
theorem step_of_addLine {line : Line} (h : l.addLine requireOrigin number line = .ok l') :
    Step requireOrigin number l line l' := by
  obtain ⟨label, content, comment⟩ := line
  unfold addLine at h
  split at h
  case h_1 mnemonic operands hc =>
    cases hc
    exact .of_add (.instruction mnemonic operands) h
  case h_2 name operands hc =>
    cases hc
    exact .of_addDirective h
  case h_3 hc =>
    cases hc
    split at h
    case h_1 name hl =>
      cases hl
      obtain ⟨l₁, hstart, hdefine⟩ := Except.bind_eq_ok_iff.1 h
      exact .label hstart hdefine
    case h_2 hl =>
      cases hl
      cases h
      exact .blank

/-- A line that has been read is added with its number on every error. -/
theorem addText_of_parse {text : List Char} {line : Line} (h : Line.parse text = .ok line) :
    l.addText requireOrigin number text =
      (l.addLine requireOrigin number line).mapError fun cause => ⟨number, cause⟩ := by
  simp only [addText, h]
  cases l.addLine requireOrigin number line <;> rfl

/-- A line is added if it can be read and what is read can be added. -/
theorem addText_eq_ok_iff {text : List Char} :
    l.addText requireOrigin number text = .ok l' ↔
      ∃ line, Line.parse text = .ok line ∧ l.addLine requireOrigin number line = .ok l' := by
  unfold addText
  cases Line.parse text with
  | error e => simp
  | ok line => cases h : l.addLine requireOrigin number line <;> simp [h]

/-- A line with an item for which there is room, under a label that is new if there is one. -/
theorem addText_of_item {text : List Char} {content : Content} {item : Item}
    (hparse : Line.parse text = .ok ⟨label, some content, comment⟩) (hitem : ItemOf content item)
    (hbegun : l.started = true ∨ requireOrigin = false)
    (hfresh : ∀ name ∈ label, l.symbols.address? name = none) {a : Word}
    (ha : l.address = a.toNat) (hfits : l.address + wordSize * item.size ≤ memorySize) :
    l.addText requireOrigin number text = .ok { l with
      started := true
      address := l.address + wordSize * item.size
      symbols := l.symbols ++ label.toList.map fun name => (name, a)
      placements := l.placements ++ [⟨number, a, item⟩] } := by
  refine addText_eq_ok_iff.2 ⟨_, hparse, ?_⟩
  have hdefine : { l with started := true }.defineAll label = .ok { l with
      started := true
      symbols := l.symbols ++ label.toList.map fun name => (name, a) } := by
    cases label with
    | none => simp [defineAll]
    | some name => exact define_eq_ok_iff.2 ⟨a, ha, hfresh name rfl, rfl⟩
  rw [addLine_of_itemOf hitem, add, start_eq_ok_iff.2 ⟨hbegun, rfl⟩, Except.ok_bind, hdefine,
    Except.ok_bind]
  exact place_eq_ok_iff.2 ⟨a, ha, hfits, rfl⟩

/-! ## Lines -/

/-- After `.END` lines change nothing. -/
theorem addTexts_of_ended (h : l.ended = true) (texts : List (List Char)) :
    addTexts requireOrigin number texts l = .ok l := by
  cases texts with
  | nil => rfl
  | cons text rest => rw [addTexts, if_pos h]

/-- Before `.END` the first line is added, and then the others from its layout. -/
theorem addTexts_cons {text : List Char} {rest : List (List Char)} (h : l.ended = false) :
    addTexts requireOrigin number (text :: rest) l =
      l.addText requireOrigin number text >>= addTexts requireOrigin (number + 1) rest := by
  rw [addTexts, if_neg (by rw [h]; exact Bool.false_ne_true)]
  cases l.addText requireOrigin number text <;> rfl

/-- Lines are added one after the other. -/
theorem addTexts_append (texts rest : List (List Char)) :
    addTexts requireOrigin number (texts ++ rest) l =
      (addTexts requireOrigin number texts l).bind
        (addTexts requireOrigin (number + texts.length) rest) := by
  induction texts generalizing number l with
  | nil => rfl
  | cons text texts ih =>
    rw [List.cons_append, addTexts, addTexts]
    split
    · rename_i hended
      exact (addTexts_of_ended hended rest).symm
    · split
      · rfl
      · rw [ih, List.length_cons, Nat.add_assoc, Nat.add_comm 1]

end Layout

end LittleComputer.Assembly
