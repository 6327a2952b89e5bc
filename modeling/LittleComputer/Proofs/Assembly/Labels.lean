import LittleComputer.Proofs.Assembly.Range
import LittleComputer.Proofs.Assembly.References
import Mathlib

/-!
# The labels of a source

The symbols of a layout are the labels of its lines, each of them once. Every address is a whole
number of words from the origin, so a label that is defined is at a whole number of words from every
item. A label that is defined again ends the first pass where it is.
-/

namespace LittleComputer.Assembly

open Source

/-! ## Whole words -/

/-- A label at a whole number of words has a distance. -/
theorem Scope.exists_distance {s : Scope} {label : String} {a : Word}
    (ha : s.symbols.address? label = some a)
    (hmod : a.toNat % wordSize = s.address.toNat % wordSize) (field : Field) :
    ∃ n, s.distance field label = .ok n := by
  simp only [wordSize] at hmod
  refine ⟨((a.toNat : Int) - (s.address.toNat + 2)) / 2, distance_eq_ok_iff.2 ⟨a, ha, ?_⟩⟩
  simp only [wordSize]
  omega

namespace Layout.Consistent

variable {read : List (List Char)} {l : Layout} (h : Consistent read l)
include h

/-- Every item is at a whole number of words from the origin. -/
theorem placement_mod {p : Placement} (hp : p ∈ l.placements) :
    p.address.toNat % wordSize = l.origin.toNat % wordSize := by
  obtain ⟨i, hi⟩ := List.getElem?_of_mem hp
  rw [h.tiled.address_getElem? hi, Nat.add_mul_mod_self_left]

/-- Wherever a label can be, it is at a whole number of words from the origin. -/
theorem addressFrom_mod (line : Nat) :
    l.addressFrom line % wordSize = l.origin.toNat % wordSize := by
  unfold addressFrom
  split
  · rename_i p hp
    exact h.placement_mod (List.mem_of_find?_eq_some hp)
  · rw [h.tiled.end_eq, Nat.add_mul_mod_self_left]

/-- Every label is at a whole number of words from the origin. -/
theorem symbol_mod {s : String × Word} (hs : s ∈ l.symbols) :
    s.2.toNat % wordSize = l.origin.toNat % wordSize := by
  obtain ⟨k, _, ha⟩ := h.defined s hs
  rw [ha]
  exact h.addressFrom_mod k

/-- A label has a distance from every item, unless it is not defined. -/
theorem eq_undefinedLabel_of_distance {p : Placement} (hp : p ∈ l.placements) {field : Field}
    {label : String} {cause : Cause}
    (hdistance : (Scope.mk l.symbols p.address).distance field label = .error cause) :
    cause = .undefinedLabel label := by
  cases ha : l.symbols.address? label with
  | none =>
    simp only [Scope.distance, Scope.labelAddress, ha, Except.error_bind, Except.error.injEq]
      at hdistance
    exact hdistance.symm
  | some a =>
    have hmod := (h.symbol_mod (Symbols.mem_of_address? ha)).trans (h.placement_mod hp).symm
    obtain ⟨n, hn⟩ := Scope.exists_distance (s := ⟨l.symbols, p.address⟩) ha hmod field
    rw [hn] at hdistance
    cases hdistance

end Layout.Consistent

/-! ## Labels that are referred to -/

/-- Whether an instruction or directive can have a label as an operand. -/
def TakesLabel : Content → Prop
  | .instruction name _ =>
    (∃ condition, Mnemonic.ofName? name = some (.branch condition)) ∨
      Mnemonic.ofName? name = some .call ∨ Mnemonic.ofName? name = some .loadAddress
  | .directive name _ => Directive.ofName? name = some .fill

/-- The item of a line that can refer to a label can refer to one. -/
theorem ItemOf.takesLabel {content : Content} {item : Item} (h : ItemOf content item)
    (hcontent : TakesLabel content) : item.TakesLabel := by
  cases h with
  | instruction => exact hcontent
  | fill => trivial
  | block hname | string hname => cases hname.symm.trans hcontent

/-- `.ORIG` and `.END` do not refer to labels. -/
theorem TakesLabel.directive?_ne {content : Content} (h : TakesLabel content) :
    directive? content ≠ some .orig ∧ directive? content ≠ some .finish := by
  cases content with
  | instruction => simp [directive?]
  | directive name operands => simp [directive?, show Directive.ofName? name = some .fill from h]

/-- Every line that is laid out and can refer to a label has its item. -/
theorem Layout.Collected.exists_placement {read : List (List Char)} {l : Layout}
    (h : l.Collected read) {text : List Char} (htext : text ∈ read) {content : Content}
    (hcontent : contentOf? text = some content) (htakes : TakesLabel content) :
    ∃ p ∈ l.placements, ItemOf content p.item := by
  obtain ⟨item, hitem⟩ : ∃ item, ItemOf content item := by
    rcases h.asks text htext content hcontent with hitem | horig | hfinish
    · exact hitem
    · exact absurd horig htakes.directive?_ne.1
    · exact absurd hfinish htakes.directive?_ne.2
  have hmem : item ∈ l.placements.map Placement.item := by
    rw [h.items]
    refine List.mem_filterMap.2 ⟨text, htext, ?_⟩
    rw [lineItem?, hcontent, Option.bind_some, itemOf?_of_itemOf hitem]
  obtain ⟨p, hp, rfl⟩ := List.mem_map.1 hmem
  exact ⟨p, hp, hitem⟩

/-- Where the items of a layout have words, the labels that its lines refer to are defined. -/
theorem Emits.isSome_address? {read : List (List Char)} {l : Layout} {chunks : List (List Word)}
    (h : Emits l.symbols l.placements chunks) (hcollected : l.Collected read) {text : List Char}
    (htext : text ∈ read) {content : Content} (hcontent : contentOf? text = some content)
    (htakes : TakesLabel content) {label : String} (hlabel : .label label ∈ content.operands) :
    (l.symbols.address? label).isSome = true := by
  obtain ⟨p, hp, hitem⟩ := hcollected.exists_placement htext hcontent htakes
  obtain ⟨i, hi⟩ := List.getElem?_of_mem hp
  obtain ⟨chunk, _, hwords⟩ := h.getElem? hi
  have hitemTakes := hitem.takesLabel htakes
  obtain ⟨target, _, htarget, _⟩ :=
    Scope.refersTo_of_words hitemTakes (hitem.operands_eq hitemTakes ▸ hlabel) hwords
  rw [htarget, Option.isSome_some]

/-! ## Labels that are defined twice -/

namespace Layout

variable {l l' : Layout} {requireOrigin : Bool} {number : Nat} {name other : String}

/-- Where another label can be defined, one that is defined already is all that is wrong. -/
theorem defineAll_of_defined (h : l.defineAll (some other) = .ok l')
    (hname : (l.symbols.address? name).isSome = true) :
    l.defineAll (some name) = .error (.duplicateLabel name) := by
  obtain ⟨a, ha, _⟩ := define_eq_ok_iff.1 h
  rw [defineAll, define, ha, Word.address?_toNat]
  exact if_pos hname

/-- A line with nothing wrong but its label, which is defined already. -/
theorem addLine_of_defined {line : Line} (hlabel : line.label = some name)
    (hname : (l.symbols.address? name).isSome = true)
    (h : l.addLine requireOrigin number { line with label := some other } = .ok l') :
    l.addLine requireOrigin number line = .error (.duplicateLabel name) := by
  obtain ⟨label, content, comment⟩ := line
  cases hlabel
  cases step_of_addLine h with
  | label hstart hdefine =>
    obtain ⟨_, rfl⟩ := start_eq_ok_iff.1 hstart
    have herror := defineAll_of_defined hdefine hname
    simp only [addLine, hstart, Except.ok_bind]
    exact herror
  | origin hdirective horigin hdefine =>
    obtain ⟨_, _, _, _, rfl⟩ := setOrigin_eq_ok_iff.1 horigin
    have herror := defineAll_of_defined hdefine hname
    simp only [addLine, addDirective, hdirective, horigin, Except.ok_bind, herror]
  | finish hdirective hstart hdefine =>
    obtain ⟨_, rfl⟩ := start_eq_ok_iff.1 hstart
    have herror := defineAll_of_defined hdefine hname
    simp only [addLine, addDirective, hdirective, takeNone, hstart, Except.ok_bind, herror,
      Except.error_bind]
  | item hitem hstart hdefine =>
    obtain ⟨_, rfl⟩ := start_eq_ok_iff.1 hstart
    have herror := defineAll_of_defined hdefine hname
    simp only [addLine_of_itemOf hitem, add, hstart, Except.ok_bind, herror, Except.error_bind]

end Layout

/-- Two elements that are turned into one value, which is there once, are the same. -/
theorem not_lt_of_nodup_filterMap {α β : Type} {f : α → Option β} {as : List α} {a a' : α} {b : β}
    {i j : Nat} (h : (as.filterMap f).Nodup) (hi : as[i]? = some a) (hj : as[j]? = some a')
    (ha : f a = some b) (ha' : f a' = some b) : ¬i < j := by
  intro hij
  obtain ⟨hilt, rfl⟩ := List.getElem?_eq_some_iff.1 hi
  obtain ⟨hjlt, rfl⟩ := List.getElem?_eq_some_iff.1 hj
  have hne := List.pairwise_iff_getElem.1 (List.pairwise_filterMap.1 h) i j hilt hjlt hij
  exact hne b ha b ha' rfl

section Twice

variable {options : Options} {source name : String} {i j : Nat} {first second : List Char}
  (hij : i < j)
  (hfirst : (upToEnd (Text.lines source.toList))[i]? = some first)
  (hsecond : (upToEnd (Text.lines source.toList))[j]? = some second)
  (hi : labelOf? first = some name) (hj : labelOf? second = some name)
include hij hfirst hsecond hi hj

/-- Lines that are laid out do not define a label twice. -/
theorem exists_addTexts_error_of_twice (options : Options) :
    ∃ e, Layout.addTexts options.requireOrigin 1 ((Text.lines source.toList).take (j + 1))
      (.initial options) = .error e := by
  cases hl : Layout.addTexts options.requireOrigin 1 ((Text.lines source.toList).take (j + 1))
      (.initial options) with
  | error e => exact ⟨e, rfl⟩
  | ok l =>
    have hcollected := Layout.Collected.keeps.addTexts (.initial options) rfl hl
    rw [List.nil_append, upToEnd_take] at hcollected
    have hnodup := hcollected.labels ▸ hcollected.nodup
    have hbefore := (List.getElem?_take_of_lt (Nat.lt_succ_of_lt hij)).trans hfirst
    have hat := (List.getElem?_take_of_lt (Nat.lt_succ_self j)).trans hsecond
    exact absurd hij (not_lt_of_nodup_filterMap hnodup hbefore hat hi hj)

/-- A label that is defined on two lines ends the first pass, at the latest on the second one. -/
theorem exists_error_of_twice : ∃ e, assemble options source = .error e ∧ e.line ≤ j + 1 := by
  obtain ⟨e, he⟩ := exists_addTexts_error_of_twice hij hfirst hsecond hi hj options
  refine ⟨e, ?_, ?_⟩
  · rw [assemble, Layout.ofLines_of_take_error he]
    rfl
  · have := (Layout.line_of_addTexts_error he).2
    have := List.length_take_le (j + 1) (Text.lines source.toList)
    omega

/-- The label is what is wrong with the second line if nothing else is wrong so far. The lines
before do not fail, so it is this line that does. -/
theorem assemble_of_twice {l l' : Layout} {line : Line} {other : String}
    (hbefore : Layout.addTexts options.requireOrigin 1 ((Text.lines source.toList).take j)
      (.initial options) = .ok l)
    (hparse : Line.parse second = .ok line)
    (hother : l.addLine options.requireOrigin (j + 1) { line with label := some other } = .ok l') :
    assemble options source = .error ⟨j + 1, .duplicateLabel name⟩ := by
  have hdefined : (l.symbols.address? name).isSome = true := by
    have hcollected := Layout.Collected.keeps.addTexts (.initial options) rfl hbefore
    rw [List.nil_append, upToEnd_take] at hcollected
    rw [Symbols.isSome_address?_iff, hcollected.labels]
    refine List.mem_filterMap.2 ⟨first, ?_, hi⟩
    exact List.mem_of_getElem? ((List.getElem?_take_of_lt hij).trans hfirst)
  have hline : line.label = some name := by rwa [labelOf?_of_parse hparse] at hj
  have htext : l.addText options.requireOrigin (j + 1) second =
      .error ⟨j + 1, .duplicateLabel name⟩ := by
    rw [Layout.addText, hparse]
    simp only [Layout.addLine_of_defined hline hdefined hother]
  obtain ⟨e, he⟩ := exists_addTexts_error_of_twice hij hfirst hsecond hi hj options
  have hget : (Text.lines source.toList)[j]? = some second := by
    obtain ⟨hlt, hat⟩ := List.getElem?_eq_some_iff.1 hsecond
    rw [← hat]
    exact List.prefix_iff_getElem?.1 (isPrefix_upToEnd _) j hlt
  have hlength : ((Text.lines source.toList).take j).length = j :=
    List.length_take_of_le (Nat.le_of_lt (List.getElem?_eq_some_iff.1 hget).1)
  have herror := he
  rw [List.take_add_one, hget, Option.toList_some, Layout.addTexts_append, hbefore, hlength,
    Except.bind, Nat.add_comm, Layout.addTexts, htext] at herror
  split at herror
  · cases herror
  · cases herror
    rw [assemble, Layout.ofLines_of_take_error he]
    rfl

end Twice

/-! ## The symbols of a program -/

/-- Labels and items are a whole number of words from the origin, so only a label that is not
defined has no distance. The symbols of a program are the labels of the lines up to the end, each of
them once, and every label that these lines refer to is one of them. A label on two of the lines is
an error of the second one, unless something else is wrong up to there. -/
theorem symbol_hygiene (options : Options) (source : String) :
    (∀ l, Layout.ofLines options (Text.lines source.toList) = .ok l →
      (∀ s ∈ l.symbols, s.2.toNat % wordSize = l.origin.toNat % wordSize) ∧
      ∀ p ∈ l.placements, p.address.toNat % wordSize = l.origin.toNat % wordSize ∧
        ∀ field label cause,
          (Scope.mk l.symbols p.address).distance field label = .error cause →
            cause = .undefinedLabel label) ∧
    (∀ p, assemble options source = .ok p →
      (∃ l, Layout.ofLines options (Text.lines source.toList) = .ok l ∧ p.origin = l.origin ∧
        p.symbols = l.symbols) ∧
      p.symbols.map Prod.fst = (upToEnd (Text.lines source.toList)).filterMap labelOf? ∧
      ((upToEnd (Text.lines source.toList)).filterMap labelOf?).Nodup ∧
      ∀ text ∈ upToEnd (Text.lines source.toList), ∀ content, contentOf? text = some content →
        TakesLabel content → ∀ label, .label label ∈ content.operands →
          label ∈ p.symbols.map Prod.fst) ∧
    ∀ i j first second name, i < j →
      (upToEnd (Text.lines source.toList))[i]? = some first →
      (upToEnd (Text.lines source.toList))[j]? = some second →
      labelOf? first = some name → labelOf? second = some name →
        (∃ e, assemble options source = .error e ∧ e.line ≤ j + 1) ∧
        ∀ l line other l',
          Layout.addTexts options.requireOrigin 1 ((Text.lines source.toList).take j)
            (.initial options) = .ok l →
          Line.parse second = .ok line →
          l.addLine options.requireOrigin (j + 1) { line with label := some other } = .ok l' →
            assemble options source = .error ⟨j + 1, .duplicateLabel name⟩ := by
  refine ⟨?_, ?_, ?_⟩
  · intro l hl
    obtain ⟨read, _, hconsistent⟩ := Layout.consistent_of_ofLines hl
    refine ⟨fun s hs => hconsistent.symbol_mod hs, fun p hp => ⟨hconsistent.placement_mod hp, ?_⟩⟩
    intro field label cause hdistance
    exact hconsistent.eq_undefinedLabel_of_distance hp hdistance
  · intro p hp
    obtain ⟨l, chunks, hl, hemits, rfl⟩ := assemble_eq_ok_iff.1 hp
    have hcollected := Layout.collected_of_ofLines hl
    refine ⟨⟨l, hl, rfl, rfl⟩, hcollected.labels, hcollected.labels ▸ hcollected.nodup, ?_⟩
    intro text htext content hcontent htakes label hlabel
    rw [← Symbols.isSome_address?_iff]
    exact hemits.isSome_address? hcollected htext hcontent htakes hlabel
  · intro i j first second name hij hfirst hsecond hi hj
    refine ⟨exists_error_of_twice hij hfirst hsecond hi hj, ?_⟩
    intro l line other l' hbefore hparse hother
    exact assemble_of_twice hij hfirst hsecond hi hj hbefore hparse hother

/-- A source with labels on `.ORIG`, alone, on an instruction, on data, on `.END` and after it. -/
def labelled : String :=
  "first .ORIG x3000\nalone\nloop LEA R0, data\ndata .FILL last\nlast .END\nloop"

/-- A source that defines a label on both of its lines. -/
def relabelled : String := "again HALT\nagain .FILL again"

/-- The label after `.END` is none of the source, and the second definition is an error. -/
theorem symbol_hygiene_labelled :
    (upToEnd (Text.lines labelled.toList)).filterMap labelOf? =
        ["first", "alone", "loop", "data", "last"] ∧
      assemble {} relabelled = .error ⟨2, .duplicateLabel "again"⟩ := by
  constructor
  · obtain ⟨_, hassembled, _⟩ := symbol_hygiene {} labelled
    obtain ⟨_, hkeys, _⟩ := hassembled
      ⟨0x3000, [0xE000, 0x3004], [("first", 0x3000), ("alone", 0x3000), ("loop", 0x3000),
        ("data", 0x3002), ("last", 0x3004)]⟩ (by decide +kernel)
    exact hkeys.symm
  · obtain ⟨_, _, htwice⟩ := symbol_hygiene {} relabelled
    obtain ⟨_, hduplicate⟩ := htwice 0 1 "again HALT".toList "again .FILL again".toList "again"
      (by decide) (by decide +kernel) (by decide +kernel) (by decide +kernel) (by decide +kernel)
    exact hduplicate
      ⟨0x3000, 0x3002, true, false, [("again", 0x3000)], [⟨1, 0x3000, .instruction "HALT" []⟩]⟩
      ⟨some "again", some (.directive "FILL" [.label "again"]), none⟩ "other"
      ⟨0x3000, 0x3004, true, false, [("again", 0x3000), ("other", 0x3002)],
        [⟨1, 0x3000, .instruction "HALT" []⟩, ⟨2, 0x3002, .fill (.label "again")⟩]⟩
      (by decide +kernel) (by decide +kernel) (by decide +kernel)

end LittleComputer.Assembly
