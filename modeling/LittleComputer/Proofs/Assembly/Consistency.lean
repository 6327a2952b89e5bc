import LittleComputer.Proofs.Assembly.Layout
import LittleComputer.Proofs.Assembly.Range
import LittleComputer.Proofs.Outcome
import Mathlib

/-!
# Layouts agree with the lines that made them

The first pass keeps one invariant, `Layout.Consistent`. The items stand one after the other from
the origin to the current address, each comes from the line that it names, and a label has the
address of the first item on its line or after it, which is the current address until there is one.
-/

namespace LittleComputer.Assembly

open Source

/-! ## Rows of items -/

/-- Whether items fill the room between two addresses, one after the other. -/
def Tiled : Nat → List Placement → Nat → Prop
  | a, [], b => a = b
  | a, p :: ps, b => p.address.toNat = a ∧ Tiled (a + wordSize * p.item.size) ps b

/-- Two rows of items fill the room between two addresses if they meet in between. -/
theorem tiled_append {a c : Nat} {ps qs : List Placement} :
    Tiled a (ps ++ qs) c ↔ ∃ b, Tiled a ps b ∧ Tiled b qs c := by
  induction ps generalizing a with
  | nil => simp [Tiled]
  | cons p ps ih => simp [Tiled, ih, and_assoc]

/-- An item at the end of a row makes the row longer by its size. -/
theorem Tiled.concat {a : Nat} {ps : List Placement} {p : Placement}
    (h : Tiled a ps p.address.toNat) :
    Tiled a (ps ++ [p]) (p.address.toNat + wordSize * p.item.size) :=
  tiled_append.2 ⟨_, h, rfl, rfl⟩

/-- An item begins where the sizes of those before it end. -/
theorem Tiled.address_getElem? {a b i : Nat} {ps : List Placement} {p : Placement}
    (h : Tiled a ps b) (hp : ps[i]? = some p) :
    p.address.toNat = a + wordSize * ((ps.take i).map (·.item.size)).sum := by
  induction ps generalizing a i with
  | nil => cases hp
  | cons q ps ih =>
    obtain ⟨hq, h⟩ := h
    cases i with
    | zero =>
      cases hp
      exact hq
    | succ i =>
      rw [ih h hp, List.take_succ_cons, List.map_cons, List.sum_cons, Nat.mul_add, Nat.add_assoc]

/-- A row ends where all of its sizes end. -/
theorem Tiled.end_eq {a b : Nat} {ps : List Placement} (h : Tiled a ps b) :
    b = a + wordSize * (ps.map (·.item.size)).sum := by
  induction ps generalizing a with
  | nil => exact h.symm
  | cons p ps ih =>
    rw [ih h.2, List.map_cons, List.sum_cons, Nat.mul_add, Nat.add_assoc]

/-! ## Defining lines -/

section DefiningLine

variable {read : List (List Char)} {text : List Char} {label : String} {k : Nat}

/-- One more line defines a label if none before it does. -/
theorem definingLine?_concat :
    definingLine? (read ++ [text]) label =
      (definingLine? read label).or
        (if labelOf? text = some label then some (read.length + 1) else none) := by
  unfold definingLine?
  rw [List.findIdx?_append]
  by_cases h : labelOf? text = some label
  · cases read.findIdx? fun text => labelOf? text == some label <;> simp [h]
  · cases read.findIdx? fun text => labelOf? text == some label <;> simp [h]

/-- Later lines leave the first definition of a label where it is. -/
theorem definingLine?_append_of_eq_some (rest : List (List Char))
    (h : definingLine? read label = some k) : definingLine? (read ++ rest) label = some k := by
  unfold definingLine? at h ⊢
  obtain ⟨i, hi, rfl⟩ := Option.map_eq_some_iff.1 h
  rw [List.findIdx?_append, hi]
  rfl

/-- A label is defined on one of the lines. -/
theorem definingLine?_le (h : definingLine? read label = some k) : k ≤ read.length := by
  obtain ⟨i, hi, rfl⟩ := Option.map_eq_some_iff.1 h
  exact (List.findIdx?_eq_some_iff_findIdx_eq.1 hi).1

end DefiningLine

/-! ## The invariant -/

/-- Whether an item is the one that the line it names asks for. -/
def ComesFrom (read : List (List Char)) (p : Placement) : Prop :=
  ∃ i text content, p.line = i + 1 ∧ read[i]? = some text ∧ contentOf? text = some content ∧
    ItemOf content p.item

/-- An item comes from one of the lines. -/
theorem ComesFrom.line_le {read : List (List Char)} {p : Placement} (h : ComesFrom read p) :
    p.line ≤ read.length := by
  obtain ⟨i, _, _, hline, htext, _⟩ := h
  rw [hline]
  exact (List.getElem?_eq_some_iff.1 htext).1

/-- Later lines leave an item with the line that it comes from. -/
theorem ComesFrom.append {read : List (List Char)} {p : Placement} (h : ComesFrom read p)
    (rest : List (List Char)) : ComesFrom (read ++ rest) p := by
  obtain ⟨i, text, content, hline, htext, hitem⟩ := h
  refine ⟨i, text, content, hline, ?_, hitem⟩
  rw [List.getElem?_append_left (List.getElem?_eq_some_iff.1 htext).1, htext]

namespace Layout

/-- The address of the first item on a line or after it, and the current address if there is
none. -/
def addressFrom (l : Layout) (line : Nat) : Nat :=
  match l.placements.find? (line ≤ ·.line) with
  | some p => p.address.toNat
  | none => l.address

/-- What holds of a layout after some lines of a source. -/
structure Consistent (read : List (List Char)) (l : Layout) : Prop where
  fresh : l.started = false → l.symbols = [] ∧ l.placements = []
  tiled : Tiled l.origin.toNat l.placements l.address
  fits : l.address ≤ memorySize
  placed : ∀ p ∈ l.placements, ComesFrom read p
  defined : ∀ s ∈ l.symbols, ∃ k, definingLine? read s.1 = some k ∧ s.2.toNat = l.addressFrom k
  complete : ∀ label k, definingLine? read label = some k → (l.symbols.address? label).isSome

namespace Consistent

variable {read : List (List Char)} {l l' : Layout} {requireOrigin : Bool}

/-- The layout before the first line is consistent with no lines. -/
theorem initial (options : Options) : Consistent [] (.initial options) where
  fresh _ := ⟨rfl, rfl⟩
  tiled := rfl
  fits := Nat.le_of_lt options.defaultOrigin.isLt
  placed _ hp := by cases hp
  defined _ hs := by cases hs
  complete _ _ h := by cases h

/-- A label that is defined next gets the current address. -/
theorem addressFrom_of_lt (h : Consistent read l) {line : Nat} (hline : read.length < line) :
    l.addressFrom line = l.address := by
  have hnone : l.placements.find? (line ≤ ·.line) = none := by
    refine List.find?_eq_none.2 fun p hp => ?_
    have := (h.placed p hp).line_le
    simp only [decide_eq_true_eq]
    omega
  rw [addressFrom, hnone]

/-- To begin a program keeps a layout consistent. -/
theorem start (h : Consistent read l) (hl : l.start requireOrigin = .ok l') :
    Consistent read l' := by
  obtain ⟨_, rfl⟩ := start_eq_ok_iff.1 hl
  exact { h with fresh := fun hs => by cases hs }

/-- Before the program has begun there is nothing that a new origin could move. -/
theorem setOrigin (h : Consistent read l) {operands : List Operand}
    (hl : l.setOrigin operands = .ok l') : Consistent read l' := by
  obtain ⟨hstarted, origin, _, _, rfl⟩ := setOrigin_eq_ok_iff.1 hl
  obtain ⟨hsymbols, hplacements⟩ := h.fresh hstarted
  exact {
    fresh := fun hs => by cases hs
    tiled := by rw [hplacements]; rfl
    fits := Nat.le_of_lt origin.isLt
    placed := h.placed
    defined := fun s hs => by rw [hsymbols] at hs; cases hs
    complete := h.complete }

/-- A line that defines no label leaves every label where it was. -/
theorem unlabelled (h : Consistent read l) {text : List Char} (htext : labelOf? text = none) :
    Consistent (read ++ [text]) l where
  fresh := h.fresh
  tiled := h.tiled
  fits := h.fits
  placed p hp := (h.placed p hp).append [text]
  defined s hs := by
    obtain ⟨k, hk, ha⟩ := h.defined s hs
    exact ⟨k, definingLine?_append_of_eq_some [text] hk, ha⟩
  complete label k hk := by
    rw [definingLine?_concat, htext, if_neg (by simp), Option.or_none] at hk
    exact h.complete label k hk

/-- The invariant makes the new label one that no line before has defined. -/
theorem define (h : Consistent read l) {text : List Char} {name : String}
    (hstarted : l.started = true) (htext : labelOf? text = some name)
    (hl : l.define name = .ok l') : Consistent (read ++ [text]) l' := by
  obtain ⟨a, ha, hnew, rfl⟩ := define_eq_ok_iff.1 hl
  have hundefined : definingLine? read name = none := by
    refine Option.eq_none_iff_forall_ne_some.2 fun k hk => ?_
    have := h.complete name k hk
    rw [hnew] at this
    cases this
  constructor
  case fresh =>
    intro hs
    rw [hstarted] at hs
    cases hs
  case tiled => exact h.tiled
  case fits => exact h.fits
  case placed => exact fun p hp => (h.placed p hp).append [text]
  case defined =>
    intro s hs
    rcases List.mem_append.1 hs with hs | hs
    · obtain ⟨k, hk, hat⟩ := h.defined s hs
      exact ⟨k, definingLine?_append_of_eq_some [text] hk, hat⟩
    · cases List.mem_singleton.1 hs
      refine ⟨read.length + 1, ?_, ?_⟩
      · rw [definingLine?_concat, hundefined, if_pos htext, Option.none_or]
      · exact ha.symm.trans (h.addressFrom_of_lt (Nat.lt_succ_self _)).symm
  case complete =>
    intro label k hk
    rw [definingLine?_concat] at hk
    rw [Symbols.address?_append]
    rcases Option.or_eq_some_iff.1 hk with hk | ⟨_, hk⟩
    · rw [Option.isSome_or, h.complete label k hk, Bool.true_or]
    · split at hk
      · rename_i hlabel
        cases htext.symm.trans hlabel
        simp [Symbols.address?]
      · cases hk

/-- A line with or without a label is accounted for when its label is defined. -/
theorem defineAll (h : Consistent read l) {text : List Char} {label : Option String}
    (hstarted : l.started = true) (htext : labelOf? text = label)
    (hl : l.defineAll label = .ok l') : Consistent (read ++ [text]) l' := by
  rcases defineAll_eq_ok_iff.1 hl with ⟨rfl, rfl⟩ | ⟨name, rfl, hdefine⟩
  · exact h.unlabelled htext
  · exact h.define hstarted htext hdefine

/-- The labels that had the current address are now the labels of the new item. -/
theorem place {text : List Char} {content : Content} {item : Item}
    (h : Consistent (read ++ [text]) l) (hstarted : l.started = true)
    (hcontent : contentOf? text = some content) (hitem : ItemOf content item)
    (hl : l.place (read.length + 1) item = .ok l') : Consistent (read ++ [text]) l' := by
  obtain ⟨a, ha, hfits, rfl⟩ := place_eq_ok_iff.1 hl
  constructor
  case fresh =>
    intro hs
    rw [hstarted] at hs
    cases hs
  case tiled =>
    rw [ha]
    exact Tiled.concat (p := ⟨_, a, item⟩) (ha ▸ h.tiled)
  case fits => exact hfits
  case placed =>
    intro p hp
    rcases List.mem_append.1 hp with hp | hp
    · exact h.placed p hp
    · cases List.mem_singleton.1 hp
      refine ⟨read.length, text, content, rfl, ?_, hcontent, hitem⟩
      simp
  case defined =>
    intro s hs
    obtain ⟨k, hk, hat⟩ := h.defined s hs
    refine ⟨k, hk, hat.trans ?_⟩
    have hle : k ≤ read.length + 1 := by simpa using definingLine?_le hk
    simp only [addressFrom, List.find?_append]
    cases l.placements.find? (k ≤ ·.line) with
    | none => simp [hle, ha]
    | some p => simp
  case complete => exact h.complete

/-- Every step keeps the invariant, for one line more. -/
theorem step (h : Consistent read l) {text : List Char} {line : Line}
    (hparse : Line.parse text = .ok line)
    (hl : Step requireOrigin (read.length + 1) l line l') : Consistent (read ++ [text]) l' := by
  have hlabel := labelOf?_of_parse hparse
  have hcontent := contentOf?_of_parse hparse
  cases hl with
  | blank => exact h.unlabelled hlabel
  | label hstart hdefine =>
    have h₁ := h.start hstart
    obtain ⟨_, rfl⟩ := start_eq_ok_iff.1 hstart
    exact h₁.defineAll rfl hlabel hdefine
  | origin hname horigin hdefine =>
    have h₁ := h.setOrigin horigin
    obtain ⟨_, _, _, _, rfl⟩ := setOrigin_eq_ok_iff.1 horigin
    exact h₁.defineAll rfl hlabel hdefine
  | finish hname hstart hdefine =>
    have h₁ := h.start hstart
    obtain ⟨_, rfl⟩ := start_eq_ok_iff.1 hstart
    have h₂ := h₁.defineAll rfl hlabel hdefine
    exact ⟨h₂.fresh, h₂.tiled, h₂.fits, h₂.placed, h₂.defined, h₂.complete⟩
  | item hitem hstart hdefine hplace =>
    have h₁ := h.start hstart
    obtain ⟨_, rfl⟩ := start_eq_ok_iff.1 hstart
    have h₂ := h₁.defineAll rfl hlabel hdefine
    exact h₂.place (started_of_defineAll hdefine) hcontent hitem hplace

end Consistent

/-! ## A whole source -/

/-- Every step keeps a layout consistent. -/
theorem Consistent.keeps {requireOrigin : Bool} : Keeps requireOrigin Consistent :=
  fun _ _ _ _ _ h hparse hl => h.step hparse hl

/-- The layout of a source is consistent with the lines up to `.END`. -/
theorem consistent_of_ofLines {options : Options} {texts : List (List Char)} {l : Layout}
    (h : ofLines options texts = .ok l) : ∃ read, read <+: texts ∧ Consistent read l :=
  ⟨upToEnd texts, isPrefix_upToEnd texts, Consistent.keeps.ofLines (.initial options) h⟩

end Layout

end LittleComputer.Assembly
