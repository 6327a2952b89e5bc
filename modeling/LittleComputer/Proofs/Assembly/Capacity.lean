import LittleComputer.Proofs.Assembly.Emission
import LittleComputer.Proofs.Machine.Loading
import LittleComputer.Proofs.Source.Spelling
import Mathlib

/-!
# Programs that fit into memory

The first pass rejects a line if and only if the words asked for so far, counted without a bound,
run past the end of memory, or if there is no address for its label or item. So whatever assembles
fits and can be loaded. The exception is a string of 2³² − 1 characters or more, whose count starts
over.
-/

namespace LittleComputer.Assembly

open Source

/-! ## Words asked for -/

/-- Number of words that a directive asks for, however large. -/
def directiveWords : Option Directive → List Operand → Nat
  | some .fill, _ => 1
  | some .block, [.number count] => count.toNat
  | some .string, [.string text] => text.length + 1
  | _, _ => 0

/-- `.ORIG` asks for no words. -/
@[simp] theorem directiveWords_orig (operands : List Operand) :
    directiveWords (some .orig) operands = 0 := rfl

/-- `.END` asks for no words. -/
@[simp] theorem directiveWords_finish (operands : List Operand) :
    directiveWords (some .finish) operands = 0 := rfl

/-- Number of words that an instruction or directive asks for. -/
def wordsAsked : Content → Nat
  | .instruction .. => 1
  | .directive name operands => directiveWords (Directive.ofName? name) operands

/-- Number of words that a line asks for, if it can be read. -/
def lineWords (text : List Char) : Nat := (contentOf? text).elim 0 wordsAsked

/-- Number of words that lines ask for. -/
def totalWords (texts : List (List Char)) : Nat := (texts.map lineWords).sum

/-- The words that are asked for are those of the item. -/
theorem ItemOf.wordsAsked_eq {content : Content} {item : Item} (h : ItemOf content item) :
    wordsAsked content = item.wordCount := by
  cases h with
  | instruction => rfl
  | fill hname | block hname | string hname =>
    simp only [wordsAsked, hname]
    rfl

/-- The first pass reserves all words that are asked for, if 32 bits can count them. -/
theorem ItemOf.size_eq_wordsAsked {content : Content} {item : Item} (h : ItemOf content item)
    (hcount : wordsAsked content < 2 ^ 32) : item.size = wordsAsked content := by
  rw [h.wordsAsked_eq] at hcount ⊢
  refine h.size_eq fun text htext => ?_
  rwa [htext] at hcount

/-- Whether the words of a line overrun memory from an address on, or its label or item has none. -/
def Overruns (address : Nat) (line : Line) : Prop :=
  memorySize < address + wordSize * line.content.elim 0 wordsAsked ∨
    address = memorySize ∧
      (line.label.isSome = true ∨ ∃ content ∈ line.content, ∃ item, ItemOf content item)

namespace Layout

variable {l l' : Layout} {requireOrigin : Bool} {number : Nat} {label : Option String}

/-! ## Lines with no other fault -/

/-- Whether a line is right but for the room that it needs. -/
inductive Admits (requireOrigin : Bool) (l : Layout) : Line → Prop
  | blank {comment : Option String} : Admits requireOrigin l ⟨none, none, comment⟩
  | label {name : String} {comment : Option String}
    (hbegun : l.started = true ∨ requireOrigin = false)
    (hfresh : l.symbols.address? name = none) : Admits requireOrigin l ⟨some name, none, comment⟩
  | origin {label comment : Option String} {name : String} {origin : Word}
    (hname : Directive.ofName? name = some .orig) (hstarted : l.started = false)
    (heven : origin.toNat % wordSize = 0)
    (hfresh : ∀ name ∈ label, l.symbols.address? name = none) :
    Admits requireOrigin l ⟨label, some (.directive name [.number origin.toNat]), comment⟩
  | finish {label comment : Option String} {name : String}
    (hname : Directive.ofName? name = some .finish)
    (hbegun : l.started = true ∨ requireOrigin = false)
    (hfresh : ∀ name ∈ label, l.symbols.address? name = none) :
    Admits requireOrigin l ⟨label, some (.directive name []), comment⟩
  | item {label comment : Option String} {content : Content} {item : Item}
    (hitem : ItemOf content item) (hbegun : l.started = true ∨ requireOrigin = false)
    (hfresh : ∀ name ∈ label, l.symbols.address? name = none) :
    Admits requireOrigin l ⟨label, some content, comment⟩

/-- A label that has been defined was new. -/
theorem fresh_of_defineAll (h : l.defineAll label = .ok l') :
    ∀ name ∈ label, l.symbols.address? name = none := by
  rintro name hname
  rcases defineAll_eq_ok_iff.1 h with ⟨rfl, _⟩ | ⟨_, rfl, h⟩
  · cases hname
  · cases hname
    obtain ⟨_, _, hnew, _⟩ := define_eq_ok_iff.1 h
    exact hnew

/-- Every line that can be added is right. -/
theorem admits_of_addLine {line : Line} (h : l.addLine requireOrigin number line = .ok l') :
    l.Admits requireOrigin line := by
  cases step_of_addLine h with
  | blank => exact .blank
  | label hstart hdefine =>
    obtain ⟨hbegun, rfl⟩ := start_eq_ok_iff.1 hstart
    exact .label hbegun (fresh_of_defineAll hdefine _ rfl)
  | origin hname horigin hdefine =>
    obtain ⟨hstarted, _, rfl, heven, rfl⟩ := setOrigin_eq_ok_iff.1 horigin
    have hfresh := fresh_of_defineAll hdefine
    exact .origin hname hstarted heven hfresh
  | finish hname hstart hdefine =>
    obtain ⟨hbegun, rfl⟩ := start_eq_ok_iff.1 hstart
    have hfresh := fresh_of_defineAll hdefine
    exact .finish hname hbegun hfresh
  | item hitem hstart hdefine =>
    obtain ⟨hbegun, rfl⟩ := start_eq_ok_iff.1 hstart
    have hfresh := fresh_of_defineAll hdefine
    exact .item hitem hbegun hfresh

/-- There is no address past the end of memory. -/
theorem address?_eq_none {n : Nat} (h : memorySize ≤ n) : Word.address? n = none :=
  if_neg fun hn => Nat.not_lt.2 h hn.2

/-- A program that has begun, or needs no origin, goes on with any line. -/
theorem start_of_begun (hbegun : l.started = true ∨ requireOrigin = false) :
    l.start requireOrigin = .ok { l with started := true } :=
  start_eq_ok_iff.2 ⟨hbegun, rfl⟩

/-- A new label needs an address. -/
theorem defineAll_of_fresh (hfits : l.address ≤ memorySize)
    (hfresh : ∀ name ∈ label, l.symbols.address? name = none) :
    (label.isSome = true ∧ l.address = memorySize) ∧
        l.defineAll label = .error .addressOverflow ∨
      ¬(label.isSome = true ∧ l.address = memorySize) ∧
        ∃ symbols, l.defineAll label = .ok { l with symbols } := by
  cases label with
  | none => exact Or.inr ⟨by simp, l.symbols, rfl⟩
  | some name =>
    rcases Nat.lt_or_eq_of_le hfits with hlt | heq
    · obtain ⟨a, ha⟩ := exists_word hlt
      refine Or.inr ⟨fun h => Nat.ne_of_lt hlt h.2, ?_⟩
      exact ⟨_, define_eq_ok_iff.2 ⟨a, ha, hfresh name rfl, rfl⟩⟩
    · refine Or.inl ⟨⟨rfl, heq⟩, ?_⟩
      rw [defineAll, define, address?_eq_none (Nat.le_of_eq heq.symm)]

/-- An item needs an address, and room from there on. -/
theorem place_of_fits (hfits : l.address ≤ memorySize) (item : Item) :
    (memorySize < l.address + wordSize * item.size ∨ l.address = memorySize) ∧
        l.place number item = .error .addressOverflow ∨
      ¬(memorySize < l.address + wordSize * item.size ∨ l.address = memorySize) ∧
        ∃ l', l.place number item = .ok l' := by
  by_cases hnext : memorySize < l.address + wordSize * item.size
  · exact Or.inl ⟨Or.inl hnext, if_pos hnext⟩
  · rcases Nat.lt_or_eq_of_le hfits with hlt | heq
    · obtain ⟨a, ha⟩ := exists_word hlt
      refine Or.inr ⟨fun h => h.elim hnext (Nat.ne_of_lt hlt), ?_⟩
      exact ⟨_, place_eq_ok_iff.2 ⟨a, ha, Nat.not_lt.1 hnext, rfl⟩⟩
    · refine Or.inl ⟨Or.inr heq, ?_⟩
      rw [place, if_neg hnext, address?_eq_none (Nat.le_of_eq heq.symm)]

section Admits

variable {line : Line} (h : l.Admits requireOrigin line) (hfits : l.address ≤ memorySize)
  (hbefore : l.started = false → l.address < memorySize)
  (hsize : ∀ content ∈ line.content, ∀ item, ItemOf content item → item.size = wordsAsked content)
include h hfits hbefore hsize

/-- A line with no other fault is added unless it overruns memory. Where its label has no address,
its item would not have one either. -/
theorem addLine_of_admits :
    Overruns l.address line ∧ l.addLine requireOrigin number line = .error .addressOverflow ∨
      ¬Overruns l.address line ∧ ∃ l', l.addLine requireOrigin number line = .ok l' := by
  cases h with
  | blank =>
    refine Or.inr ⟨?_, l, rfl⟩
    simp [Overruns, hfits]
  | @label name comment hbegun hfresh =>
    have hover : Overruns l.address ⟨some name, none, comment⟩ ↔
        (some name).isSome = true ∧ l.address = memorySize := by
      simp [Overruns, hfits]
    have hfresh : ∀ other ∈ some name, l.symbols.address? other = none := by
      rintro _ ⟨⟩
      exact hfresh
    rw [hover, addLine]
    simp only [start_of_begun hbegun, Except.ok_bind]
    rcases defineAll_of_fresh (l := { l with started := true }) hfits hfresh with
      ⟨ho, herror⟩ | ⟨ho, symbols, hdefine⟩
    · exact Or.inl ⟨ho, herror⟩
    · exact Or.inr ⟨ho, _, hdefine⟩
  | @origin label comment name origin hname hstarted heven hfresh =>
    have hlt := hbefore hstarted
    have horigin := setOrigin_eq_ok_iff.2 ⟨hstarted, origin, rfl, heven, rfl⟩
    simp only [Overruns, Option.elim_some, wordsAsked, addLine, addDirective, hname, horigin,
      Except.ok_bind, directiveWords_orig]
    refine Or.inr ⟨by omega, ?_⟩
    let moved : Layout := { l with origin, address := origin.toNat, started := true }
    have horigin : moved.address < memorySize := origin.isLt
    rcases defineAll_of_fresh (l := moved) (Nat.le_of_lt horigin) hfresh with
      ⟨ho, _⟩ | ⟨_, symbols, hdefine⟩
    · exact absurd ho.2 (Nat.ne_of_lt horigin)
    · exact ⟨_, hdefine⟩
  | @finish label comment name hname hbegun hfresh =>
    have hover : Overruns l.address ⟨label, some (.directive name []), comment⟩ ↔
        label.isSome = true ∧ l.address = memorySize := by
      have hnone : ¬∃ item, ItemOf (.directive name []) item := by
        rintro ⟨_, hitem⟩
        cases hitem
      simp [Overruns, wordsAsked, hname, hfits, hnone, and_comm]
    rw [hover]
    simp only [addLine, addDirective, hname, takeNone, Except.ok_bind, start_of_begun hbegun]
    rcases defineAll_of_fresh (l := { l with started := true }) hfits hfresh with
      ⟨ho, herror⟩ | ⟨ho, symbols, hdefine⟩
    · exact Or.inl ⟨ho, by rw [herror]; rfl⟩
    · exact Or.inr ⟨ho, _, by rw [hdefine]; rfl⟩
  | @item label comment content item hitem hbegun hfresh =>
    have hover : Overruns l.address ⟨label, some content, comment⟩ ↔
        memorySize < l.address + wordSize * item.size ∨ l.address = memorySize := by
      have hsome : ∃ c ∈ some content, ∃ item, ItemOf c item := ⟨content, rfl, item, hitem⟩
      simp only [Overruns, Option.elim_some, hsize content rfl item hitem, hsome, or_true,
        and_true]
    rw [hover, addLine_of_itemOf hitem, add, start_of_begun hbegun, Except.ok_bind]
    rcases defineAll_of_fresh (l := { l with started := true }) hfits hfresh with
      ⟨ho, herror⟩ | ⟨_, symbols, hdefine⟩
    · exact Or.inl ⟨Or.inr ho.2, by rw [herror]; rfl⟩
    · rw [hdefine]
      exact place_of_fits (l := { l with started := true, symbols }) hfits item

end Admits

/-! ## Words counted by the first pass -/

/-- Whether the current address has moved by as many words as the lines so far ask for. -/
structure Counted (read : List (List Char)) (l : Layout) : Prop where
  fresh : l.started = false → totalWords read = 0
  address_eq : l.address = l.origin.toNat + wordSize * totalWords read
  fits : l.address ≤ memorySize

namespace Counted

variable {read rest : List (List Char)} {text : List Char} {line : Line}

/-- Before the first line no words have been counted. -/
theorem initial (options : Options) : Counted [] (.initial options) where
  fresh _ := rfl
  address_eq := rfl
  fits := Nat.le_of_lt options.defaultOrigin.isLt

/-- Before the program has begun its address is the origin, which is one of memory. -/
theorem lt_of_not_started (h : Counted read l) (hstarted : l.started = false) :
    l.address < memorySize := by
  rw [h.address_eq, h.fresh hstarted]
  exact l.origin.isLt

/-- Every line moves the address by the words it asks for, if they are counted right. At `.ORIG` the
address starts over, as no line before it asks for a word. -/
theorem step (h : Counted read l) (hparse : Line.parse text = .ok line)
    (hcount : lineWords text < 2 ^ 32) (hl : Step requireOrigin number l line l') :
    Counted (read ++ [text]) l' := by
  have htotal : totalWords (read ++ [text]) = totalWords read + lineWords text := by
    simp [totalWords]
  have hwords : lineWords text = line.content.elim 0 wordsAsked := by
    rw [lineWords, contentOf?_of_parse hparse]
  rw [hwords] at hcount htotal
  cases hl with
  | blank => exact ⟨fun hs => htotal.trans (h.fresh hs), htotal ▸ h.address_eq, h.fits⟩
  | label hstart hdefine =>
    obtain ⟨_, rfl⟩ := start_eq_ok_iff.1 hstart
    obtain ⟨_, rfl⟩ := exists_symbols_of_defineAll hdefine
    exact ⟨fun hs => (by cases hs), htotal ▸ h.address_eq, h.fits⟩
  | origin hname horigin hdefine =>
    obtain ⟨hstarted, origin, rfl, _, rfl⟩ := setOrigin_eq_ok_iff.1 horigin
    obtain ⟨_, rfl⟩ := exists_symbols_of_defineAll hdefine
    have hzero : totalWords (read ++ [text]) = 0 := by
      simpa [wordsAsked, hname, h.fresh hstarted] using htotal
    exact ⟨fun hs => (by cases hs), by rw [hzero]; rfl, Nat.le_of_lt origin.isLt⟩
  | finish hname hstart hdefine =>
    obtain ⟨_, rfl⟩ := start_eq_ok_iff.1 hstart
    obtain ⟨_, rfl⟩ := exists_symbols_of_defineAll hdefine
    have hsame : totalWords (read ++ [text]) = totalWords read := by
      simpa [wordsAsked, hname] using htotal
    exact ⟨fun hs => (by cases hs), hsame ▸ h.address_eq, h.fits⟩
  | item hitem hstart hdefine hplace =>
    have hsize := hitem.size_eq_wordsAsked hcount
    obtain ⟨_, rfl⟩ := start_eq_ok_iff.1 hstart
    obtain ⟨_, rfl⟩ := exists_symbols_of_defineAll hdefine
    obtain ⟨_, _, hfits, rfl⟩ := place_eq_ok_iff.1 hplace
    refine ⟨fun hs => (by cases hs), ?_, hfits⟩
    rw [htotal, Option.elim_some, ← hsize, Nat.mul_add, ← Nat.add_assoc, ← h.address_eq]

/-- What the first pass reserves up to any line is what the lines up to there ask for. -/
theorem addTexts (h : Counted read l)
    (hl : addTexts requireOrigin (read.length + 1) rest l = .ok l') (hended : l'.ended = false)
    (hcount : ∀ t ∈ rest, lineWords t < 2 ^ 32) : Counted (read ++ rest) l' := by
  induction rest generalizing read l with
  | nil =>
    cases hl
    rwa [List.append_nil]
  | cons text rest ih =>
    obtain ⟨hfirst, hrest⟩ := List.forall_mem_cons.1 hcount
    rw [Layout.addTexts] at hl
    split at hl
    · rename_i hdone
      cases hl
      rw [hended] at hdone
      cases hdone
    · split at hl
      · cases hl
      · rename_i l₁ htext
        obtain ⟨line, hparse, hline⟩ := addText_eq_ok_iff.1 htext
        have h₁ := h.step hparse hfirst (step_of_addLine hline)
        have := ih h₁ (by simpa using hl) hrest
        rwa [List.append_assoc] at this

end Counted

end Layout

/-! ## The line that overruns memory -/

section Reached

variable {options : Options} {source : String} {read rest : List (List Char)} {text : List Char}
  {l : Layout} {line : Line}
  (hread : Layout.addTexts options.requireOrigin 1 read (.initial options) = .ok l)
  (hended : l.ended = false) (hparse : Line.parse text = .ok line)
  (hadmits : l.Admits options.requireOrigin line)
  (hcount : ∀ t ∈ read ++ [text], lineWords t < 2 ^ 32)
include hread hended hparse hadmits hcount

/-- A line that is reached without another fault is rejected if and only if it overruns memory,
counted from the origin. -/
theorem addLine_of_reached (number : Nat) :
    Overruns (l.origin.toNat + wordSize * totalWords read) line ∧
        l.addLine options.requireOrigin number line = .error .addressOverflow ∨
      ¬Overruns (l.origin.toNat + wordSize * totalWords read) line ∧
        ∃ l', l.addLine options.requireOrigin number line = .ok l' := by
  obtain ⟨hbefore, htext⟩ := List.forall_mem_append.1 hcount
  have hcounted := (Layout.Counted.initial options).addTexts hread hended hbefore
  rw [List.nil_append] at hcounted
  have hsize : ∀ content ∈ line.content, ∀ item, ItemOf content item →
      item.size = wordsAsked content := by
    intro content hcontent item hitem
    have hlt := htext text (List.mem_singleton_self text)
    rw [lineWords, contentOf?_of_parse hparse] at hlt
    simp only [Option.mem_def.1 hcontent, Option.elim_some] at hlt
    exact hitem.size_eq_wordsAsked hlt
  rw [← hcounted.address_eq]
  exact Layout.addLine_of_admits hadmits hcounted.fits hcounted.lt_of_not_started hsize

/-- The first line to overrun memory is the one that is reported. -/
theorem assemble_of_overruns (hlines : Text.lines source.toList = read ++ text :: rest)
    (ho : Overruns (l.origin.toNat + wordSize * totalWords read) line) :
    assemble options source = .error ⟨read.length + 1, .addressOverflow⟩ := by
  obtain ⟨_, herror⟩ | ⟨hno, _⟩ := addLine_of_reached hread hended hparse hadmits hcount
      (1 + read.length)
  · have htext : l.addText options.requireOrigin (1 + read.length) text =
        .error ⟨1 + read.length, .addressOverflow⟩ := by
      rw [Layout.addText, hparse]
      simp only [herror]
    have htexts : Layout.addTexts options.requireOrigin (1 + read.length) (text :: rest) l =
        .error ⟨1 + read.length, .addressOverflow⟩ := by
      rw [Layout.addTexts, if_neg (by rw [hended]; exact Bool.false_ne_true), htext]
    rw [assemble, Layout.ofLines, hlines, Layout.addTexts_append, hread, Except.bind, htexts,
      Nat.add_comm]
    rfl
  · exact absurd ho hno

/-- A line that does not overrun memory is added. -/
theorem exists_addText_of_not_overruns (number : Nat)
    (hno : ¬Overruns (l.origin.toNat + wordSize * totalWords read) line) :
    ∃ l', l.addText options.requireOrigin number text = .ok l' := by
  obtain ⟨ho, _⟩ | ⟨_, l', hl⟩ := addLine_of_reached hread hended hparse hadmits hcount number
  · exact absurd ho hno
  · exact ⟨l', Layout.addText_eq_ok_iff.2 ⟨line, hparse, hl⟩⟩

end Reached

/-! ## Programs that fit -/

section Assembled

variable {options : Options} {source : String} {p : Program}

/-- An assembled program fits into memory unless it has 2³² words or more. -/
theorem endAddress_le_iff (h : assemble options source = .ok p) :
    p.endAddress ≤ memorySize ↔ p.words.length < 2 ^ 32 := by
  obtain ⟨l, chunks, hl, hemits, rfl⟩ := assemble_eq_ok_iff.1 h
  obtain ⟨read, _, hconsistent⟩ := Layout.consistent_of_ofLines hl
  constructor
  · intro hfits
    unfold Program.endAddress memorySize wordSize at hfits
    omega
  · intro hlt
    exact hemits.fits hconsistent (hemits.size_eq_of_lt hconsistent.placed hlt)

/-- A program of lines that are counted right fits into memory. -/
theorem endAddress_le_of_count (h : assemble options source = .ok p)
    (hcount : ∀ t ∈ Text.lines source.toList, lineWords t < 2 ^ 32) :
    p.endAddress ≤ memorySize := by
  obtain ⟨l, chunks, hl, hemits, rfl⟩ := assemble_eq_ok_iff.1 h
  obtain ⟨read, hread, hconsistent⟩ := Layout.consistent_of_ofLines hl
  refine hemits.fits hconsistent fun p hp => ?_
  obtain ⟨_, text, content, _, htext, hcontent, hitem⟩ := hconsistent.placed p hp
  have hlt := hcount text (hread.subset (List.mem_of_getElem? htext))
  rw [lineWords, hcontent] at hlt
  rw [hitem.size_eq_wordsAsked hlt, hitem.wordsAsked_eq]

/-- An assembled program can be loaded unless it has 2³² words or more. -/
theorem exists_ofProgram_iff (h : assemble options source = .ok p) :
    (∃ m, Machine.ofProgram p = .ok m) ↔ p.words.length < 2 ^ 32 := by
  simp only [Machine.ofProgram_eq_ok_iff, exists_and_left, exists_eq, and_true,
    endAddress_le_iff h]

/-- No source of less than 2³² − 1 bytes has as many words. -/
theorem length_words_lt (hsource : Text.utf8Size source.toList < 2 ^ 32 - 1)
    (h : assemble options source = .ok p) : p.words.length < 2 ^ 32 := by
  refine (endAddress_le_iff h).1 ?_
  obtain ⟨l, chunks, hl, hemits, rfl⟩ := assemble_eq_ok_iff.1 h
  obtain ⟨read, hread, hconsistent⟩ := Layout.consistent_of_ofLines hl
  exact hemits.fits hconsistent (size_eq_of_consistent hsource hread hconsistent)

end Assembled

/-- Every word has the address of the origin and as many words. -/
theorem getElem?_entries (p : Program) (i : Nat) :
    p.entries[i]? = p.words[i]?.map fun w => (p.origin + BitVec.ofNat 16 (wordSize * i), w) := by
  rw [Program.entries, List.getElem?_map, List.getElem?_zipIdx, Option.map_map, Nat.zero_add]
  rfl

/-- Addresses of a program that fits do not wrap. -/
theorem toNat_of_entries {p : Program} (hfits : p.endAddress ≤ memorySize) {i : Nat}
    {entry : Word × Word} (hentry : p.entries[i]? = some entry) :
    entry.1.toNat = p.origin.toNat + wordSize * i := by
  rw [getElem?_entries, Option.map_eq_some_iff] at hentry
  obtain ⟨w, hw, rfl⟩ := hentry
  obtain ⟨hi, _⟩ := List.getElem?_eq_some_iff.1 hw
  unfold Program.endAddress memorySize wordSize at hfits
  simp only [BitVec.toNat_add, BitVec.toNat_ofNat, wordSize]
  omega

/-- Every line that is accepted has no other fault. A line that is reached, and has no other fault,
is rejected for want of room if and only if the words counted so far run past the end of memory, or
its label or item would be there, as long as no string is too long to be counted. An assembled
program fits into memory, its addresses do not wrap, and it can be loaded, unless it has 2³² words
or more. -/
theorem capacity_exact (options : Options) (source : String) :
    (∀ (number : Nat) (l l' : Layout) (line : Line),
      l.addLine options.requireOrigin number line = .ok l' → l.Admits options.requireOrigin line) ∧
    (∀ (read rest : List (List Char)) (text : List Char) (l : Layout) (line : Line),
      Text.lines source.toList = read ++ text :: rest →
      Layout.addTexts options.requireOrigin 1 read (.initial options) = .ok l →
      l.ended = false → Line.parse text = .ok line → l.Admits options.requireOrigin line →
      (∀ t ∈ read ++ [text], lineWords t < 2 ^ 32) →
        (Overruns (l.origin.toNat + wordSize * totalWords read) line →
          assemble options source = .error ⟨read.length + 1, .addressOverflow⟩) ∧
        (¬Overruns (l.origin.toNat + wordSize * totalWords read) line →
          ∃ l', l.addText options.requireOrigin (read.length + 1) text = .ok l')) ∧
      ∀ p, assemble options source = .ok p →
        ((∀ t ∈ Text.lines source.toList, lineWords t < 2 ^ 32) → p.endAddress ≤ memorySize) ∧
        (p.endAddress ≤ memorySize ↔ p.words.length < 2 ^ 32) ∧
        (p.endAddress ≤ memorySize →
          (∀ i entry, p.entries[i]? = some entry →
            entry.1.toNat = p.origin.toNat + wordSize * i) ∧
          ∃ m, Machine.ofProgram p = .ok m) := by
  refine ⟨fun _ _ _ _ => Layout.admits_of_addLine, ?_, ?_⟩
  · intro read rest text l line hlines hread hended hparse hadmits hcount
    constructor
    · intro ho
      exact assemble_of_overruns hread hended hparse hadmits hcount hlines ho
    · intro hno
      exact exists_addText_of_not_overruns hread hended hparse hadmits hcount _ hno
  · intro p h
    refine ⟨endAddress_le_of_count h, endAddress_le_iff h, fun hfits => ⟨?_, ?_⟩⟩
    · intro i entry hentry
      exact toNat_of_entries hfits hentry
    · exact ⟨_, Machine.ofProgram_eq_ok_iff.2 ⟨hfits, rfl⟩⟩

/-- At the top of memory there is room for one more word, but not for a label after it. -/
theorem capacity_exact_top :
    assemble { defaultOrigin := 0xFFFE } "HALT\ntop" = .error ⟨2, .addressOverflow⟩ ∧
      ∃ m, Machine.ofProgram ⟨0xFFFE, [0xF025], []⟩ = .ok m := by
  constructor
  · obtain ⟨_, hlines, _⟩ := capacity_exact { defaultOrigin := 0xFFFE } "HALT\ntop"
    refine (hlines ["HALT".toList] [] "top".toList
      ⟨0xFFFE, memorySize, true, false, [], [⟨1, 0xFFFE, .instruction "HALT" []⟩]⟩
      ⟨some "top", none, none⟩ (by decide +kernel) (by decide +kernel) rfl (by decide +kernel)
      (.label (Or.inl rfl) rfl) (by decide +kernel)).1 ?_
    exact Or.inr ⟨by decide +kernel, Or.inl rfl⟩
  · obtain ⟨_, _, hprograms⟩ := capacity_exact { defaultOrigin := 0xFFFE } "HALT"
    have hassemble : assemble { defaultOrigin := 0xFFFE } "HALT" = .ok ⟨0xFFFE, [0xF025], []⟩ := by
      decide +kernel
    obtain ⟨hcount, _, hload⟩ := hprograms _ hassemble
    exact (hload (hcount (by decide +kernel))).2

/-! ## Strings that are too long to be counted -/

/-- A string of as many characters. -/
def repeated (n : Nat) : String := String.ofList (List.replicate n 'a')

/-- A line that stores a string of as many characters. -/
def storingLine (n : Nat) : List Char :=
  '.' :: (Directive.string.name.toList ++ operandText ['"' :: ((repeated n).toList ++ ['"'])])

/-- A source with that line. -/
def storingSource (n : Nat) : String := String.ofList (storingLine n ++ ['\n'])

section Storing

variable {n : Nat}

/-- The characters of such a string are all the same. -/
theorem toList_repeated : (repeated n).toList = List.replicate n 'a' := String.toList_ofList

/-- A letter is quoted as itself, however often it is repeated. -/
theorem quotes_replicate (n : Nat) : Quotes (List.replicate n 'a') (List.replicate n 'a') := by
  induction n with
  | zero => exact .nil
  | succ n ih => exact .plain (by decide) (by decide) ih

/-- Such a string is spelled by its characters between quotes. -/
theorem spells_repeated :
    Spells ('"' :: ((repeated n).toList ++ ['"'])) (.string (repeated n)) := by
  have hquotes : Quotes (repeated n).toList (repeated n).toList := by
    rw [toList_repeated]
    exact quotes_replicate n
  refine (Operand.Written.string hquotes).spells fun c hc => ?_
  rw [toList_repeated, List.mem_cons, List.mem_append, List.mem_singleton] at hc
  rcases hc with rfl | hc | rfl
  · rfl
  · rw [List.eq_of_mem_replicate hc]
    rfl
  · rfl

/-- The line is read as the directive with its string. -/
theorem parse_storingLine :
    Line.parse (storingLine n) =
      .ok ⟨none, some (.directive Directive.string.name [.string (repeated n)]), none⟩ :=
  Line.parse_directive (isWord_directive .string) (.cons spells_repeated .nil)

/-- The source has the one line. -/
theorem lines_storingSource : Text.lines (storingSource n).toList = [storingLine n] := by
  have hline : ∀ c ∈ storingLine n, Text.isLineEnd c = false :=
    onLine_dot_append_operandText (isWord_directive .string) (.cons spells_repeated .nil)
  rw [storingSource, String.toList_ofList, Text.lines_append_newline [] hline]
  rfl

/-- Such a string can be stored. -/
theorem isAscii_repeated : isAscii (repeated n) = true := by
  rw [isAscii, toList_repeated, List.all_eq_true]
  intro c hc
  rw [List.eq_of_mem_replicate hc]
  rfl

/-- The count of 32 bits starts over. -/
theorem size_repeated (h : n % 2 ^ 32 = 0) : (Item.string (repeated n)).size = 1 := by
  have hsize : Text.utf8Size (repeated n).toList = n := by
    rw [Text.utf8Size_of_ascii fun c hc =>
      of_decide_eq_true (List.all_eq_true.1 isAscii_repeated c hc), toList_repeated,
      List.length_replicate]
  rw [Item.size, hsize, UInt32.toNat_add, UInt32.toNat_ofNat', h]
  rfl

/-- A string that is not counted is placed as one word wherever there is room for a word. -/
theorem addText_storingLine (h : n % 2 ^ 32 = 0) {l : Layout} {a : Word} (number : Nat)
    (ha : l.address = a.toNat) (hfits : a.toNat + wordSize ≤ memorySize) :
    l.addText false number (storingLine n) = .ok { l with
      started := true
      address := a.toNat + wordSize
      placements := l.placements ++ [⟨number, a, .string (repeated n)⟩] } := by
  have hitem : ItemOf (.directive Directive.string.name [.string (repeated n)])
      (.string (repeated n)) := .string (Directive.ofName?_name .string) isAscii_repeated
  have hsize : l.address + wordSize * (Item.string (repeated n)).size = a.toNat + wordSize := by
    rw [size_repeated h, ha, Nat.mul_one]
  rw [Layout.addText_of_item parse_storingLine hitem (Or.inr rfl) nofun ha (hsize ▸ hfits), hsize,
    Option.toList_none, List.map_nil, List.append_nil]

/-- The words of a string are its characters and a zero. -/
theorem words_repeated (s : Scope) :
    s.words (.string (repeated n)) = .ok (List.replicate n 0x61 ++ [0]) := by
  rw [Scope.words, toList_repeated, List.map_replicate]
  rfl

/-- A string that is not counted is assembled in full, with no error. -/
theorem assemble_storingSource (h : n % 2 ^ 32 = 0) :
    assemble {} (storingSource n) = .ok ⟨0x3000, List.replicate n 0x61 ++ [0], []⟩ := by
  have hlines : Layout.ofLines {} (Text.lines (storingSource n).toList) =
      .ok ⟨0x3000, 0x3002, true, false, [], [⟨1, 0x3000, .string (repeated n)⟩]⟩ := by
    rw [lines_storingSource, Layout.ofLines, Layout.addTexts,
      addText_storingLine (a := 0x3000) h 1 rfl (by decide)]
    rfl
  refine assemble_eq_ok_iff.2 ⟨_, [_], hlines, .cons (words_repeated _) .nil, ?_⟩
  rw [List.flatten_singleton]

/-- The characters are words of the program, counted or not. -/
theorem le_length_repeated (h : n % 2 ^ 32 = 0) (hn : n ≠ 0) :
    2 ^ 32 ≤ (List.replicate n (0x61 : Word) ++ [0]).length := by
  rw [List.length_append, List.length_replicate]
  omega

/-- Words that overrun memory, all from one line that is not rejected. -/
theorem overruns_storingSource (h : n % 2 ^ 32 = 0) (hn : n ≠ 0) :
    ∃ p, assemble {} (storingSource n) = .ok p ∧ memorySize < p.endAddress ∧
      ∀ m, Machine.ofProgram p ≠ .ok m := by
  have hassemble := assemble_storingSource h
  have hlength := Nat.not_lt.2 (le_length_repeated h hn)
  refine ⟨_, hassemble, Nat.not_le.1 (mt (endAddress_le_iff hassemble).1 hlength), fun m hm => ?_⟩
  exact hlength ((exists_ofProgram_iff hassemble).1 ⟨m, hm⟩)

/-- A string of 2³² characters is laid out as one word. -/
theorem not_fits_of_uncounted :
    ∃ p, assemble {} (storingSource 4294967296) = .ok p ∧ memorySize < p.endAddress ∧
      ∀ m, Machine.ofProgram p ≠ .ok m :=
  overruns_storingSource (by norm_num) (by norm_num)

end Storing

end LittleComputer.Assembly
