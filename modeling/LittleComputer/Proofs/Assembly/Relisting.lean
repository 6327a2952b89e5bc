import LittleComputer.Proofs.Assembly.Stores
import Mathlib

/-!
# Listings are sources

The last column of a listing has a line for every word of a program. Each of these lines stores the
word that it stands for, so with the origin before it the column assembles to the program again.
-/

namespace LittleComputer.Assembly

open Source

namespace Layout

variable {l : Layout} (requireOrigin : Bool) (number : Nat)

/-- A line that stores a word places one item. -/
theorem addText_of_stores {text : List Char} {w : Word} (h : Stores text w)
    (hstarted : l.started = true) {a : Word} (ha : l.address = a.toNat)
    (hfits : l.address + wordSize ≤ memorySize) :
    ∃ item, (∀ s : Scope, s.words item = .ok [w]) ∧
      l.addText requireOrigin number text =
        .ok { l with
          address := l.address + wordSize
          placements := l.placements ++ [⟨number, a, item⟩] } := by
  obtain ⟨_, content, item, hparse, hitem, hsize, hwords⟩ := h
  rw [← Nat.mul_one wordSize, ← hsize] at hfits
  refine ⟨item, hwords, ?_⟩
  rw [addText_of_item hparse hitem (Or.inl hstarted) nofun ha hfits, hsize, Nat.mul_one, ← hstarted]
  simp

/-- Lines that store a word each are laid out one word after the other. -/
theorem addTexts_of_stores {texts : List (List Char)} {ws : List Word}
    (h : List.Forall₂ Stores texts ws) (hstarted : l.started = true) (hended : l.ended = false)
    (hfits : l.address + wordSize * ws.length ≤ memorySize) :
    ∃ ps, (∀ symbols, Emits symbols ps (ws.map fun w => [w])) ∧
      addTexts requireOrigin number texts l =
        .ok { l with
          address := l.address + wordSize * ws.length
          placements := l.placements ++ ps } := by
  induction h generalizing l number with
  | nil => exact ⟨[], fun _ => .nil, by simp [addTexts]⟩
  | @cons text w texts ws htext h ih =>
    rw [List.length_cons, Nat.mul_succ] at hfits
    obtain ⟨a, ha⟩ : ∃ a : Word, l.address = a.toNat := by
      refine exists_word ?_
      unfold wordSize at hfits
      omega
    obtain ⟨item, hwords, hadd⟩ :=
      addText_of_stores requireOrigin number htext hstarted ha (by omega)
    let l₁ : Layout :=
      { l with
        address := l.address + wordSize
        placements := l.placements ++ [⟨number, a, item⟩] }
    have hfits₁ : l₁.address + wordSize * ws.length ≤ memorySize := by
      show l.address + wordSize + wordSize * ws.length ≤ memorySize
      omega
    obtain ⟨ps, hemits, hrest⟩ := ih (number + 1) (l := l₁) hstarted hended hfits₁
    refine ⟨⟨number, a, item⟩ :: ps, fun symbols => .cons (hwords _) (hemits symbols), ?_⟩
    have haddress : l.address + wordSize + wordSize * ws.length =
        l.address + wordSize * (w :: ws).length := by
      rw [List.length_cons, Nat.mul_succ, Nat.add_assoc, Nat.add_comm wordSize]
    rw [addTexts, if_neg (by rw [hended]; exact Bool.false_ne_true), hadd]
    refine hrest.trans ?_
    unfold l₁
    rw [haddress, List.append_assoc, List.singleton_append]

/-- A line of `.ORIG` and an even address begins the program there. -/
theorem addText_of_orig {text : List Char} {origin : Word}
    (htext : Line.parse text =
      .ok ⟨none, some (.directive Directive.orig.name [.number origin.toNat]), none⟩)
    (hstarted : l.started = false) (heven : origin.toNat % wordSize = 0) :
    l.addText requireOrigin number text =
      .ok { l with origin, address := origin.toNat, started := true } := by
  refine addText_eq_ok_iff.2 ⟨_, htext, ?_⟩
  have horigin := setOrigin_eq_ok_iff.2 ⟨hstarted, origin, rfl, heven, rfl⟩
  simp only [addLine, addDirective, Directive.ofName?_name, horigin, Except.ok_bind, defineAll]

end Layout

/-! ## Sources -/

/-- Lines as a source, each of them ended. -/
def sourceOf (texts : List (List Char)) : String :=
  String.ofList (texts.flatMap fun text => text ++ ['\n'])

/-- The lines of a source of ended lines are those lines. -/
theorem lines_sourceOf {texts : List (List Char)}
    (h : ∀ text ∈ texts, ∀ c ∈ text, Text.isLineEnd c = false) :
    Text.lines (sourceOf texts).toList = texts := by
  rw [sourceOf, String.toList_ofList]
  induction texts with
  | nil => rfl
  | cons text texts ih =>
    obtain ⟨htext, hrest⟩ := List.forall_mem_cons.1 h
    rw [List.flatMap_cons, List.append_assoc, List.singleton_append,
      Text.lines_append_newline _ htext, ih hrest]

/-! ## The last column -/

/-- The last column of a listing, below a line with the origin in hexadecimal digits. -/
def listingSource (digits : String) (ws : List Word) : String :=
  ".ORIG x" ++ digits ++ "\n" ++ String.join (ws.map fun w => wordSource w ++ "\n")

/-- The column is a source of its lines. -/
theorem column_eq_sourceOf (ws : List Word) :
    String.join (ws.map fun w => wordSource w ++ "\n") =
      sourceOf (ws.map fun w => (wordSource w).toList) := by
  rw [sourceOf, ← String.toList_inj, String.toList_ofList, String.toList_join, List.flatMap_map,
    List.flatMap_map]
  simp

/-- The column has a line for each word. -/
theorem lines_column (ws : List Word) :
    Text.lines (String.join (ws.map fun w => wordSource w ++ "\n")).toList =
      ws.map fun w => (wordSource w).toList := by
  rw [column_eq_sourceOf]
  refine lines_sourceOf fun text htext => ?_
  obtain ⟨w, _, rfl⟩ := List.mem_map.1 htext
  exact (stores_wordSource w).1

/-- Each line of the column stores its word. -/
theorem stores_column (ws : List Word) :
    List.Forall₂ Stores (ws.map fun w => (wordSource w).toList) ws := by
  induction ws with
  | nil => exact .nil
  | cons w ws ih => exact .cons (stores_wordSource w) ih

/-- The line with the origin. -/
def originLine (digits : String) : List Char :=
  '.' :: (Directive.orig.name.toList ++ operandText ['x' :: digits.toList])

section Origin

variable {digits : String} (hne : digits ≠ "")
  (hdigits : ∀ c ∈ digits.toList, Text.Hex.isDigit c = true) {origin : Word}
  (hvalue : Text.Hex.ofDigits digits.toList = origin.toNat)
include hne hdigits hvalue

/-- The digits after the `x` spell the origin. -/
theorem spells_origin : Spells ('x' :: digits.toList) (.number origin.toNat) := by
  have hmax : (Text.Hex.ofDigits digits.toList : Int) ≤ maxNumber := by
    have := origin.isLt
    rw [hvalue]
    unfold maxNumber
    omega
  exact hvalue ▸ spells_hexadecimal (by simpa using hne) hdigits hmax

/-- The first line is read as the directive with the origin. -/
theorem parse_originLine :
    Line.parse (originLine digits) =
      .ok ⟨none, some (.directive Directive.orig.name [.number origin.toNat]), none⟩ :=
  Line.parse_directive (isWord_directive .orig) (.cons (spells_origin hne hdigits hvalue) .nil)

/-- Below the origin are the lines of the words. -/
theorem lines_listingSource (ws : List Word) :
    Text.lines (listingSource digits ws).toList =
      originLine digits :: ws.map fun w => (wordSource w).toList := by
  have htext : (listingSource digits ws).toList = originLine digits ++
      '\n' :: (String.join (ws.map fun w => wordSource w ++ "\n")).toList := by
    simp [listingSource, originLine, operandText, operandTail, Directive.name]
  have honLine : ∀ c ∈ originLine digits, Text.isLineEnd c = false :=
    onLine_dot_append_operandText (isWord_directive .orig)
      (.cons (spells_origin hne hdigits hvalue) .nil)
  rw [htext, Text.lines_append_newline _ honLine, lines_column]

end Origin

/-- The column of any words is a source of a program with exactly these words. -/
theorem assemble_listingSource (options : Options) {digits : String} {origin : Word}
    {ws : List Word} (hne : digits ≠ "")
    (hdigits : ∀ c ∈ digits.toList, Text.Hex.isDigit c = true)
    (hvalue : Text.Hex.ofDigits digits.toList = origin.toNat) (heven : origin.toNat % 2 = 0)
    (hfits : origin.toNat + 2 * ws.length ≤ 0x10000) :
    assemble options (listingSource digits ws) = .ok ⟨origin, ws, []⟩ := by
  let l₁ : Layout :=
    { Layout.initial options with origin, address := origin.toNat, started := true }
  have hfirst : (Layout.initial options).addText options.requireOrigin 1 (originLine digits) =
      .ok l₁ := Layout.addText_of_orig _ _ (parse_originLine hne hdigits hvalue) rfl heven
  obtain ⟨ps, hemits, hrest⟩ := Layout.addTexts_of_stores options.requireOrigin 2
    (stores_column ws) (l := l₁) rfl rfl hfits
  let l₂ : Layout :=
    { l₁ with
      address := l₁.address + wordSize * ws.length
      placements := l₁.placements ++ ps }
  have hl : Layout.ofLines options (Text.lines (listingSource digits ws).toList) = .ok l₂ := by
    rw [lines_listingSource hne hdigits hvalue, Layout.ofLines, Layout.addTexts,
      if_neg (show ¬(Layout.initial options).ended = true from Bool.false_ne_true), hfirst]
    show (Layout.addTexts options.requireOrigin 2 _ l₁ >>= _) = _
    rw [hrest]
    rfl
  have hwords : ws = (ws.map fun w => [w]).flatten := by
    rw [← List.flatMap_def, List.flatMap_singleton']
  refine assemble_eq_ok_iff.2 ⟨l₂, _, hl, hemits [], ?_⟩
  rw [← hwords]
  rfl

/-- Instructions and data, with the digits of the origin in both cases. -/
theorem assemble_listingSource_mixed :
    listingSource "fFf4" [0x1042, 0x0010, 0x9FFF, 0xF025, 0xFFFF, 0xC1C0] =
        ".ORIG xfFf4\nADD R0, R1, R2\n.FILL x0010\nNOT R7, R7\nHALT\n.FILL xFFFF\nRET\n" ∧
      assemble { requireOrigin := true }
          (listingSource "fFf4" [0x1042, 0x0010, 0x9FFF, 0xF025, 0xFFFF, 0xC1C0]) =
        .ok ⟨0xFFF4, [0x1042, 0x0010, 0x9FFF, 0xF025, 0xFFFF, 0xC1C0], []⟩ :=
  ⟨by decide +kernel, assemble_listingSource _ (by decide) (List.all_eq_true.1 (by decide))
    (by decide) (by decide) (by decide)⟩

end LittleComputer.Assembly
