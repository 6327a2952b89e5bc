import LittleComputer.Assembly.Program
import LittleComputer.Proofs.Assembly.Consistency
import LittleComputer.Proofs.Source.Extent
import Mathlib

/-!
# The words of a layout

The second pass gives every item its words, in the order of the items. Their number is that of
`Item.wordCount`, which is what the first pass has reserved for every item that a source of less
than 2³² − 1 bytes can spell.
-/

namespace LittleComputer.Assembly

open Source

/-! ## The words of an item -/

/-- Number of words of an item, however large. -/
def Item.wordCount : Item → Nat
  | .instruction .. | .fill _ => 1
  | .block count => count
  | .string text => text.length + 1

/-- The words of an item are as many as the item counts. -/
theorem Scope.length_words {s : Scope} {item : Item} {ws : List Word}
    (h : s.words item = .ok ws) : ws.length = item.wordCount := by
  cases item with
  | instruction name operands =>
    obtain ⟨w, _, rfl⟩ := Except.map_eq_ok_iff.1 h
    rfl
  | fill value =>
    obtain ⟨w, _, rfl⟩ := Except.map_eq_ok_iff.1 h
    rfl
  | block count =>
    cases h
    exact List.length_replicate
  | string text =>
    cases h
    simp [Item.wordCount, String.length_toList]

/-- The count of 32 bits is right for a string that does not exceed it. -/
theorem Item.size_string {text : String} (hascii : isAscii text = true)
    (hlength : text.length + 1 < 2 ^ 32) : (Item.string text).size = text.length + 1 := by
  have hsize : Text.utf8Size text.toList = text.length := by
    rw [← String.length_toList]
    refine Text.utf8Size_of_ascii fun c hc => ?_
    exact of_decide_eq_true (List.all_eq_true.1 hascii c hc)
  rw [Item.size, hsize, UInt32.toNat_add, UInt32.toNat_ofNat']
  have hone : UInt32.toNat 1 = 1 := rfl
  rw [hone]
  omega

/-- An item has room for all of its words, unless it is a string that overruns the count. -/
theorem ItemOf.size_eq {content : Content} {item : Item} (h : ItemOf content item)
    (hstring : ∀ text, item = .string text → text.length + 1 < 2 ^ 32) :
    item.size = item.wordCount := by
  cases h with
  | instruction => rfl
  | fill => rfl
  | block => rfl
  | string _ hascii => exact Item.size_string hascii (hstring _ rfl)

/-- No line of less than 2³² − 1 characters holds a string that overruns the count. -/
theorem ComesFrom.size_eq {read : List (List Char)} {p : Placement} (h : ComesFrom read p)
    (hread : ∀ text ∈ read, text.length < 2 ^ 32 - 1) : p.item.size = p.item.wordCount := by
  obtain ⟨i, text, content, _, htext, hcontent, hitem⟩ := h
  have hlength := hread text (List.mem_of_getElem? htext)
  refine hitem.size_eq fun string hstring => ?_
  have hmem : Operand.string string ∈ content.operands := by
    rw [hstring] at hitem
    cases hitem
    exact List.mem_cons_self
  obtain ⟨line, hparse, hline⟩ := exists_parse_of_contentOf? hcontent
  have := Line.length_le_of_parse hparse hline hmem
  omega

/-- Lines of a source of less than 2³² − 1 bytes ask for nothing that is not counted right. -/
theorem size_eq_of_consistent {source : String} {read : List (List Char)} {l : Layout}
    (hsource : Text.utf8Size source.toList < 2 ^ 32 - 1)
    (hread : read <+: Text.lines source.toList) (h : Layout.Consistent read l) :
    ∀ p ∈ l.placements, p.item.size = p.item.wordCount := by
  refine fun p hp => (h.placed p hp).size_eq fun text htext => ?_
  have := Text.length_le_of_mem_lines (hread.subset htext)
  have := Text.length_le_utf8Size source.toList
  omega

/-! ## The words of all items -/

/-- The words of the first item come before those of the others, and so do its errors. -/
theorem emit_cons {symbols : Symbols} {p : Placement} {ps : List Placement} :
    emit symbols (p :: ps) =
      ((Scope.mk symbols p.address).words p.item).mapError (fun cause => ⟨p.line, cause⟩) >>=
        fun ws => (emit symbols ps).map (ws ++ ·) := by
  rw [emit]
  cases (Scope.mk symbols p.address).words p.item <;> rfl

/-- Whether lists of words are those of the items, one list for each item. -/
def Emits (symbols : Symbols) : List Placement → List (List Word) → Prop :=
  List.Forall₂ fun p chunk => (Scope.mk symbols p.address).words p.item = .ok chunk

/-- All items have words if each has, and those are put together. -/
theorem emit_eq_ok_iff {symbols : Symbols} {ps : List Placement} {ws : List Word} :
    emit symbols ps = .ok ws ↔ ∃ chunks, Emits symbols ps chunks ∧ ws = chunks.flatten := by
  induction ps generalizing ws with
  | nil => simp [emit, Emits, eq_comm]
  | cons p ps ih =>
    unfold emit Emits
    cases hwords : (Scope.mk symbols p.address).words p.item with
    | error cause => simp [List.forall₂_cons_left_iff, hwords]
    | ok chunk =>
      simp only [Except.map_eq_ok_iff, ih]
      constructor
      · rintro ⟨_, ⟨chunks, h, rfl⟩, rfl⟩
        exact ⟨chunk :: chunks, .cons hwords h, rfl⟩
      · rintro ⟨_, h, rfl⟩
        obtain ⟨chunk', chunks, hfirst, hrest, rfl⟩ := List.forall₂_cons_left_iff.1 h
        rw [hwords] at hfirst
        cases hfirst
        exact ⟨_, ⟨chunks, hrest, rfl⟩, rfl⟩

/-- A source is assembled if its lines can be laid out and all items have words. -/
theorem assemble_eq_ok_iff {options : Options} {source : String} {p : Program} :
    assemble options source = .ok p ↔
      ∃ l chunks, Layout.ofLines options (Text.lines source.toList) = .ok l ∧
        Emits l.symbols l.placements chunks ∧ p = ⟨l.origin, chunks.flatten, l.symbols⟩ := by
  simp only [assemble, Layout.program, Except.bind_eq_ok_iff, Except.map_eq_ok_iff,
    emit_eq_ok_iff]
  constructor
  · rintro ⟨l, hl, _, ⟨chunks, h, rfl⟩, rfl⟩
    exact ⟨l, chunks, hl, h, rfl⟩
  · rintro ⟨l, chunks, hl, h, rfl⟩
    exact ⟨l, hl, _, ⟨chunks, h, rfl⟩, rfl⟩

namespace Emits

variable {symbols : Symbols} {ps : List Placement} {chunks : List (List Word)}

/-- Where every item has as much room as it has words, the lists are as long as the items. -/
theorem map_length (h : Emits symbols ps chunks)
    (hsize : ∀ p ∈ ps, p.item.size = p.item.wordCount) :
    chunks.map List.length = ps.map (·.item.size) := by
  induction h with
  | nil => rfl
  | @cons p chunk ps chunks hwords h ih =>
    rw [List.map_cons, List.map_cons, Scope.length_words hwords,
      hsize p List.mem_cons_self, ih fun q hq => hsize q (List.mem_cons_of_mem p hq)]

/-- An item has its words in the list at the same place. -/
theorem getElem? (h : Emits symbols ps chunks) {i : Nat} {p : Placement}
    (hp : ps[i]? = some p) :
    ∃ chunk, chunks[i]? = some chunk ∧ (Scope.mk symbols p.address).words p.item = .ok chunk := by
  induction h generalizing i with
  | nil => cases hp
  | @cons q chunk ps chunks hwords h ih =>
    cases i with
    | zero =>
      cases hp
      exact ⟨chunk, rfl, hwords⟩
    | succ i => exact ih hp

/-- Where the words of all items can be counted in 32 bits, so can those of each item. -/
theorem size_eq_of_lt (h : Emits symbols ps chunks) {read : List (List Char)}
    (hplaced : ∀ p ∈ ps, ComesFrom read p) (hlt : chunks.flatten.length < 2 ^ 32) :
    ∀ p ∈ ps, p.item.size = p.item.wordCount := by
  intro p hp
  obtain ⟨i, hi⟩ := List.getElem?_of_mem hp
  obtain ⟨chunk, hchunk, hwords⟩ := h.getElem? hi
  have hle : chunk.length ≤ chunks.flatten.length :=
    (List.sublist_flatten_of_mem (List.mem_of_getElem? hchunk)).length_le
  obtain ⟨_, _, content, _, _, _, hitem⟩ := hplaced p hp
  refine hitem.size_eq fun text htext => ?_
  have hcount := Scope.length_words hwords
  rw [htext, Item.wordCount] at hcount
  omega

/-- The words before those of an item fill the room before its address. -/
theorem address_getElem? {a b : Nat} (h : Emits symbols ps chunks) (ht : Tiled a ps b)
    (hsize : ∀ p ∈ ps, p.item.size = p.item.wordCount) {i : Nat} {p : Placement}
    (hp : ps[i]? = some p) :
    p.address.toNat = a + wordSize * (chunks.take i).flatten.length := by
  rw [ht.address_getElem? hp, List.map_take, ← h.map_length hsize, ← List.map_take,
    List.length_flatten]

/-- All words together fill the room of the items. -/
theorem end_eq {a b : Nat} (h : Emits symbols ps chunks) (ht : Tiled a ps b)
    (hsize : ∀ p ∈ ps, p.item.size = p.item.wordCount) :
    b = a + wordSize * chunks.flatten.length := by
  rw [ht.end_eq, ← h.map_length hsize, List.length_flatten]

/-- All words fit into memory if there is room for those of each item. -/
theorem fits {read : List (List Char)} {l : Layout} (h : Emits l.symbols l.placements chunks)
    (hconsistent : Layout.Consistent read l)
    (hsize : ∀ p ∈ l.placements, p.item.size = p.item.wordCount) :
    l.origin.toNat + wordSize * chunks.flatten.length ≤ memorySize := by
  rw [← h.end_eq hconsistent.tiled hsize]
  exact hconsistent.fits

/-- The only word of an item is the one that belongs to its address. -/
theorem getElem?_flatten {a b : Nat} (h : Emits symbols ps chunks) (ht : Tiled a ps b)
    (hsize : ∀ p ∈ ps, p.item.size = p.item.wordCount) {p : Placement} {w : Word} (hp : p ∈ ps)
    (hw : (Scope.mk symbols p.address).words p.item = .ok [w]) :
    ∃ n, chunks.flatten[n]? = some w ∧ p.address.toNat = a + wordSize * n := by
  obtain ⟨i, hi⟩ := List.getElem?_of_mem hp
  obtain ⟨chunk, hchunk, hwords⟩ := h.getElem? hi
  cases hw.symm.trans hwords
  refine ⟨_, ?_, h.address_getElem? ht hsize hi⟩
  obtain ⟨hlt, hget⟩ := List.getElem?_eq_some_iff.1 hchunk
  have hsplit : chunks.flatten = (chunks.take i).flatten ++ w :: (chunks.drop (i + 1)).flatten := by
    rw [← List.singleton_append, ← List.flatten_cons, ← List.flatten_append, ← hget,
      ← List.drop_eq_getElem_cons hlt, List.take_append_drop]
  rw [hsplit, List.getElem?_append_right (Nat.le_refl _), Nat.sub_self]
  rfl

end Emits

end LittleComputer.Assembly
