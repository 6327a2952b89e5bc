import LittleComputer.Proofs.Assembly.Emission
import Mathlib

/-!
# The two passes agree

The first pass gives out addresses before there is a single word, and the second pass writes words
without looking at addresses. They fit together: the words of an item begin at its address.
-/

namespace LittleComputer.Assembly

/-- The items of an assembled source follow each other from the origin, each with as many words as
were reserved for it, and every label has the address of the next item or else of the end. -/
theorem passes_agree {options : Options} {source : String} {p : Program}
    (hsource : Text.utf8Size source.toList < 2 ^ 32 - 1)
    (h : assemble options source = .ok p) :
    ∃ (l : Layout) (chunks : List (List Word)),
      Layout.ofLines options (Text.lines source.toList) = .ok l ∧
      p.origin = l.origin ∧ p.symbols = l.symbols ∧ p.words = chunks.flatten ∧
      chunks.length = l.placements.length ∧
      (∀ i placement, l.placements[i]? = some placement →
        ∃ chunk, chunks[i]? = some chunk ∧
          (Scope.mk p.symbols placement.address).words placement.item = .ok chunk ∧
          chunk.length = placement.item.size ∧
          placement.address.toNat =
            p.origin.toNat + wordSize * (chunks.take i).flatten.length) ∧
      l.address = p.origin.toNat + wordSize * p.words.length ∧
      ∀ label a, (label, a) ∈ p.symbols →
        ∃ k, definingLine? (Text.lines source.toList) label = some k ∧
          a.toNat =
            match l.placements.find? (k ≤ ·.line) with
            | some placement => placement.address.toNat
            | none => p.endAddress := by
  obtain ⟨l, chunks, hl, hemits, rfl⟩ := assemble_eq_ok_iff.1 h
  obtain ⟨read, hread, hconsistent⟩ := Layout.consistent_of_ofLines hl
  have hsize := size_eq_of_consistent hsource hread hconsistent
  have hend := hemits.end_eq hconsistent.tiled hsize
  refine ⟨l, chunks, hl, rfl, rfl, rfl, hemits.length_eq.symm, ?_, hend, ?_⟩
  · intro i placement hplacement
    obtain ⟨chunk, hchunk, hwords⟩ := hemits.getElem? hplacement
    refine ⟨chunk, hchunk, hwords, ?_, hemits.address_getElem? hconsistent.tiled hsize hplacement⟩
    rw [Scope.length_words hwords, hsize _ (List.mem_of_getElem? hplacement)]
  · intro label a ha
    obtain ⟨k, hk, hat⟩ := hconsistent.defined (label, a) ha
    obtain ⟨rest, hrest⟩ := hread
    refine ⟨k, hrest ▸ definingLine?_append_of_eq_some rest hk, hat.trans ?_⟩
    show l.addressFrom k = match l.placements.find? (k ≤ ·.line) with
      | some placement => placement.address.toNat
      | none => l.origin.toNat + wordSize * chunks.flatten.length
    rw [← hend]
    unfold Layout.addressFrom
    cases l.placements.find? (k ≤ ·.line) <;> rfl

/-- A source with each kind of item, one of them empty, and with labels on a line of their own, on
an item and on `.END`. -/
def everyItem : String :=
  ".ORIG x3000\nstart:\n LEA R0, text\n.FILL start\nnone .BLKW 0\ntext .STRINGZ \"a\\n\"\nlast .END"

/-- Its five words end where the layout does, the item without words included. -/
theorem passes_agree_everyItem :
    ∃ (l : Layout) (chunks : List (List Word)),
      Layout.ofLines {} (Text.lines everyItem.toList) = .ok l ∧
      chunks.flatten = [0xE001, 0x3000, 0x61, 0x0A, 0] ∧ l.address = 0x300A := by
  obtain ⟨l, chunks, hl, horigin, _, hwords, _, _, hend, _⟩ :=
    @passes_agree {} everyItem
      ⟨0x3000, [0xE001, 0x3000, 0x61, 0x0A, 0],
        [("start", 0x3000), ("none", 0x3004), ("text", 0x3004), ("last", 0x300A)]⟩
      (by decide +kernel) (by decide +kernel)
  exact ⟨l, chunks, hl, hwords.symm, hend⟩

end LittleComputer.Assembly
