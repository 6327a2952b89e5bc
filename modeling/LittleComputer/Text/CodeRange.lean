/-!
# Ranges of code points

A class of characters is given by the ranges of their code points.
-/

namespace LittleComputer.Text

/-- Ranges of code points, ends included, in ascending order. -/
abbrev CodeRanges := List (Nat × Nat)

/-- Whether a character is in one of the ranges. -/
def CodeRanges.covers (ranges : CodeRanges) (c : Char) : Bool :=
  ranges.any fun (first, last) => first ≤ c.toNat && c.toNat ≤ last

/-- A character is covered by the range that it is in. -/
theorem CodeRanges.covers_iff {ranges : CodeRanges} {c : Char} :
    ranges.covers c = true ↔ ∃ r ∈ ranges, r.1 ≤ c.toNat ∧ c.toNat ≤ r.2 := by
  simp [covers]

end LittleComputer.Text
