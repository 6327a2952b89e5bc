/-!
# Positions counted in bytes

Places in a text are reported as byte offsets in UTF-8. Only those between two characters are
places at all.
-/

namespace LittleComputer.Text

/-- Number of bytes of a text in UTF-8. -/
def utf8Size : List Char → Nat
  | [] => 0
  | c :: r => c.utf8Size + utf8Size r

/-- An empty text has no bytes. -/
@[simp] theorem utf8Size_nil : utf8Size [] = 0 := rfl

/-- The bytes of a character come before those of the rest. -/
@[simp] theorem utf8Size_cons (c : Char) (r : List Char) :
    utf8Size (c :: r) = c.utf8Size + utf8Size r := rfl

/-- Two texts have the bytes of both. -/
@[simp] theorem utf8Size_append (s t : List Char) :
    utf8Size (s ++ t) = utf8Size s + utf8Size t := by
  induction s with
  | nil => simp
  | cons c r ih => simp [ih, Nat.add_assoc]

/-- The order of characters does not matter to their size. -/
@[simp] theorem utf8Size_reverse (s : List Char) : utf8Size s.reverse = utf8Size s := by
  induction s with
  | nil => rfl
  | cons c s ih => simp [ih, Nat.add_comm]

/-- The characters before and after a byte offset, if it lies between two characters. -/
def splitAtByte? : Nat → List Char → Option (List Char × List Char)
  | 0, s => some ([], s)
  | _ + 1, [] => none
  | n + 1, c :: r =>
    if c.utf8Size ≤ n + 1 then
      (splitAtByte? (n + 1 - c.utf8Size) r).map fun (before, after) => (c :: before, after)
    else none

/-- A text is cut after some bytes if a character ends there. -/
theorem splitAtByte?_eq_some_iff {n : Nat} {s before after : List Char} :
    splitAtByte? n s = some (before, after) ↔ s = before ++ after ∧ utf8Size before = n := by
  induction s generalizing n before with
  | nil =>
    cases n with
    | zero =>
      simp only [splitAtByte?, Option.some.injEq, Prod.mk.injEq, List.nil_eq_append_iff]
      constructor
      · rintro ⟨rfl, rfl⟩
        exact ⟨⟨rfl, rfl⟩, rfl⟩
      · rintro ⟨⟨rfl, rfl⟩, _⟩
        exact ⟨rfl, rfl⟩
    | succ n =>
      simp only [splitAtByte?, List.nil_eq_append_iff, reduceCtorEq, false_iff]
      rintro ⟨⟨rfl, _⟩, h⟩
      simp at h
  | cons c r ih =>
    have hc := c.utf8Size_pos
    cases n with
    | zero =>
      simp only [splitAtByte?, Option.some.injEq, Prod.mk.injEq]
      constructor
      · rintro ⟨rfl, rfl⟩
        exact ⟨rfl, rfl⟩
      · rintro ⟨h, hb⟩
        cases before with
        | nil => exact ⟨rfl, h⟩
        | cons d b =>
          have := d.utf8Size_pos
          rw [utf8Size_cons] at hb
          omega
    | succ n =>
      cases before with
      | nil =>
        simp only [splitAtByte?, utf8Size_nil]
        split <;> simp
      | cons d b =>
        simp only [splitAtByte?, utf8Size_cons, List.cons_append, List.cons.injEq]
        split
        · rename_i h
          simp only [Option.map_eq_some_iff, Prod.mk.injEq, List.cons.injEq, Prod.exists]
          constructor
          · rintro ⟨b', a', h', ⟨rfl, rfl⟩, rfl⟩
            obtain ⟨rfl, hb⟩ := ih.1 h'
            exact ⟨⟨rfl, rfl⟩, by omega⟩
          · rintro ⟨⟨rfl, rfl⟩, hb⟩
            exact ⟨b, after, ih.2 ⟨rfl, by omega⟩, ⟨rfl, rfl⟩, rfl⟩
        · simp only [reduceCtorEq, false_iff]
          rintro ⟨⟨rfl, _⟩, hb⟩
          omega

/-- All of a text is before its end. -/
theorem splitAtByte?_utf8Size (s : List Char) : splitAtByte? (utf8Size s) s = some (s, []) :=
  splitAtByte?_eq_some_iff.2 ⟨(List.append_nil s).symm, rfl⟩

end LittleComputer.Text
