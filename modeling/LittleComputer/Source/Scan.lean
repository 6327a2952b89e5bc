import LittleComputer.Text.Blank

/-!
# Words of the source

A scanner takes a token off the front of a text and returns what follows it. The only words are
runs of letters, digits and underscores that do not start with a digit.
-/

namespace LittleComputer.Source

/-- Take a value off the front of a text, or nothing if it does not start with one. -/
abbrev Scanner (α : Type) := List Char → Option (α × List Char)

def isWordStart (c : Char) : Bool := c == '_' || c.isAlpha

def isWordChar (c : Char) : Bool := isWordStart c || c.isDigit

/-- The longest word at the front of a text. -/
def word : Scanner String
  | [] => none
  | c :: r =>
    if isWordStart c then some (String.ofList (c :: r.takeWhile isWordChar), r.dropWhile isWordChar)
    else none

/-- A text without the given character at its front, and whether it was there. -/
def dropChar (c : Char) : List Char → Bool × List Char
  | [] => (false, [])
  | d :: r => if d = c then (true, r) else (false, d :: r)

/-- A scanner that takes at least one character wherever it succeeds. -/
def Consumes {α : Type} (p : Scanner α) : Prop :=
  ∀ s a r, p s = some (a, r) → r.length < s.length

/-- To take off a character leaves no more than there was. -/
theorem length_dropChar_le (c : Char) (s : List Char) : (dropChar c s).2.length ≤ s.length := by
  unfold dropChar
  split
  · simp
  · split <;> simp

/-- A word takes up a character. -/
theorem consumes_word : Consumes word := by
  intro s a r h
  unfold word at h
  split at h
  · simp at h
  · split at h
    · cases h
      have := (List.dropWhile_suffix isWordChar (l := ‹List Char›)).length_le
      simp only [List.length_cons]
      omega
    · simp at h

end LittleComputer.Source
