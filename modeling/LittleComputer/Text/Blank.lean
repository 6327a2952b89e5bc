/-!
# Blanks and white space

The words of a line are separated by blanks, which are spaces and tabs. What is cut off at the ends
of a text is white space, a larger class: every character with the property of that name.
-/

namespace LittleComputer.Text

def isBlank (c : Char) : Bool := c == ' ' || c == '\t'

/-- The characters with the property White_Space. -/
def isSpace (c : Char) : Bool :=
  let n := c.toNat
  9 ≤ n && n ≤ 13 || n == 32 || n == 0x85 || n == 0xA0 || n == 0x1680 ||
    0x2000 ≤ n && n ≤ 0x200A || n == 0x2028 || n == 0x2029 || n == 0x202F || n == 0x205F ||
    n == 0x3000

def trimStart (s : List Char) : List Char := s.dropWhile isSpace

def trimEnd (s : List Char) : List Char := (s.reverse.dropWhile isSpace).reverse

/-- The text without the white space at its ends. -/
def trim (s : List Char) : List Char := trimEnd (trimStart s)

/-- The text after any blanks. -/
def skipBlanks (s : List Char) : List Char := s.dropWhile isBlank

/-- The text after one blank or more. -/
def skipSomeBlanks (s : List Char) : Option (List Char) :=
  match s with
  | c :: r => if isBlank c then some (skipBlanks r) else none
  | [] => none

/-- Blanks are white space. -/
theorem isSpace_of_isBlank {c : Char} (h : isBlank c = true) : isSpace c = true := by
  simp only [isBlank, Bool.or_eq_true, beq_iff_eq] at h
  rcases h with rfl | rfl <;> rfl

/-- To skip blanks leaves no more than there was. -/
theorem length_skipBlanks_le (s : List Char) : (skipBlanks s).length ≤ s.length :=
  (List.dropWhile_suffix _).length_le

end LittleComputer.Text
