/-!
# Lines of a text

A line ends with a line feed, which may have a carriage return before it. The last line need not be
ended, and a text that ends with a line feed has no empty line after it.
-/

namespace LittleComputer.Text

/-- Whether a character is a line feed or a carriage return. -/
def isLineEnd (c : Char) : Bool := c == '\n' || c == '\r'

/-- A text without the line feeds and carriage returns at its end. -/
def trimLineEnds (s : List Char) : List Char := (s.reverse.dropWhile isLineEnd).reverse

/-- Cut a text after each line feed, given the characters before it in reverse. -/
def piecesFrom (before : List Char) : List Char → List (List Char)
  | [] => if before.isEmpty then [] else [before.reverse]
  | c :: r =>
    if c = '\n' then (c :: before).reverse :: piecesFrom [] r else piecesFrom (c :: before) r

/-- Cut a text after each line feed. Joined again, the pieces are the text. -/
def pieces (s : List Char) : List (List Char) := piecesFrom [] s

/-- A piece without its line feed, and without the carriage return before that. -/
def withoutLineEnd (piece : List Char) : List Char :=
  match piece.reverse with
  | '\n' :: '\r' :: r => r.reverse
  | '\n' :: r => r.reverse
  | _ => piece

/-- The lines of a text, in order. -/
def lines (s : List Char) : List (List Char) := (pieces s).map withoutLineEnd

/-- No character is lost between pieces. -/
theorem flatten_piecesFrom (before s : List Char) :
    (piecesFrom before s).flatten = before.reverse ++ s := by
  induction s generalizing before with
  | nil =>
    unfold piecesFrom
    cases before <;> simp
  | cons c r ih =>
    unfold piecesFrom
    split <;> simp [ih]

/-- The pieces of a text make up the text. -/
@[simp] theorem flatten_pieces (s : List Char) : (pieces s).flatten = s :=
  flatten_piecesFrom [] s

/-- A piece ends after its line feed. -/
theorem piecesFrom_append_newline {before s : List Char} (r : List Char) (hs : '\n' ∉ s) :
    piecesFrom before (s ++ '\n' :: r) = (before.reverse ++ s ++ ['\n']) :: pieces r := by
  induction s generalizing before with
  | nil => simp [piecesFrom, pieces]
  | cons c s ih =>
    have hc : c ≠ '\n' := fun hc => hs (hc ▸ List.mem_cons_self)
    have ih := @ih (c :: before) fun h => hs (List.mem_cons_of_mem c h)
    rw [List.cons_append, piecesFrom, if_neg hc, ih]
    simp

/-- A line is as it was written, and the lines after it are those of the rest. -/
theorem lines_append_newline {s : List Char} (r : List Char)
    (hs : ∀ c ∈ s, isLineEnd c = false) : lines (s ++ '\n' :: r) = s :: lines r := by
  have hnewline : '\n' ∉ s := by
    intro h
    have := hs _ h
    cases this
  have hend : withoutLineEnd (s ++ ['\n']) = s := by
    unfold withoutLineEnd
    rw [List.reverse_append, List.reverse_singleton, List.singleton_append]
    split
    · rename_i t h
      have hreturn : '\r' ∈ s := by
        refine List.mem_reverse.1 ?_
        rw [(List.cons.inj h).2]
        exact List.mem_cons_self
      have := hs _ hreturn
      cases this
    · rename_i t _ h
      rw [← (List.cons.inj h).2]
      exact List.reverse_reverse s
    · rename_i h
      exact absurd rfl (h s.reverse)
  rw [lines, pieces, piecesFrom_append_newline r hnewline, List.map_cons]
  rw [List.reverse_nil, List.nil_append, hend, lines]

end LittleComputer.Text
