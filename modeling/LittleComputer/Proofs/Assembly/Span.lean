import LittleComputer.Assembly.Report
import LittleComputer.Proofs.Assembly.Comments
import LittleComputer.Proofs.Assembly.Reach
import Mathlib

/-!
# The place of an error

The lines that are read and the place that a report points to are both found by cutting the source
after its line feeds, but what they keep of a piece differs: a line that is read loses one line end,
and the place in a report leaves out all the carriage returns before it. So the place of an error
shows the line that is read, but for carriage returns at its end.
-/

namespace LittleComputer

namespace Text

variable {s t before : List Char} {n : Nat}

/-- A text without the carriage returns at its end. -/
def trimReturns (s : List Char) : List Char := (s.reverse.dropWhile (· == '\r')).reverse

/-! ## Pieces of a text -/

/-- There are as many line feeds before a piece as there are pieces before it, and if there are any,
the last is right before it. -/
theorem count_take_piecesFrom (hbefore : '\n' ∉ before) (h : n < (piecesFrom before s).length) :
    ((piecesFrom before s).take n).flatten.count '\n' = n ∧
      ∀ c ∈ ((piecesFrom before s).take n).flatten.getLast?, c = '\n' := by
  induction s generalizing before n with
  | nil =>
    rw [piecesFrom] at h ⊢
    split at h
    · cases h
    · obtain rfl := Nat.lt_one_iff.1 h
      refine ⟨rfl, fun c hc => ?_⟩
      cases hc
  | cons c r ih =>
    rw [piecesFrom] at h ⊢
    by_cases hc : c = '\n'
    · rw [if_pos hc] at h ⊢
      cases n with
      | zero =>
        refine ⟨rfl, fun c hc => ?_⟩
        cases hc
      | succ n =>
        obtain ⟨hcount, hlast⟩ := ih List.not_mem_nil (Nat.lt_of_succ_lt_succ h)
        have hreverse : before.reverse.count '\n' = 0 :=
          List.count_eq_zero.2 fun h => hbefore (List.mem_reverse.1 h)
        rw [List.take_succ_cons, List.flatten_cons, hc, List.reverse_cons]
        constructor
        · rw [List.count_append, List.count_append, hreverse, hcount, List.count_singleton_self]
          omega
        · intro d hd
          rw [List.getLast?_append, List.getLast?_append, List.getLast?_singleton] at hd
          cases hrest : (List.take n (piecesFrom [] r)).flatten.getLast? with
          | none =>
            rw [hrest] at hd
            exact (Option.some.inj hd).symm
          | some d' =>
            rw [hrest] at hd
            exact Option.some.inj hd ▸ hlast d' hrest
    · rw [if_neg hc] at h ⊢
      exact ih (List.not_mem_cons_of_ne_of_not_mem (Ne.symm hc) hbefore) h

/-! ## Line ends -/

/-- A line feed at the end is taken off with the other line ends. -/
theorem trimLineEnds_append_newline (t : List Char) :
    trimLineEnds (t ++ ['\n']) = trimLineEnds t := by
  rw [trimLineEnds, List.reverse_append]
  rfl

/-- A carriage return at the end is taken off with the others. -/
theorem trimReturns_append_return (t : List Char) :
    trimReturns (t ++ ['\r']) = trimReturns t := by
  rw [trimReturns, List.reverse_append]
  rfl

/-- In a text without line feeds, carriage returns are the only line ends. -/
theorem trimLineEnds_of_not_mem (ht : '\n' ∉ t) : trimLineEnds t = trimReturns t := by
  have hreverse : ∀ c ∈ t.reverse, isLineEnd c = (c == '\r') := by
    intro c hc
    have hne : c ≠ '\n' := fun h => ht (List.mem_reverse.1 (h ▸ hc))
    rw [isLineEnd, beq_eq_false_iff_ne.2 hne, Bool.false_or]
  rw [trimLineEnds, trimReturns]
  congr 1
  generalize t.reverse = u at hreverse
  induction u with
  | nil => rfl
  | cons c u ih =>
    obtain ⟨hc, hu⟩ := List.forall_mem_cons.1 hreverse
    rw [List.dropWhile_cons, List.dropWhile_cons, hc, ih hu]

/-- A piece without a line feed is a line as it is. -/
theorem withoutLineEnd_of_not_mem (ht : '\n' ∉ t) : withoutLineEnd t = t := by
  have hhead (r : List Char) : t.reverse ≠ '\n' :: r := fun h =>
    ht (List.mem_reverse.1 (h ▸ List.mem_cons_self))
  unfold withoutLineEnd
  split
  · exact absurd ‹_› (hhead _)
  · exact absurd ‹_› (hhead _)
  · rfl

/-- Of the carriage returns before a line feed, a line that is read loses the last one. -/
theorem trimReturns_withoutLineEnd_append (t : List Char) :
    trimReturns (withoutLineEnd (t ++ ['\n'])) = trimReturns t := by
  unfold withoutLineEnd
  rw [List.reverse_append, List.reverse_singleton, List.singleton_append]
  split
  · rename_i u h
    have ht : t = u.reverse ++ ['\r'] := by
      rw [← List.reverse_reverse t, (List.cons.inj h).2, List.reverse_cons]
    rw [ht, trimReturns_append_return]
  · rename_i u _ h
    rw [← (List.cons.inj h).2, List.reverse_reverse]
  · rename_i h
    exact absurd rfl (h t.reverse)

/-- What is left of a piece without its line ends is the line that is read, but for carriage returns
at its end. -/
theorem trimLineEnds_of_mem_pieces {piece : List Char} (h : piece ∈ pieces s) :
    trimLineEnds piece = trimReturns (withoutLineEnd piece) := by
  obtain ⟨t, ht, rfl | rfl⟩ := exists_of_mem_piecesFrom List.not_mem_nil h
  · rw [withoutLineEnd_of_not_mem ht, trimLineEnds_of_not_mem ht]
  · rw [trimLineEnds_append_newline, trimReturns_withoutLineEnd_append, trimLineEnds_of_not_mem ht]

/-- What is taken off is at the end. -/
theorem exists_eq_trimLineEnds_append (t : List Char) : ∃ ends, t = trimLineEnds t ++ ends := by
  obtain ⟨u, hu⟩ := List.dropWhile_suffix isLineEnd (l := t.reverse)
  refine ⟨u.reverse, ?_⟩
  rw [trimLineEnds, ← List.reverse_append, hu, List.reverse_reverse]

end Text

namespace Assembly

open Text

variable {s line : List Char} {n : Nat}

/-- The place of a line of a source, between what comes before and after it. -/
theorem lineSpan_of_lines (h : (lines s)[n]? = some line) :
    ∃ before after, s = before ++ trimReturns line ++ after ∧
      lineSpan s (n + 1) = ⟨utf8Size before, utf8Size (trimReturns line)⟩ ∧
      before.count '\n' = n ∧ ∀ c ∈ before.getLast?, c = '\n' := by
  rw [lines, List.getElem?_map] at h
  obtain ⟨piece, hpiece, rfl⟩ := Option.map_eq_some_iff.1 h
  obtain ⟨hn, hget⟩ := List.getElem?_eq_some_iff.1 hpiece
  have hdrop : (pieces s).drop n = piece :: (pieces s).drop (n + 1) := by
    rw [← hget]
    exact List.drop_eq_getElem_cons hn
  have hends := trimLineEnds_of_mem_pieces (List.mem_of_getElem? hpiece)
  obtain ⟨ends, hpieceEnds⟩ := exists_eq_trimLineEnds_append piece
  obtain ⟨hcount, hlast⟩ := count_take_piecesFrom List.not_mem_nil hn
  refine ⟨((pieces s).take n).flatten, ends ++ ((pieces s).drop (n + 1)).flatten, ?_, ?_, hcount,
    hlast⟩
  · calc
      s = ((pieces s).take n ++ (pieces s).drop n).flatten := by
        rw [List.take_append_drop, flatten_pieces]
      _ = ((pieces s).take n).flatten ++ (piece ++ ((pieces s).drop (n + 1)).flatten) := by
        rw [List.flatten_append, hdrop, List.flatten_cons]
      _ = _ := by
        conv_lhs => rw [hpieceEnds, hends]
        simp only [List.append_assoc]
  · rw [lineSpan, Nat.add_sub_cancel, hdrop, List.headD_cons, hends]

/-- In an empty source every line is the empty one at the beginning. -/
theorem lineSpan_nil (n : Nat) : lineSpan [] n = ⟨0, 0⟩ := by
  rw [lineSpan]
  simp [pieces, piecesFrom, trimLineEnds]

/-- An error is reported at a range of bytes within the source, both ends of which are between
characters. It holds the line of that number as it was read, but for carriage returns at its end,
with as many line feeds before it as there are lines before it. Only of an empty source there is no
line to show. -/
theorem span_of_error {options : Options} {source : String} {e : Error}
    (h : assemble options source = .error e) :
    let s := source.toList
    let span := lineSpan s e.line
    1 ≤ e.line ∧ span.offset + span.size ≤ utf8Size s ∧
      (s = [] ∧ span = ⟨0, 0⟩ ∨
        ∃ before line after, s = before ++ trimReturns line ++ after ∧
          (lines s)[e.line - 1]? = some line ∧ span.offset = utf8Size before ∧
          span.size = utf8Size (trimReturns line) ∧
          before.count '\n' = e.line - 1 ∧ ∀ c ∈ before.getLast?, c = '\n') := by
  intro s span
  obtain ⟨hpos, hle⟩ := line_of_program_error h
  by_cases hs : s = []
  · have hspan : span = ⟨0, 0⟩ := by
      rw [show span = lineSpan s e.line from rfl, hs, lineSpan_nil]
    rw [hspan, hs]
    exact ⟨hpos, Nat.le_refl 0, Or.inl ⟨rfl, rfl⟩⟩
  · have hlines : (lines s).length ≠ 0 := by
      intro hnone
      rw [lines, List.length_map, List.length_eq_zero_iff] at hnone
      exact hs (by rw [← flatten_pieces s, hnone, List.flatten_nil])
    have hlt : e.line - 1 < (lines s).length := by
      have hmax : max 1 (lines s).length = (lines s).length :=
        Nat.max_eq_right (Nat.one_le_iff_ne_zero.2 hlines)
      exact Nat.lt_of_lt_of_le (Nat.sub_lt hpos Nat.one_pos) (hmax ▸ hle)
    have hline := List.getElem?_eq_getElem hlt
    obtain ⟨before, after, hsource, hspan, hcount, hlast⟩ := lineSpan_of_lines hline
    rw [Nat.sub_add_cancel hpos] at hspan
    have hsize := congrArg utf8Size hsource
    rw [utf8Size_append, utf8Size_append] at hsize
    rw [show span = _ from hspan]
    exact ⟨hpos, hsize ▸ Nat.le_add_right _ _,
      Or.inr ⟨before, _, after, hsource, hline, rfl, rfl, hcount, hlast⟩⟩

/-- A source with line ends of both kinds, a letter of two bytes and an empty line, where the last
line is not ended and cannot be assembled. -/
def unended : String := "; é\r\n\nBR far\r\r"

/-- The third line is found behind a letter of two bytes, without the returns at its end. -/
theorem span_of_error_unended :
    assemble {} unended = .error ⟨3, .undefinedLabel "far"⟩ ∧
      lineSpan unended.toList 3 = ⟨7, 6⟩ ∧
      ∃ before line after, unended.toList = before ++ trimReturns line ++ after ∧
        (lines unended.toList)[2]? = some line ∧ utf8Size before = 7 ∧
        utf8Size (trimReturns line) = 6 ∧ before.count '\n' = 2 := by
  have herror : assemble {} unended = .error ⟨3, .undefinedLabel "far"⟩ := by decide +kernel
  have hspan : lineSpan unended.toList 3 = ⟨7, 6⟩ := by decide +kernel
  obtain ⟨_, _, ⟨hempty, _⟩ | ⟨before, line, after, hsource, hline, hoffset, hsize, hcount, _⟩⟩ :=
    span_of_error herror
  · exact absurd hempty (by decide +kernel)
  · rw [hspan] at hoffset hsize
    exact ⟨herror, hspan, before, line, after, hsource, hline, hoffset.symm, hsize.symm, hcount⟩

end Assembly

end LittleComputer
