import LittleComputer.Assembly.Program
import LittleComputer.Proofs.Assembly.Consistency
import Mathlib

/-!
# The lines that are reached

The first pass stops at a line that fails or that is `.END`. What it makes of the lines up to there
is all that assembling depends on, and an error is always reported on one of them, also by the
second pass, which knows the lines only from the items that they left.
-/

namespace LittleComputer.Assembly

namespace Layout

variable {options : Options} {texts texts' read rest : List (List Char)} {text : List Char}
  {l l' : Layout} {e : Error} {k : Nat}

/-- Whether the first pass goes as far as a line, given by its number, and no further. -/
inductive StopsAt (options : Options) : List (List Char) → Nat → Prop
  | fails {read rest : List (List Char)} {text : List Char} {l : Layout} {e : Error}
    (hread : addTexts options.requireOrigin 1 read (initial options) = .ok l)
    (hended : l.ended = false)
    (htext : l.addText options.requireOrigin (read.length + 1) text = .error e) :
    StopsAt options (read ++ text :: rest) (read.length + 1)
  | ends {read rest : List (List Char)} {text : List Char} {l l' : Layout}
    (hread : addTexts options.requireOrigin 1 read (initial options) = .ok l)
    (hended : l.ended = false)
    (htext : l.addText options.requireOrigin (read.length + 1) text = .ok l')
    (hfinish : directiveOf? text = some .finish) :
    StopsAt options (read ++ text :: rest) (read.length + 1)

/-- More lines at the end do not change where the first pass stops. -/
theorem StopsAt.append (h : StopsAt options texts k) (more : List (List Char)) :
    StopsAt options (texts ++ more) k := by
  cases h with
  | fails hread hended htext =>
    rw [List.append_assoc]
    exact .fails hread hended htext
  | ends hread hended htext hfinish =>
    rw [List.append_assoc]
    exact .ends hread hended htext hfinish

/-- A source has ended after a line if it had before or if the line is `.END`. -/
theorem ended_of_addText {requireOrigin : Bool} {number : Nat}
    (h : l.addText requireOrigin number text = .ok l') :
    l'.ended = (l.ended || decide (directiveOf? text = some .finish)) := by
  obtain ⟨line, hparse, hline⟩ := addText_eq_ok_iff.1 h
  exact ended_of_step hparse (step_of_addLine hline)

/-- A line is added to what the lines before it leave. -/
theorem addTexts_concat (hread : addTexts options.requireOrigin 1 read (initial options) = .ok l)
    (hended : l.ended = false) (rest : List (List Char)) :
    addTexts options.requireOrigin 1 (read ++ text :: rest) (initial options) =
      l.addText options.requireOrigin (read.length + 1) text >>=
        addTexts options.requireOrigin (read.length + 2) rest := by
  rw [addTexts_append, hread, Nat.add_comm 1]
  exact addTexts_cons hended

/-- The first pass stops at a line, or else it reads them all and is not done. -/
theorem exists_stopsAt_or (options : Options) (texts : List (List Char)) :
    (∃ k, StopsAt options texts k) ∨
      ∃ l, addTexts options.requireOrigin 1 texts (initial options) = .ok l ∧
        l.ended = false := by
  induction texts using List.reverseRecOn with
  | nil => exact Or.inr ⟨_, rfl, rfl⟩
  | append_singleton read text ih =>
    rcases ih with ⟨k, hk⟩ | ⟨l, hread, hended⟩
    · exact Or.inl ⟨k, hk.append [text]⟩
    · cases htext : l.addText options.requireOrigin (read.length + 1) text with
      | error e => exact Or.inl ⟨_, .fails hread hended htext⟩
      | ok l' =>
        by_cases hfinish : directiveOf? text = some .finish
        · exact Or.inl ⟨_, .ends hread hended htext hfinish⟩
        · refine Or.inr ⟨l', ?_, ?_⟩
          · rw [addTexts_concat hread hended, htext]
            rfl
          · rw [ended_of_addText htext, hended, decide_eq_false hfinish]
            rfl

/-- The first lines up to one of them end with it. -/
theorem take_concat (read rest : List (List Char)) (text : List Char) :
    (read ++ text :: rest).take (read.length + 1) = read ++ [text] :=
  List.take_length_add_append 1

/-- No line after the one where the first pass stops makes a difference. -/
theorem StopsAt.addTexts_take (h : StopsAt options texts k) :
    addTexts options.requireOrigin 1 (texts.take k) (initial options) =
      addTexts options.requireOrigin 1 texts (initial options) := by
  cases h with
  | fails hread hended htext =>
    rw [take_concat, addTexts_concat hread hended, addTexts_concat hread hended, htext]
    rfl
  | ends hread hended htext hfinish =>
    have hdone := ended_of_addText htext
    rw [decide_eq_true hfinish, Bool.or_true] at hdone
    rw [take_concat, addTexts_concat hread hended, addTexts_concat hread hended, htext,
      Except.ok_bind, Except.ok_bind, addTexts_of_ended hdone, addTexts_of_ended hdone]

/-- What the first pass makes of a source is what it makes of the lines that it reaches. -/
theorem StopsAt.ofLines_take (h : StopsAt options texts k) :
    ofLines options (texts.take k) = ofLines options texts := by
  rw [ofLines, ofLines, h.addTexts_take]

/-- The first pass stops no earlier than at the first line. -/
theorem StopsAt.pos (h : StopsAt options texts k) : 1 ≤ k := by
  cases h <;> exact Nat.le_add_left 1 _

/-- Where the first pass stops is decided by the lines up to there. -/
theorem StopsAt.of_take_eq (h : StopsAt options texts k) (htake : texts'.take k = texts.take k) :
    StopsAt options texts' k := by
  cases h with
  | fails hread hended htext =>
    rw [take_concat] at htake
    rw [← List.take_append_drop _ texts', htake, List.append_assoc]
    exact .fails hread hended htext
  | ends hread hended htext hfinish =>
    rw [take_concat] at htake
    rw [← List.take_append_drop _ texts', htake, List.append_assoc]
    exact .ends hread hended htext hfinish

/-! ## Lines that errors are reported on -/

/-- Only a missing origin is reported on the first line whatever it holds. -/
theorem line_of_ofLines_error (h : ofLines options texts = .error e) :
    1 ≤ e.line ∧ e.line ≤ max 1 texts.length := by
  cases hl : addTexts options.requireOrigin 1 texts (initial options) with
  | error e' =>
    rw [ofLines, hl, Except.error_bind] at h
    cases h
    have hline := line_of_addTexts_error hl
    exact ⟨hline.1, by omega⟩
  | ok l =>
    rw [ofLines, hl, Except.ok_bind] at h
    split at h
    · cases h
      exact ⟨Nat.le_refl 1, Nat.le_max_left 1 _⟩
    · cases h

end Layout

open Layout

/-- The second pass reports an error on the line of an item. -/
theorem exists_placement_of_emit_error {symbols : Symbols} {ps : List Placement} {e : Error}
    (h : emit symbols ps = .error e) : ∃ p ∈ ps, e.line = p.line := by
  induction ps with
  | nil => cases h
  | cons p ps ih =>
    rw [emit] at h
    split at h
    · cases h
      exact ⟨p, List.mem_cons_self, rfl⟩
    · obtain ⟨q, hq, hline⟩ := ih (Except.map_eq_error_iff.1 h)
      exact ⟨q, List.mem_cons_of_mem p hq, hline⟩

/-- Every error is on a line of the source, or on line 1 of an empty one. -/
theorem line_of_program_error {options : Options} {texts : List (List Char)} {e : Error}
    (h : (ofLines options texts >>= Layout.program) = .error e) :
    1 ≤ e.line ∧ e.line ≤ max 1 texts.length := by
  cases hl : ofLines options texts with
  | error e' =>
    rw [hl, Except.error_bind] at h
    cases h
    exact line_of_ofLines_error hl
  | ok l =>
    rw [hl, Except.ok_bind] at h
    obtain ⟨p, hp, hline⟩ := exists_placement_of_emit_error (Except.map_eq_error_iff.1 h)
    obtain ⟨read, hread, hconsistent⟩ := consistent_of_ofLines hl
    have hcomes := hconsistent.placed p hp
    have hle := hcomes.line_le.trans hread.length_le
    obtain ⟨i, _, _, hi, _⟩ := hcomes
    omega

/-- If the first pass stops at a line, a source with the same lines up to that one assembles to the
same program, or with the same error, and an error is on one of these lines. Otherwise every line is
read. An error is on a line of the source in any case, or on line one if the source is empty. -/
theorem reached_lines (options : Options) (source : String) :
    (∀ k, StopsAt options (Text.lines source.toList) k →
      (∀ source', (Text.lines source'.toList).take k = (Text.lines source.toList).take k →
        assemble options source' = assemble options source) ∧
      ∀ e, assemble options source = .error e → 1 ≤ e.line ∧ e.line ≤ k) ∧
    ((∀ k, ¬StopsAt options (Text.lines source.toList) k) →
      ∃ l, addTexts options.requireOrigin 1 (Text.lines source.toList) (initial options) = .ok l ∧
        l.ended = false) ∧
    ∀ e, assemble options source = .error e →
      1 ≤ e.line ∧ e.line ≤ max 1 (Text.lines source.toList).length := by
  refine ⟨fun k hk => ⟨fun source' htake => ?_, fun e he => ?_⟩, fun hnone => ?_, fun e he => ?_⟩
  · have hk' := hk.of_take_eq htake
    rw [assemble, assemble, ← hk.ofLines_take, ← hk'.ofLines_take, htake]
  · rw [assemble, ← hk.ofLines_take] at he
    obtain ⟨hpos, hle⟩ := line_of_program_error he
    have hlength := List.length_take_le k (Text.lines source.toList)
    have := hk.pos
    exact ⟨hpos, by omega⟩
  · rcases exists_stopsAt_or options (Text.lines source.toList) with ⟨k, hk⟩ | hall
    · exact absurd hk (hnone k)
    · exact hall
  · exact line_of_program_error he

/-- A line that cannot be read is left out if it is below `.END`, and so is a label. -/
theorem reached_lines_end :
    assemble {} "BR far\n.END\n#!" = assemble {} "BR far\n.END\nfar" ∧
      ∃ e, assemble {} "BR far\n.END\nfar" = .error e ∧ 1 ≤ e.line ∧ e.line ≤ 2 := by
  obtain ⟨hstops, _⟩ := reached_lines {} "BR far\n.END\nfar"
  let l : Layout :=
    ⟨0x3000, 0x3002, true, false, [], [⟨1, 0x3000, .instruction "BR" [.label "far"]⟩]⟩
  have hread : addTexts false 1 ["BR far".toList] (initial {}) = .ok l := by decide +kernel
  have htext : l.addText false 2 ".END".toList = .ok { l with ended := true } := by
    decide +kernel
  have hends : StopsAt {} (Text.lines "BR far\n.END\nfar".toList) 2 := by
    have hlines : Text.lines "BR far\n.END\nfar".toList =
        ["BR far".toList] ++ ".END".toList :: ["far".toList] := by decide +kernel
    rw [hlines]
    exact .ends hread rfl htext (by decide +kernel)
  obtain ⟨hsame, hline⟩ := hstops 2 hends
  have herror : assemble {} "BR far\n.END\nfar" = .error ⟨1, .undefinedLabel "far"⟩ := by
    decide +kernel
  exact ⟨hsame _ (by decide +kernel), _, herror, hline _ herror⟩

end LittleComputer.Assembly
