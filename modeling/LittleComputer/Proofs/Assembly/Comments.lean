import LittleComputer.Assembly.Program
import LittleComputer.Proofs.Assembly.Layout
import LittleComputer.Proofs.Source.LineGrammar
import Mathlib

/-!
# Comments

What stands before the ending of a line is read the same way whatever the ending is. So a comment
that is read as one can be added or taken away, and neither the label nor the content of the line
changes. A comment with a carriage return in it is not read as one, nor is a comment after white
space other than blanks, though the line without it is read: then the line is rejected.
-/

namespace LittleComputer.Source

variable {s t u v w : List Char} {os : List Operand}

/-! ## Texts that end with a token -/

/-- Further operands do not end with white space. -/
theorem Further.solid_append (h : Further os t) (hs : Solid s) : Solid (s ++ t) := by
  induction h generalizing s with
  | nil => rwa [List.append_nil]
  | cons _ _ ho _ ih => exact ((((ih ho.solid).append _).append [',']).append _).append s

/-- Operands do not end with white space. -/
theorem Arguments.solid_append (h : Arguments os t) (hs : Solid s) : Solid (s ++ t) := by
  cases h with
  | none => rwa [List.append_nil]
  | some _ _ ho hrest => exact ((hrest.solid_append ho.solid).append _).append s

/-- A content does not end with white space. -/
theorem Content.Written.solid {c : Content} (h : c.Written s) : Solid s := by
  cases h with
  | instruction hname h => exact h.solid_append hname.solid
  | directive hname h => exact (h.solid_append hname.solid).append ['.']

/-- Blanks at the end of what does not end with white space are none. -/
theorem Solid.eq_nil_of_blanks (h : Solid (s ++ t)) (ht : Blanks t) : t = [] := by
  by_contra hne
  obtain ⟨c, hc, hspace⟩ := h
  rw [List.getLast?_append_of_ne_nil s hne] at hc
  have := Text.isSpace_of_isBlank (ht c (List.mem_of_getLast? hc))
  rw [hspace] at this
  cases this

/-- White space after what does not end with any is all the white space there is. -/
theorem rtakeWhile_append_of_solid (hs : s = [] ∨ Solid s)
    (hw : ∀ c ∈ w, Text.isSpace c = true) : (s ++ w).rtakeWhile Text.isSpace = w := by
  have hnil : s.rtakeWhile Text.isSpace = [] := by
    refine List.rtakeWhile_eq_nil_iff.2 fun hne => ?_
    rcases hs with rfl | ⟨c, hc, hspace⟩
    · exact absurd rfl hne
    · rw [List.getLast?_eq_some_getLast hne] at hc
      cases hc
      rw [hspace]
      exact Bool.false_ne_true
  rw [List.rtakeWhile, List.reverse_append,
    List.takeWhile_append_of_pos fun c hc => hw c (List.mem_reverse.1 hc), List.reverse_append,
    List.reverse_reverse]
  rw [← List.rtakeWhile, hnil, List.nil_append]

/-! ## Stems -/

/-- An opening without content after it can be cut short at the blanks that it ends with. -/
theorem Opening.exists_solid {label : Option String} (h : Opening label none s) :
    ∃ u b, s = u ++ b ∧ Blanks b ∧ (u = [] ∨ Solid u) ∧ Opening label none u := by
  cases h with
  | unlabelled hlead hfirst =>
    exact ⟨[], s, rfl, hlead, Or.inl rfl, .unlabelled blanks_nil hfirst⟩
  | @colon _ name lead before after hlead hword hname hbefore hafter =>
    refine ⟨lead ++ (name.toList ++ (before ++ [':'])), after, by simp, hafter, Or.inr ?_, ?_⟩
    · exact ((Solid.append before ⟨':', rfl, rfl⟩).append _).append lead
    · exact .colon hlead hword hname hbefore blanks_nil
  | @bare _ name lead after hlead hword hname hafter hsecond =>
    refine ⟨lead ++ name.toList, after, by simp, hafter, Or.inr (hword.solid.append lead), ?_⟩
    have := Opening.bare hlead hword hname blanks_nil hsecond (by rintro _ _ ⟨⟩)
    rwa [List.append_nil] at this

namespace Line

variable {line : Line}

/-- Whether a text is read as the label and content of a line whatever the ending after it, which
begins where the text does not end with white space. -/
structure Stem (line : Line) (s : List Char) : Prop where
  solid : s = [] ∨ Solid s
  scan : ∀ r, Finished r → Line.scan (s ++ r) =
    ({ line with comment := (optional Source.comment (Text.skipBlanks r)).1 },
      (optional Source.comment (Text.skipBlanks r)).2)

/-- Every line is a stem, blanks and an ending. -/
theorem Written.exists_stem (h : line.Written s) :
    ∃ u gap ending, s = u ++ (gap ++ ending) ∧ line.Stem u ∧ Blanks gap ∧
      Ending line.comment ending := by
  obtain ⟨hopening, hbody, hgap, hending⟩ := h
  rename_i label content comment opening body gap ending
  cases hbody with
  | none =>
    obtain ⟨u, b, rfl, hb, hsolid, hopening⟩ := hopening.exists_solid
    refine ⟨u, b ++ gap, ending, by simp, ⟨hsolid, fun r hr => ?_⟩, hb.append hgap, hending⟩
    exact scan_append hopening .none hr
  | some h =>
    refine ⟨opening ++ body, gap, ending, by simp, ⟨Or.inr (h.solid.append _), fun r hr => ?_⟩,
      hgap, hending⟩
    rw [List.append_assoc]
    exact scan_append hopening (.some h) hr

/-- A stem is read alike before every ending. -/
theorem Stem.parse (h : line.Stem u) {comment : Option String} {gap ending : List Char}
    (hgap : Blanks gap) (hending : Ending comment ending) :
    Line.parse (u ++ (gap ++ ending)) = .ok { line with comment } := by
  obtain ⟨t, hcomment, hspace⟩ := optional_comment hending
  rw [parse_eq_ok_iff, h.scan _ (hending.finished hgap), hgap.skipBlanks_append, hcomment]
  exact ⟨rfl, List.all_eq_true.2 hspace⟩

end Line

/-! ## Comments that are not read -/

/-- Blanks before a comment are skipped up to its semicolon. -/
theorem skipBlanks_append_semicolon (w t : List Char) :
    Text.skipBlanks (w ++ ';' :: t) = Text.skipBlanks w ++ ';' :: t := by
  rw [Text.skipBlanks, List.dropWhile_append]
  split
  · rename_i hnil
    rw [Text.skipBlanks, List.isEmpty_iff.1 hnil]
    rfl
  · rfl

/-- What is all skipped is all blanks. -/
theorem skipBlanks_eq_nil_iff : Text.skipBlanks w = [] ↔ Blanks w :=
  List.dropWhile_eq_nil_iff

section Space

variable (hw : ∀ c ∈ w, Text.isSpace c = true)
include hw

/-- White space without some of its blanks is still white space. -/
theorem isSpace_skipBlanks : ∀ c ∈ Text.skipBlanks w, Text.isSpace c = true := fun c hc =>
  hw c ((List.dropWhile_suffix Text.isBlank).subset hc)

/-- Nothing before a comment goes on through the white space there. -/
theorem finished_of_isSpace (t : List Char) : Finished (w ++ ';' :: t) := by
  rw [Finished, skipBlanks_append_semicolon]
  intro c hc
  cases hskip : Text.skipBlanks w with
  | nil =>
    rw [hskip] at hc
    cases hc
    exact Or.inl rfl
  | cons d v =>
    rw [hskip] at hc
    cases hc
    exact Or.inr (isSpace_skipBlanks hw c (hskip ▸ List.mem_cons_self))

/-- A comment has no carriage return in it, and only blanks come before it. -/
theorem comment_eq_none (hnewline : '\n' ∉ t) (h : ¬('\r' ∉ t ∧ Blanks w)) :
    comment (Text.skipBlanks w ++ ';' :: t) = none := by
  cases hskip : Text.skipBlanks w with
  | cons d v =>
    have hd : Text.isSpace d = true := isSpace_skipBlanks hw d (hskip ▸ List.mem_cons_self)
    rw [List.cons_append, comment]
    rintro _ heq
    cases heq
    cases hd
  | nil =>
    have hreturn : '\r' ∈ t := by
      by_contra hreturn
      exact h ⟨hreturn, skipBlanks_eq_nil_iff.1 hskip⟩
    have hdrop : (';' :: t).dropWhile (!Text.isLineEnd ·) = t.dropWhile (!Text.isLineEnd ·) := rfl
    have hsubset := (List.dropWhile_suffix (l := t) (!Text.isLineEnd ·)).subset
    have hhead := List.head?_dropWhile_not (!Text.isLineEnd ·) t
    rw [List.nil_append, comment, hdrop]
    cases hrest : t.dropWhile (!Text.isLineEnd ·) with
    | nil =>
      have := List.dropWhile_eq_nil_iff.1 hrest '\r' hreturn
      cases this
    | cons d r =>
      rw [hrest] at hhead hsubset
      have hd : d = '\n' ∨ d = '\r' := by simpa [Text.isLineEnd, or_iff_not_imp_left] using hhead
      rcases hd with rfl | rfl
      · exact absurd (hsubset List.mem_cons_self) hnewline
      · split
        · rename_i heq
          cases heq
          exact absurd (hsubset (List.mem_cons_of_mem _ List.mem_cons_self)) hnewline
        · rfl
        · rename_i hne
          exact absurd rfl (hne r)

/-- What is left over is the comment. -/
theorem offendingToken_semicolon (t : List Char) :
    Line.offendingToken (w ++ ';' :: t) = Text.trim (';' :: t) := by
  have htrim : Text.trim (w ++ ';' :: t) = Text.trim (';' :: t) := by
    rw [Text.trim, Text.trimStart, List.dropWhile_append_of_pos hw]
    rfl
  obtain ⟨y, hy⟩ : ∃ y, Text.trim (';' :: t) = ';' :: y := by
    have hprefix : Text.trim (';' :: t) <+: ';' :: t := List.rdropWhile_prefix _ _
    have hne : Text.trim (';' :: t) ≠ [] := fun hnil => by
      have := List.rdropWhile_eq_nil_iff.1 hnil ';' List.mem_cons_self
      cases this
    obtain ⟨c, y, hy⟩ := List.exists_cons_of_ne_nil hne
    rw [hy] at hprefix
    rw [hy, (List.cons_prefix_cons.1 hprefix).1]
    exact ⟨y, rfl⟩
  unfold Line.offendingToken
  rw [htrim, hy]
  rfl

end Space

/-! ## Lines with and without a comment -/

namespace Line

variable {line : Line}

/-- A comment on one line, after blanks or none, is read as one. -/
theorem Stem.parse_semicolon (h : line.Stem u) (hw : Blanks w)
    (ht : ∀ c ∈ t, Text.isLineEnd c = false) :
    Line.parse (u ++ (w ++ ';' :: t)) =
      .ok { line with comment := some (String.ofList (';' :: t)) } :=
  h.parse hw (ending_of_onLine ht)

/-- A comment with a carriage return in it, or after white space that is not blank, is not read. -/
theorem Stem.parse_unread (h : line.Stem u) (hw : ∀ c ∈ w, Text.isSpace c = true)
    (hnewline : '\n' ∉ t) (hunread : ¬('\r' ∉ t ∧ Blanks w)) :
    Line.parse (u ++ (w ++ ';' :: t)) = .error ⟨String.ofList (Text.trim (';' :: t))⟩ := by
  have hrest : ¬(Text.skipBlanks w ++ ';' :: t).all Text.isSpace = true := fun hall => by
    have := List.all_eq_true.1 hall ';' (by simp)
    cases this
  unfold Line.parse
  rw [h.scan _ (finished_of_isSpace hw t), skipBlanks_append_semicolon, optional,
    comment_eq_none hw hnewline hunread]
  simp only [offendingToken_semicolon (isSpace_skipBlanks hw) t]
  exact if_neg hrest

/-- What a comment after a line without one makes of it. The blank before the comment goes on with
whatever white space the line ends with. -/
theorem parse_append_comment (h : Line.parse s = .ok line) (hnone : line.comment = none)
    (hnewline : '\n' ∉ t) :
    Line.parse (s ++ ' ' :: ';' :: t) =
      if '\r' ∉ t ∧ Blanks (s.rtakeWhile Text.isSpace) then
        .ok { line with comment := some (String.ofList (';' :: t)) }
      else .error ⟨String.ofList (Text.trim (';' :: t))⟩ := by
  obtain ⟨u, gap, ending, rfl, hstem, hgap, hending⟩ := (Written.of_parse h).exists_stem
  rw [hnone] at hending
  obtain ⟨hspace⟩ := hending
  have hw : ∀ c ∈ gap ++ ending, Text.isSpace c = true :=
    List.forall_mem_append.2 ⟨fun c hc => Text.isSpace_of_isBlank (hgap c hc), hspace⟩
  have htext : u ++ (gap ++ ending) ++ ' ' :: ';' :: t =
      u ++ (((gap ++ ending) ++ [' ']) ++ ';' :: t) := by simp
  rw [rtakeWhile_append_of_solid hstem.solid hw, htext]
  split
  · rename_i hread
    refine hstem.parse_semicolon (hread.2.append blanks_singleton) fun c hc => ?_
    rw [Text.isLineEnd, Bool.or_eq_false_iff, beq_eq_false_iff_ne, beq_eq_false_iff_ne]
    exact ⟨fun heq => hnewline (heq ▸ hc), fun heq => hread.1 (heq ▸ hc)⟩
  · rename_i hunread
    refine hstem.parse_unread (List.forall_mem_append.2 ⟨hw, by simp [Text.isSpace]⟩) hnewline ?_
    rintro ⟨hreturn, hblanks⟩
    exact hunread ⟨hreturn, fun c hc => hblanks c (List.mem_append_left _ hc)⟩

/-- A comment can be taken away, with any of the blanks before it. They are no part of the stem,
which does not end with one. -/
theorem parse_of_comment {c : String} (hnewline : '\n' ∉ s) (h : Line.parse s = .ok line)
    (hsome : line.comment = some c) :
    (∃ plain, s = plain ++ c.toList) ∧
      ∀ plain gap, Blanks gap → s = plain ++ (gap ++ c.toList) →
        Line.parse plain = .ok { line with comment := none } := by
  obtain ⟨u, gap, ending, rfl, hstem, hgap, hending⟩ := (Written.of_parse h).exists_stem
  have hending : ending = c.toList := by
    rw [hsome] at hending
    cases hending with
    | @comment t r _ _ hend =>
      have hr : r = [] := by
        rcases hend with rfl | ⟨_, rfl⟩ | ⟨_, rfl⟩
        · rfl
        all_goals exact absurd (by simp) hnewline
      rw [hr, List.append_nil, String.toList_ofList]
  subst hending
  refine ⟨⟨u ++ gap, by simp⟩, fun plain b hb heq => ?_⟩
  rw [← List.append_assoc, ← List.append_assoc, List.append_cancel_right_eq] at heq
  rcases List.append_eq_append_iff.1 heq with ⟨a, rfl, rfl⟩ | ⟨a, rfl, rfl⟩
  · have := hstem.parse (fun c hc => hgap c (List.mem_append_left _ hc)) ending_nil
    rwa [List.append_nil] at this
  · have ha : a = [] := by
      rcases hstem.solid with hnil | hsolid
      · exact (List.append_eq_nil_iff.1 hnil).2
      · exact hsolid.eq_nil_of_blanks fun c hc => hb c (List.mem_append_left _ hc)
    have := hstem.parse blanks_nil ending_nil
    simpa [ha] using this

end Line

/-- Whether a text is a line with a comment added to it, with blanks before the comment or not. -/
def Commented (plain text : List Char) : Prop :=
  ∃ line c gap, Line.parse text = .ok line ∧ line.comment = some c ∧ Blanks gap ∧
    text = plain ++ (gap ++ c.toList)

end LittleComputer.Source

namespace LittleComputer.Text

variable {s : List Char}

/-! ## Lines of a source -/

/-- A piece has no line feed in it but at its end. -/
theorem exists_of_mem_piecesFrom {before piece : List Char} (hbefore : '\n' ∉ before)
    (h : piece ∈ piecesFrom before s) : ∃ t, '\n' ∉ t ∧ (piece = t ∨ piece = t ++ ['\n']) := by
  have hreverse : '\n' ∉ before.reverse := fun h => hbefore (List.mem_reverse.1 h)
  induction s generalizing before with
  | nil =>
    rw [piecesFrom] at h
    split at h
    · cases h
    · exact ⟨before.reverse, hreverse, Or.inl (List.mem_singleton.1 h)⟩
  | cons c r ih =>
    rw [piecesFrom] at h
    split at h
    · rename_i hc
      rcases List.mem_cons.1 h with rfl | h
      · exact ⟨before.reverse, hreverse, Or.inr (by rw [hc, List.reverse_cons])⟩
      · exact ih List.not_mem_nil h List.not_mem_nil
    · rename_i hc
      have hbefore' : '\n' ∉ c :: before := List.not_mem_cons_of_ne_of_not_mem (Ne.symm hc) hbefore
      exact ih hbefore' h fun h => hbefore' (List.mem_reverse.1 h)

/-- No line of a text has a line feed in it. -/
theorem not_mem_of_mem_lines {line : List Char} (h : line ∈ lines s) : '\n' ∉ line := by
  obtain ⟨piece, hpiece, rfl⟩ := List.mem_map.1 h
  obtain ⟨t, ht, heq⟩ := exists_of_mem_piecesFrom List.not_mem_nil hpiece
  have hsubset {r : List Char} (h : r <:+ t.reverse) : '\n' ∉ r.reverse := fun hr =>
    ht (List.mem_reverse.1 (h.subset (List.mem_reverse.1 hr)))
  rcases heq with rfl | rfl
  · have hhead (r : List Char) : piece.reverse ≠ '\n' :: r := fun heq =>
      ht (List.mem_reverse.1 (heq ▸ List.mem_cons_self))
    unfold withoutLineEnd
    split
    · exact absurd ‹_› (hhead _)
    · exact absurd ‹_› (hhead _)
    · exact ht
  · unfold withoutLineEnd
    rw [List.reverse_append, List.reverse_singleton, List.singleton_append]
    split
    · rename_i heq
      exact hsubset ((List.cons.inj heq).2 ▸ List.suffix_cons _ _)
    · rename_i heq
      exact hsubset ((List.cons.inj heq).2 ▸ List.suffix_rfl)
    · rename_i hne
      exact absurd rfl (hne t.reverse)

end LittleComputer.Text

namespace LittleComputer.Assembly

open Source

namespace Layout

variable {l : Layout} {requireOrigin : Bool} {number : Nat}

/-- A comment has no effect on what a line adds. -/
theorem addText_of_commented {plain text : List Char} (hnewline : '\n' ∉ text)
    (h : Commented plain text) :
    l.addText requireOrigin number plain = l.addText requireOrigin number text := by
  obtain ⟨line, c, gap, hparse, hsome, hgap, heq⟩ := h
  have hplain := (Line.parse_of_comment hnewline hparse hsome).2 plain gap hgap heq
  rw [addText, addText, hplain, hparse]
  rfl

/-- Lines that are added in the same way lay out the same program. -/
theorem addTexts_congr {texts texts' : List (List Char)}
    (h : List.Forall₂ (fun text text' => ∀ (l : Layout) number,
      l.addText requireOrigin number text = l.addText requireOrigin number text') texts texts') :
    addTexts requireOrigin number texts l = addTexts requireOrigin number texts' l := by
  induction h generalizing number l with
  | nil => rfl
  | cons htext _ ih =>
    rw [addTexts, addTexts, htext]
    split
    · rfl
    · split
      · rfl
      · exact ih

end Layout

/-- Sources whose lines differ by comments assemble to the same program, or with the same error. -/
theorem assemble_congr_comments {options : Options} {source source' : String}
    (h : List.Forall₂ (fun text text' => text = text' ∨ Commented text text' ∨ Commented text' text)
      (Text.lines source.toList) (Text.lines source'.toList)) :
    assemble options source = assemble options source' := by
  have hadd : List.Forall₂ (fun text text' => ∀ (l : Layout) number,
      l.addText options.requireOrigin number text =
        l.addText options.requireOrigin number text')
      (Text.lines source.toList) (Text.lines source'.toList) := by
    refine List.forall₂_iff_get.2 ⟨h.length_eq, fun i hi hi' l number => ?_⟩
    have hnewline := Text.not_mem_of_mem_lines (List.getElem_mem hi)
    have hnewline' := Text.not_mem_of_mem_lines (List.getElem_mem hi')
    rcases h.get hi hi' with heq | hcommented | hcommented
    · rw [heq]
    · exact Layout.addText_of_commented hnewline' hcommented
    · exact (Layout.addText_of_commented hnewline hcommented).symm
  rw [assemble, assemble, Layout.ofLines, Layout.ofLines, Layout.addTexts_congr hadd]

/-- A comment without a line feed can be added to a line if and only if there is no carriage return
in it and only blanks are between it and the line. It changes nothing but the comment of the line,
nor does taking it away, and sources that differ by comments assemble to the same program. -/
theorem comments_inert (options : Options) (source source' : String) (s t : List Char)
    (line : Line) :
    (Line.parse s = .ok line → line.comment = none → '\n' ∉ t →
      Line.parse (s ++ ' ' :: ';' :: t) =
        if '\r' ∉ t ∧ Blanks (s.rtakeWhile Text.isSpace) then
          .ok { line with comment := some (String.ofList (';' :: t)) }
        else .error ⟨String.ofList (Text.trim (';' :: t))⟩) ∧
      (∀ c, '\n' ∉ s → Line.parse s = .ok line → line.comment = some c →
        (∃ plain, s = plain ++ c.toList) ∧
          ∀ plain gap, Blanks gap → s = plain ++ (gap ++ c.toList) →
            Line.parse plain = .ok { line with comment := none }) ∧
      (List.Forall₂ (fun text text' => text = text' ∨ Commented text text' ∨ Commented text' text)
        (Text.lines source.toList) (Text.lines source'.toList) →
          assemble options source = assemble options source') := by
  refine ⟨?_, ?_, ?_⟩
  · intro h hnone hnewline
    exact Line.parse_append_comment h hnone hnewline
  · intro c hnewline h hsome
    exact Line.parse_of_comment hnewline h hsome
  · intro h
    exact assemble_congr_comments h

/-- An instruction is the same with a comment after it. -/
theorem comments_inert_halt :
    Line.parse "HALT ;a".toList = .ok ⟨none, some (.instruction "HALT" []), some ";a"⟩ ∧
      assemble {} "HALT" = assemble {} "HALT ;a" := by
  obtain ⟨hadd, _, hsource⟩ := comments_inert {} "HALT" "HALT ;a" "HALT".toList "a".toList
    ⟨none, some (.instruction "HALT" []), none⟩
  have hparse := hadd (by decide +kernel) rfl (by decide +kernel)
  rw [if_pos ⟨by decide +kernel, by decide +kernel⟩] at hparse
  have hlines : Text.lines "HALT".toList = ["HALT".toList] := by decide +kernel
  have hlines' : Text.lines "HALT ;a".toList = ["HALT".toList ++ ' ' :: ';' :: "a".toList] := by
    decide +kernel
  refine ⟨hparse, hsource ?_⟩
  rw [hlines, hlines']
  exact .cons (Or.inr (Or.inl ⟨_, _, [' '], hparse, rfl, by decide, rfl⟩)) .nil

/-- A source that no longer assembles once it has a comment with a carriage return in it. -/
theorem not_inert_of_return :
    Line.parse "HALT".toList = .ok ⟨none, some (.instruction "HALT" []), none⟩ ∧
      Line.parse ("HALT".toList ++ ' ' :: ';' :: "a\rb".toList) = .error ⟨";a\rb"⟩ ∧
      assemble {} "HALT" = .ok ⟨0x3000, [0xF025], []⟩ ∧
      assemble {} "HALT ;a\rb" = .error ⟨1, .malformedOperand ";a\rb"⟩ :=
  ⟨by decide +kernel, by decide +kernel, by decide +kernel, by decide +kernel⟩

end LittleComputer.Assembly
