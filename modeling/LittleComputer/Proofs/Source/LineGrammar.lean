import LittleComputer.Proofs.Source.Grammar
import Mathlib

/-!
# How lines are written

A line is blanks, a label with or without a colon, a mnemonic or directive with its operands, and a
comment, with nothing else in between. A text is read as a line if and only if it is a way to write
that line, where the first word is a label unless the rest of the line speaks against it.
-/

namespace LittleComputer.Source

variable {s t q r : List Char} {name : String}

/-! ## Ends of lines -/

/-- How a line ends: with a comment, which goes on to the end of its line, and then white space. -/
inductive Ending : Option String → List Char → Prop
  | blank {s : List Char} (h : ∀ c ∈ s, Text.isSpace c = true) : Ending none s
  | comment {t r : List Char} (ht : ∀ c ∈ t, Text.isLineEnd c = false)
    (hr : ∀ c ∈ r, Text.isSpace c = true)
    (hend : r = [] ∨ (∃ u, r = '\n' :: u) ∨ ∃ u, r = '\r' :: '\n' :: u) :
    Ending (some (String.ofList (';' :: t))) (';' :: (t ++ r))

/-- A line can end without anything after its content. -/
theorem ending_nil : Ending none [] := .blank fun c hc => by cases hc

/-- A comment can stand at the very end. -/
theorem ending_of_onLine (ht : ∀ c ∈ t, Text.isLineEnd c = false) :
    Ending (some (String.ofList (';' :: t))) (';' :: t) := by
  have := Ending.comment (r := []) ht (fun c hc => by cases hc) (Or.inl rfl)
  rwa [List.append_nil] at this

/-- After the content there are no more operands. -/
theorem Ending.finished {comment : Option String} {gap : List Char} (h : Ending comment s)
    (hgap : Blanks gap) : Finished (gap ++ s) := by
  rw [Finished, hgap.skipBlanks_append]
  intro c hc
  cases h with
  | blank h =>
    refine Or.inr (h c ?_)
    exact (List.dropWhile_suffix Text.isBlank).subset (List.mem_of_mem_head? hc)
  | comment =>
    cases hc
    exact Or.inl rfl

/-- A comment is read up to the end of its line. -/
theorem comment_append (ht : ∀ c ∈ t, Text.isLineEnd c = false)
    (hend : r = [] ∨ (∃ u, r = '\n' :: u) ∨ ∃ u, r = '\r' :: '\n' :: u) :
    comment (';' :: (t ++ r)) = some (String.ofList (';' :: t), r) := by
  have hline : ∀ c ∈ ';' :: t, (!Text.isLineEnd c) = true := by
    intro c hc
    rcases List.mem_cons.1 hc with rfl | hc
    · rfl
    · rw [ht c hc]
      rfl
  have hrest : r.takeWhile (!Text.isLineEnd ·) = [] ∧ r.dropWhile (!Text.isLineEnd ·) = r := by
    rcases hend with rfl | ⟨u, rfl⟩ | ⟨u, rfl⟩ <;> exact ⟨rfl, rfl⟩
  have htake : (';' :: (t ++ r)).takeWhile (!Text.isLineEnd ·) = ';' :: t := by
    rw [← List.cons_append, List.takeWhile_append_of_pos hline, hrest.1, List.append_nil]
  have hdrop : (';' :: (t ++ r)).dropWhile (!Text.isLineEnd ·) = r := by
    rw [← List.cons_append, List.dropWhile_append_of_pos hline, hrest.2]
  simp only [comment, htake, hdrop]
  rcases hend with rfl | ⟨u, rfl⟩ | ⟨u, rfl⟩ <;> rfl

/-- A comment that is read, with white space after it, ends a line. -/
theorem ending_of_comment {c : String} (h : comment q = some (c, r))
    (hr : ∀ c ∈ r, Text.isSpace c = true) : Ending (some c) q := by
  unfold comment at h
  split at h
  · rename_i t
    have hsplit : (';' :: t).takeWhile (!Text.isLineEnd ·) =
        ';' :: t.takeWhile (!Text.isLineEnd ·) := rfl
    have hdrop : (';' :: t).dropWhile (!Text.isLineEnd ·) = t.dropWhile (!Text.isLineEnd ·) := rfl
    have ht : ∀ c ∈ t.takeWhile (!Text.isLineEnd ·), Text.isLineEnd c = false := by
      intro c hc
      simpa using List.mem_takeWhile_imp hc
    rw [hsplit, hdrop] at h
    have hhead := List.head?_dropWhile_not (!Text.isLineEnd ·) t
    have hending (hend : t.dropWhile (!Text.isLineEnd ·) = [] ∨
        (∃ u, t.dropWhile (!Text.isLineEnd ·) = '\n' :: u) ∨
          ∃ u, t.dropWhile (!Text.isLineEnd ·) = '\r' :: '\n' :: u)
        (hspace : ∀ c ∈ t.dropWhile (!Text.isLineEnd ·), Text.isSpace c = true) :
        Ending (some (String.ofList (';' :: t.takeWhile (!Text.isLineEnd ·)))) (';' :: t) := by
      have := Ending.comment ht hspace hend
      rwa [List.takeWhile_append_dropWhile] at this
    split at h
    · rename_i u hu
      cases h
      exact hending (.inr (.inr ⟨u, hu⟩)) (hu ▸ hr)
    · cases h
    · rename_i hreturn
      cases h
      refine hending ?_ hr
      cases hu : t.dropWhile (!Text.isLineEnd ·) with
      | nil => exact .inl rfl
      | cons d u =>
        rw [hu] at hhead
        have hd : d = '\n' ∨ d = '\r' := by simpa [Text.isLineEnd, or_iff_not_imp_left] using hhead
        rcases hd with rfl | rfl
        · exact .inr (.inl ⟨u, rfl⟩)
        · exact absurd hu (hreturn u)
  · cases h

/-! ## Labels and content -/

namespace Content

/-- Ways to write an instruction or directive. -/
inductive Written : Content → List Char → Prop
  | instruction {name : String} {os : List Operand} {s : List Char} (hname : IsWord name.toList)
    (h : Arguments os s) : Written (.instruction name os) (name.toList ++ s)
  | directive {name : String} {os : List Operand} {s : List Char} (hname : IsWord name.toList)
    (h : Arguments os s) : Written (.directive name os) ('.' :: (name.toList ++ s))

/-- Whether the name of an instruction is not taken for a label where it is the first word of a
line: it cannot be one, or it has an operand that follows no label. -/
def StandsFirst : Content → Prop
  | .instruction name os => isLabelName name = false ∨ os.head?.any Operand.isValue = true
  | .directive .. => True

/-- Whether the name of an instruction is not taken for an operand where it is the second word of a
line. -/
def StandsSecond : Content → Prop
  | .instruction name _ => Register.ofName? name = none ∧ hexLiteral? name = none
  | .directive .. => True

end Content

/-- Ways to write the content that a line has, if any. -/
inductive Body : Option Content → List Char → Prop
  | none : Body none []
  | some {c : Content} {s : List Char} (h : c.Written s) : Body (some c) s

/-- How a line begins, up to its content: with a label, or else with something that is not mistaken
for one. -/
inductive Opening : Option String → Option Content → List Char → Prop
  | unlabelled {content : Option Content} {lead : List Char} (hlead : Blanks lead)
    (hfirst : ∀ c ∈ content, c.StandsFirst) : Opening none content lead
  | colon {content : Option Content} {name : String} {lead before after : List Char}
    (hlead : Blanks lead) (hword : IsWord name.toList) (hname : isLabelName name = true)
    (hbefore : Blanks before) (hafter : Blanks after) :
    Opening (some name) content (lead ++ (name.toList ++ (before ++ ':' :: after)))
  | bare {content : Option Content} {name : String} {lead after : List Char} (hlead : Blanks lead)
    (hword : IsWord name.toList) (hname : isLabelName name = true) (hafter : Blanks after)
    (hsecond : ∀ c ∈ content, c.StandsSecond)
    (hapart : ∀ mnemonic os, content = some (.instruction mnemonic os) → after ≠ []) :
    Opening (some name) content (lead ++ (name.toList ++ after))

/-- A word is the name of a label unless it is a mnemonic or a register. -/
theorem labelName_of_word (hword : IsWord name.toList) (hr : Ends r) :
    labelName (name.toList ++ r) = if isLabelName name then some (name, r) else none := by
  rw [labelName, word_append hword hr, String.ofList_toList]
  rfl

/-- A word is a label before a colon, or before anything that is no value. -/
theorem label_of_word (hword : IsWord name.toList) (hname : isLabelName name = true) (hr : Ends r) :
    label (name.toList ++ r) =
      match afterColon r with
      | some rest => some (name, rest)
      | none => if startsWithValue r then none else some (name, r) := by
  rw [label, labelName_of_word hword hr, if_pos hname]
  rfl

/-- No word is read where none begins. -/
theorem word_eq_none_of_head (h : ∀ c ∈ s.head?, isWordStart c = false) : word s = none := by
  cases s with
  | nil => rfl
  | cons c t => rw [word, h c rfl]; rfl

/-- No label is read where no word begins. -/
theorem label_eq_none_of_head (h : ∀ c ∈ s.head?, isWordStart c = false) : label s = none := by
  rw [label, labelName, word_eq_none_of_head h]
  rfl

/-- What begins no operand begins no word. -/
theorem isWordStart_of_isOperandStart {c : Char} (h : isOperandStart c = false) :
    isWordStart c = false := by
  simp only [isOperandStart, isWordChar, Bool.or_eq_false_iff] at h
  exact h.2.1

/-- After the content no word begins. -/
theorem Finished.isWordStart_head (hr : Finished r) :
    ∀ c ∈ (Text.skipBlanks r).head?, isWordStart c = false := fun c hc =>
  isWordStart_of_isOperandStart (hr.isOperandStart_head c hc)

/-- No colon is read where there is another character behind the blanks. -/
theorem afterColon_eq_none (h : (Text.skipBlanks s).head? ≠ some ':') : afterColon s = none := by
  unfold afterColon
  split
  · rename_i heq
    rw [heq] at h
    exact absurd rfl h
  · rfl

/-- What is read as a colon is one, with blanks before it. -/
theorem exists_blanks_of_afterColon (h : afterColon s = some r) :
    ∃ b, Blanks b ∧ s = b ++ ':' :: r := by
  unfold afterColon at h
  split at h
  · rename_i t ht
    cases h
    obtain ⟨b, hb, heq⟩ := exists_blanks_append_skipBlanks s
    exact ⟨b, hb, by rw [← ht, ← heq]⟩
  · cases h

/-! ## Content -/

namespace Content

variable {c : Content}

/-- There are no blanks at the front of a content. -/
theorem Written.skipBlanks_append (h : c.Written s) : Text.skipBlanks (s ++ r) = s ++ r := by
  cases h with
  | instruction hname =>
    obtain ⟨d, t, hd, hstart⟩ := hname.exists_cons
    rw [hd]
    refine skipBlanks_of_head fun e he => ?_
    cases he
    refine Bool.eq_false_iff.2 fun hblank => ?_
    have hword := isWordChar_of_isBlank hblank
    rw [isWordChar, hstart] at hword
    cases hword
  | directive => rfl

/-- What is written as an instruction or directive is read as it. -/
theorem content_append (h : c.Written s) (hr : Finished r) : content (s ++ r) = some (c, r) := by
  cases h with
  | @instruction name os s hname h =>
    have hword := word_append hname (h.ends hr.ends)
    rw [String.ofList_toList] at hword
    rw [List.append_assoc]
    unfold content
    split
    · rename_i heq
      obtain ⟨d, t, hd, hstart⟩ := hname.exists_cons
      rw [hd] at heq
      cases (List.cons.inj heq).1
      cases hstart
    · simp only [hword, Option.bind_eq_bind, Option.bind_some, operands_append h hr]
  | @directive name os s hname h =>
    have hword := word_append hname (h.ends hr.ends)
    rw [String.ofList_toList] at hword
    rw [List.cons_append, List.append_assoc]
    simp only [content, hword, Option.bind_eq_bind, Option.bind_some, operands_append h hr]

/-- What is read as a content is a way to write it. -/
theorem exists_written_of_content (h : content q = some (c, r)) :
    ∃ s, q = s ++ r ∧ c.Written s := by
  unfold content at h
  split at h
  · simp only [Option.bind_eq_bind, Option.bind_eq_some_iff, Option.some.injEq, Prod.mk.injEq,
      Prod.exists] at h
    obtain ⟨name, t, hword, rfl, rfl⟩ := h
    obtain ⟨hname, _, rfl⟩ := word_eq_some_iff.1 hword
    obtain ⟨s, hs, hargs⟩ := exists_arguments t
    refine ⟨'.' :: (name.toList ++ s), ?_, .directive hname hargs⟩
    rw [List.cons_append, List.append_assoc, ← hs]
  · simp only [Option.bind_eq_bind, Option.bind_eq_some_iff, Option.some.injEq, Prod.mk.injEq,
      Prod.exists] at h
    obtain ⟨name, t, hword, rfl, rfl⟩ := h
    obtain ⟨hname, _, rfl⟩ := word_eq_some_iff.1 hword
    obtain ⟨s, hs, hargs⟩ := exists_arguments t
    refine ⟨name.toList ++ s, ?_, .instruction hname hargs⟩
    rw [List.append_assoc, ← hs]

end Content

/-- At the end of a line no content is read. -/
theorem content_eq_none_of_finished (hr : Finished r) : content (Text.skipBlanks r) = none := by
  unfold content
  split
  · rename_i heq
    rcases hr '.' (by rw [heq]; rfl) with hc | hc <;> cases hc
  · rw [word_eq_none_of_head hr.isWordStart_head]
    rfl

section Body

variable {content : Option Content} (hs : Body content s) (hr : Finished r)
include hs hr

/-- The content of a line is read, if there is any, and then its ending is left. -/
theorem optional_content :
    ∃ t, optional Source.content (Text.skipBlanks (s ++ r)) = (content, t) ∧
      Text.skipBlanks t = Text.skipBlanks r := by
  cases hs with
  | none =>
    rw [List.nil_append, optional, content_eq_none_of_finished hr]
    exact ⟨_, rfl, skipBlanks_skipBlanks r⟩
  | some h =>
    rw [h.skipBlanks_append, optional, Content.content_append h hr]
    exact ⟨r, rfl, rfl⟩

/-- A content does not begin with a colon. -/
theorem head_body_ne_colon : (Text.skipBlanks (s ++ r)).head? ≠ some ':' := by
  intro hcolon
  cases hs with
  | none =>
    rw [List.nil_append] at hcolon
    rcases hr ':' hcolon with hc | hc <;> cases hc
  | some h =>
    rw [h.skipBlanks_append] at hcolon
    cases h with
    | instruction hname =>
      obtain ⟨d, t, hd, hstart⟩ := hname.exists_cons
      rw [hd] at hcolon
      cases hcolon
      cases hstart
    | directive => cases hcolon

/-- No value begins where a content stands that can follow a label. -/
theorem isValue_of_scan_body (hsecond : ∀ c ∈ content, c.StandsSecond) {o : Operand}
    (h : Operand.scan (Text.skipBlanks (s ++ r)) = some (o, t)) : o.isValue = false := by
  cases hs with
  | none =>
    rw [List.nil_append, hr.scan] at h
    cases h
  | some hc =>
    rw [hc.skipBlanks_append] at h
    cases hc with
    | @instruction name os s hname hargs =>
      obtain ⟨hregister, hnumber⟩ := hsecond _ rfl
      have hlabel := Operand.scan_append (.label hname hregister hnumber)
        (hargs.ends hr.ends : (Operand.label name).EndsBefore _)
      rw [List.append_assoc, hlabel] at h
      cases h
      rfl
    | directive =>
      rw [Operand.scan_eq_none_of_head fun c hc => by cases hc; rfl] at h
      cases h

end Body

/-! ## Openings -/

section Opening

variable {content : Option Content} {opening : List Char} {labelled : Option String}

/-- No colon is read before a content, whatever blanks are there. -/
theorem afterColon_body {after : List Char} (hafter : Blanks after) (hs : Body content s)
    (hr : Finished r) : afterColon (after ++ (s ++ r)) = none := by
  refine afterColon_eq_none ?_
  rw [hafter.skipBlanks_append]
  exact head_body_ne_colon hs hr

/-- A content that can stand second is not taken for an operand of a label. -/
theorem startsWithValue_body {after : List Char} (hafter : Blanks after) (hs : Body content s)
    (hr : Finished r) (hsecond : ∀ c ∈ content, c.StandsSecond) :
    startsWithValue (after ++ (s ++ r)) = false := by
  refine Bool.eq_false_iff.2 fun hvalue => ?_
  obtain ⟨b, t, u, o, heq, _, hb, ht, hu, ho⟩ := startsWithValue_iff.1 hvalue
  have hskip : Text.skipBlanks (s ++ r) = t ++ u := by
    rw [← hafter.skipBlanks_append, heq, hb.skipBlanks_append, ht.skipBlanks_append]
  have hscan := Operand.scan_append ht hu
  rw [← hskip] at hscan
  rw [isValue_of_scan_body hs hr hsecond hscan] at ho
  cases ho

/-- A word before the content ends there, if blanks keep it apart from an instruction. -/
theorem ends_body (hs : Body content s) (hr : Finished r) {after : List Char}
    (hafter : Blanks after)
    (hapart : ∀ mnemonic os, content = some (.instruction mnemonic os) → after ≠ []) :
    Ends (after ++ (s ++ r)) := by
  cases after with
  | cons c after => exact ends_cons (isWordChar_of_isBlank (hafter c List.mem_cons_self))
  | nil =>
    cases hs with
    | none => exact hr.ends
    | some h =>
      cases h with
      | instruction => exact absurd rfl (hapart _ _ rfl)
      | directive => exact ends_cons rfl

/-- No label is read where a content can stand first. A name that could be a label has an operand
that is a value, and that keeps it from being one. -/
theorem label_eq_none_of_unlabelled (hs : Body content s) (hr : Finished r)
    (hfirst : ∀ c ∈ content, c.StandsFirst) : label (Text.skipBlanks (s ++ r)) = none := by
  cases hs with
  | none => exact label_eq_none_of_head hr.isWordStart_head
  | some h =>
    rw [h.skipBlanks_append]
    cases h with
    | @instruction name os s hname hargs =>
      have hends := hargs.ends hr.ends
      rw [List.append_assoc]
      by_cases hlabel : isLabelName name = true
      · have hcolon : afterColon (s ++ r) = none := by
          refine afterColon_eq_none fun hcolon => ?_
          cases hargs with
          | none => exact head_body_ne_colon .none hr hcolon
          | some hne hb ho hrest =>
            rw [List.append_assoc, hb.skipBlanks_append, List.append_assoc,
              ho.skipBlanks_append] at hcolon
            obtain ⟨c, t, rfl, hc⟩ := ho.exists_cons
            cases hcolon
            cases hc
        have hvalue := (hfirst _ rfl).resolve_left (by rw [hlabel]; decide)
        rw [label_of_word hname hlabel hends, hcolon]
        exact if_pos ((startsWithValue_append hargs hr).trans hvalue)
      · rw [label, labelName_of_word hname hends, if_neg hlabel]
        rfl
    | directive => exact label_eq_none_of_head fun c hc => by cases hc; rfl

/-- The label of a line is read, if there is one, and then the content is left, up to blanks. -/
theorem optional_label (hopening : Opening labelled content opening) (hs : Body content s)
    (hr : Finished r) :
    ∃ t, optional label (Text.skipBlanks (opening ++ (s ++ r))) = (labelled, t) ∧
      Text.skipBlanks t = Text.skipBlanks (s ++ r) := by
  cases hopening with
  | unlabelled hlead hfirst =>
    rw [hlead.skipBlanks_append, optional, label_eq_none_of_unlabelled hs hr hfirst]
    exact ⟨_, rfl, skipBlanks_skipBlanks (s ++ r)⟩
  | @colon _ name lead before after hlead hword hname hbefore hafter =>
    have hcolon : afterColon (before ++ ':' :: (after ++ (s ++ r))) = some (after ++ (s ++ r)) := by
      rw [afterColon, hbefore.skipBlanks_append]
      rfl
    have htext : Text.skipBlanks (lead ++ (name.toList ++ (before ++ ':' :: after)) ++ (s ++ r)) =
        name.toList ++ (before ++ ':' :: (after ++ (s ++ r))) := by
      have := Content.Written.skipBlanks_append (r := before ++ ':' :: (after ++ (s ++ r)))
        (.instruction hword .none)
      rw [List.append_nil] at this
      rw [List.append_assoc, hlead.skipBlanks_append]
      simpa using this
    rw [htext, optional, label_of_word hword hname (hbefore.ends (ends_cons rfl)), hcolon]
    exact ⟨_, rfl, hafter.skipBlanks_append⟩
  | @bare _ name lead after hlead hword hname hafter hsecond hapart =>
    have htext : Text.skipBlanks (lead ++ (name.toList ++ after) ++ (s ++ r)) =
        name.toList ++ (after ++ (s ++ r)) := by
      have := Content.Written.skipBlanks_append (r := after ++ (s ++ r)) (.instruction hword .none)
      rw [List.append_nil] at this
      rw [List.append_assoc, hlead.skipBlanks_append]
      simpa using this
    rw [htext, optional, label_of_word hword hname (ends_body hs hr hafter hapart),
      afterColon_body hafter hs hr, startsWithValue_body hafter hs hr hsecond]
    exact ⟨_, rfl, hafter.skipBlanks_append⟩

end Opening

/-! ## Whole lines -/

namespace Line

/-- Ways to write a line. -/
inductive Written : Line → List Char → Prop
  | mk {label : Option String} {content : Option Content} {comment : Option String}
    {opening body gap ending : List Char} (hopening : Opening label content opening)
    (hbody : Body content body) (hgap : Blanks gap) (hending : Ending comment ending) :
    Written ⟨label, content, comment⟩ (opening ++ (body ++ (gap ++ ending)))

variable {line : Line}

/-- A line is read part by part, each behind its blanks. -/
theorem scan_eq {label : Option String} {content : Option Content} {comment : Option String}
    {s₁ s₂ s₃ : List Char} (hlabel : optional Source.label (Text.skipBlanks s) = (label, s₁))
    (hcontent : optional Source.content (Text.skipBlanks s₁) = (content, s₂))
    (hcomment : optional Source.comment (Text.skipBlanks s₂) = (comment, s₃)) :
    scan s = (⟨label, content, comment⟩, s₃) := by
  have hskip : (if label.isSome then Text.skipBlanks s₁ else s₁) = Text.skipBlanks s₁ := by
    unfold optional at hlabel
    split at hlabel
    · cases hlabel
      rfl
    · cases hlabel
      exact (skipBlanks_skipBlanks s).symm
  unfold scan
  simp only [hlabel, hskip, hcontent, hcomment]

/-- The comment at the end of a line is read, and leaves white space only. -/
theorem optional_comment {comment : Option String} (h : Ending comment s) :
    ∃ t, optional Source.comment (Text.skipBlanks s) = (comment, t) ∧
      ∀ c ∈ t, Text.isSpace c = true := by
  cases h with
  | blank h =>
    have hskip : ∀ c ∈ Text.skipBlanks s, Text.isSpace c = true := fun c hc =>
      h c ((List.dropWhile_suffix Text.isBlank).subset hc)
    have hnone : Source.comment (Text.skipBlanks s) = none := by
      unfold Source.comment
      split
      · rename_i heq
        have := hskip ';' (by rw [heq]; exact List.mem_cons_self)
        cases this
      · rfl
    rw [optional, hnone]
    exact ⟨_, rfl, hskip⟩
  | @comment t r ht hr hend =>
    have hskip : Text.skipBlanks (';' :: (t ++ r)) = ';' :: (t ++ r) := rfl
    rw [hskip, optional, comment_append ht hend]
    exact ⟨r, rfl, hr⟩

/-- The label and content of a line are read whatever its ending, and then the comment is tried. -/
theorem scan_append {label : Option String} {content : Option Content} {opening body : List Char}
    (hopening : Opening label content opening) (hbody : Body content body) (hr : Finished r) :
    scan (opening ++ (body ++ r)) =
      (⟨label, content, (optional Source.comment (Text.skipBlanks r)).1⟩,
        (optional Source.comment (Text.skipBlanks r)).2) := by
  obtain ⟨s₁, hlabel, hs₁⟩ := optional_label hopening hbody hr
  obtain ⟨s₂, hcontent, hs₂⟩ := optional_content hbody hr
  rw [← hs₁] at hcontent
  rw [← hs₂]
  exact scan_eq hlabel hcontent rfl

/-- What is written as a line is read as that line. -/
theorem Written.parse (h : line.Written s) : Line.parse s = .ok line := by
  obtain ⟨hopening, hbody, hgap, hending⟩ := h
  obtain ⟨t, hcomment, hspace⟩ := optional_comment hending
  rw [parse_eq_ok_iff, scan_append hopening hbody (hending.finished hgap),
    hgap.skipBlanks_append, hcomment]
  exact ⟨rfl, List.all_eq_true.2 hspace⟩

/-- What is read at the end of a line is blanks and an ending. -/
theorem exists_gap_ending {comment : Option String}
    (h : optional Source.comment (Text.skipBlanks s) = (comment, r))
    (hr : ∀ c ∈ r, Text.isSpace c = true) :
    ∃ gap ending, s = gap ++ ending ∧ Blanks gap ∧ Ending comment ending := by
  obtain ⟨gap, hgap, hs⟩ := exists_blanks_append_skipBlanks s
  refine ⟨gap, Text.skipBlanks s, hs, hgap, ?_⟩
  unfold optional at h
  split at h
  · rename_i hcomment
    cases h
    exact ending_of_comment hcomment hr
  · cases h
    exact .blank hr

/-- What is read in the middle of a line is a way to write its content. -/
theorem exists_body {content : Option Content} (h : optional Source.content s = (content, r)) :
    ∃ body, s = body ++ r ∧ Body content body := by
  unfold optional at h
  split at h
  · rename_i hcontent
    cases h
    obtain ⟨body, hs, hbody⟩ := Content.exists_written_of_content hcontent
    exact ⟨body, hs, .some hbody⟩
  · cases h
    exact ⟨[], rfl, .none⟩

/-- A content before which no label is read can stand first. -/
theorem standsFirst_of_label {content : Option Content} (hs : Body content s) (hr : Finished r)
    (h : Source.label (s ++ r) = none) : ∀ c ∈ content, c.StandsFirst := by
  intro c hc
  cases hs with
  | none => cases hc
  | some hs =>
    cases hc
    cases hs with
    | directive => trivial
    | @instruction name os s hname hargs =>
      refine or_iff_not_imp_left.2 fun hlabel => ?_
      rw [Bool.not_eq_false] at hlabel
      rw [List.append_assoc, label_of_word hname hlabel (hargs.ends hr.ends)] at h
      split at h
      · cases h
      · split at h
        · rename_i hvalue
          rwa [startsWithValue_append hargs hr] at hvalue
        · cases h

/-- A content that is no operand of the word before it can stand second. A name that could be read
as a value would have kept that word from being a label. -/
theorem standsSecond_of_startsWithValue {content : Option Content} {after : List Char}
    (hs : Body content s) (hr : Finished r) (hafter : Blanks after)
    (hends : Ends (after ++ (s ++ r))) (h : startsWithValue (after ++ (s ++ r)) = false) :
    (∀ c ∈ content, c.StandsSecond) ∧
      ∀ mnemonic os, content = some (.instruction mnemonic os) → after ≠ [] := by
  have hapart : ∀ mnemonic os, content = some (.instruction mnemonic os) → after ≠ [] := by
    rintro mnemonic os rfl rfl
    cases hs with
    | some hs =>
      cases hs with
      | instruction hname =>
        obtain ⟨c, t, hc, hstart⟩ := hname.exists_cons
        rw [hc] at hends
        have hword := hends c rfl
        rw [isWordChar, hstart] at hword
        cases hword
  refine ⟨fun c hc => ?_, hapart⟩
  cases hs with
  | none => cases hc
  | some hs =>
    cases hc
    cases hs with
    | directive => trivial
    | @instruction name os s hname hargs =>
      have hvalue (o : Operand) (ho : o.isValue = true) (hwritten : o.Written name.toList)
          (hbefore : o.EndsBefore (s ++ r)) : False := by
        have : ValueFollows (after ++ (name.toList ++ s ++ r)) :=
          ⟨after, name.toList, s ++ r, o, by rw [List.append_assoc], hapart _ _ rfl, hafter,
            hwritten, hbefore, ho⟩
        rw [startsWithValue_iff.2 this] at h
        cases h
      have hends := hargs.ends hr.ends
      constructor
      · refine Option.eq_none_iff_forall_ne_some.2 fun i hi => ?_
        exact hvalue (.register i) rfl (.register hname hi) hends
      · refine Option.eq_none_iff_forall_ne_some.2 fun n hn => ?_
        exact hvalue (.number n) rfl (.number (numeral_of_hexLiteral? hn)) hends

/-- A label is read as it stands in front of a colon, or of something that is no value. -/
theorem exists_word_of_label (h : Source.label q = some (name, r)) :
    ∃ t, q = name.toList ++ t ∧ IsWord name.toList ∧ isLabelName name = true ∧ Ends t ∧
      (afterColon t = some r ∨ startsWithValue t = false ∧ t = r) := by
  simp only [Source.label, labelName, Option.bind_eq_bind, Option.bind_eq_some_iff,
    Prod.exists] at h
  obtain ⟨_, _, ⟨_, _, hword, hname⟩, h⟩ := h
  obtain ⟨hspelled, hends, rfl⟩ := word_eq_some_iff.1 hword
  split at hname
  · rename_i hlabel
    cases hname
    split at h
    · rename_i hcolon
      cases h
      exact ⟨_, rfl, hspelled, hlabel, hends, .inl hcolon⟩
    · split at h
      · cases h
      · rename_i hvalue
        cases h
        exact ⟨_, rfl, hspelled, hlabel, hends, .inr ⟨Bool.not_eq_true _ ▸ hvalue, rfl⟩⟩
  · cases hname

/-- What is read as a line is a way to write it. Its parts are found from the end to the front,
since each is recognised by what follows it. -/
theorem Written.of_parse (h : Line.parse s = .ok line) : line.Written s := by
  rcases hlabel : optional Source.label (Text.skipBlanks s) with ⟨label, s₁⟩
  rcases hcontent : optional Source.content (Text.skipBlanks s₁) with ⟨content, s₂⟩
  rcases hcomment : optional Source.comment (Text.skipBlanks s₂) with ⟨comment, s₃⟩
  rw [parse_eq_ok_iff, scan_eq hlabel hcontent hcomment] at h
  obtain ⟨rfl, hspace⟩ := h
  obtain ⟨gap, ending, rfl, hgap, hending⟩ :=
    exists_gap_ending hcomment (List.all_eq_true.1 hspace)
  obtain ⟨body, hs₁, hbody⟩ := exists_body hcontent
  have hr := hending.finished hgap
  obtain ⟨lead, hlead, hs⟩ := exists_blanks_append_skipBlanks s
  unfold optional at hlabel
  split at hlabel
  · rename_i name _ hname
    cases hlabel
    obtain ⟨t, ht, hword, hlabelName, hends, hafter⟩ := exists_word_of_label hname
    obtain ⟨after, hblanks, hrest⟩ := exists_blanks_append_skipBlanks s₁
    rw [hs₁] at hrest
    rcases hafter with hcolon | ⟨hvalue, rfl⟩
    · obtain ⟨before, hbefore, rfl⟩ := exists_blanks_of_afterColon hcolon
      have := Written.mk (.colon hlead hword hlabelName hbefore hblanks) hbody hgap hending
      rw [hs, ht, hrest]
      simpa using this
    · rw [hrest] at hends hvalue
      obtain ⟨hsecond, hapart⟩ := standsSecond_of_startsWithValue hbody hr hblanks hends hvalue
      have := Written.mk (.bare hlead hword hlabelName hblanks hsecond hapart) hbody hgap hending
      rw [hs, ht, hrest]
      simpa using this
  · rename_i hnone
    cases hlabel
    rw [skipBlanks_skipBlanks] at hs₁
    have hfirst := standsFirst_of_label hbody hr (by rw [← hs₁]; exact hnone)
    rw [hs, hs₁]
    exact .mk (.unlabelled hlead hfirst) hbody hgap hending

/-- A text is read as a line if and only if it is a way to write that line. -/
theorem parse_eq_ok_iff_written : Line.parse s = .ok line ↔ line.Written s :=
  ⟨Written.of_parse, Written.parse⟩

end Line

end LittleComputer.Source
