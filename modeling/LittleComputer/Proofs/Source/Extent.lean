import LittleComputer.Source.Line
import LittleComputer.Text.Utf8
import Mathlib

/-!
# How long strings can be

A string of the source is never longer than what spells it, escapes and quotes included. So it is no
longer than its line, which in turn is no longer than the source.
-/

namespace LittleComputer

namespace Text

/-! ## Lines and bytes -/

/-- Every character has a byte of its own at least. -/
theorem length_le_utf8Size (s : List Char) : s.length ≤ utf8Size s := by
  induction s with
  | nil => exact Nat.le_refl _
  | cons c r ih =>
    have := c.utf8Size_pos
    rw [List.length_cons, utf8Size_cons]
    omega

/-- The first 128 characters take a byte each. -/
theorem utf8Size_of_ascii {s : List Char} (h : ∀ c ∈ s, c.toNat < 128) :
    utf8Size s = s.length := by
  induction s with
  | nil => rfl
  | cons c r ih =>
    have hc : c.utf8Size = 1 := by
      have : c.val.toNat < 128 := h c List.mem_cons_self
      refine Char.utf8Size_eq_one_iff.2 (UInt32.le_iff_toNat_le.2 ?_)
      exact Nat.le_of_lt_succ this
    have ih := ih fun d hd => h d (List.mem_cons_of_mem c hd)
    rw [utf8Size_cons, ih, hc, List.length_cons]
    omega

/-- To skip blanks makes no text longer. -/
theorem length_skipSomeBlanks_le {s r : List Char} (h : skipSomeBlanks s = some r) :
    r.length ≤ s.length := by
  unfold skipSomeBlanks at h
  split at h
  · rename_i c q
    split at h
    · cases h
      have := length_skipBlanks_le q
      rw [List.length_cons]
      omega
    · cases h
  · cases h

/-- A line is no longer than the piece that it comes from. -/
theorem length_withoutLineEnd_le (piece : List Char) :
    (withoutLineEnd piece).length ≤ piece.length := by
  unfold withoutLineEnd
  split
  · rename_i r h
    have := congrArg List.length h
    simp only [List.length_reverse, List.length_cons] at this ⊢
    omega
  · rename_i r _ h
    have := congrArg List.length h
    simp only [List.length_reverse, List.length_cons] at this ⊢
    omega
  · exact Nat.le_refl _

/-- A line is no longer than the text. -/
theorem length_le_of_mem_lines {s line : List Char} (h : line ∈ lines s) :
    line.length ≤ s.length := by
  obtain ⟨piece, hpiece, rfl⟩ := List.mem_map.1 h
  have hle : piece.length ≤ (pieces s).flatten.length :=
    (List.sublist_flatten_of_mem hpiece).length_le
  rw [flatten_pieces] at hle
  exact Nat.le_trans (length_withoutLineEnd_le piece) hle

end Text

namespace Source

/-! ## Strings among operands -/

variable {s r : List Char}

/-- Characters of a string are no more than those that spell them. -/
theorem length_add_le_of_stringRest {t : List Char} (h : stringRest s = some (t, r)) :
    t.length + r.length ≤ s.length := by
  induction s using stringRest.induct generalizing t with
  | case1 => cases h
  | case2 q =>
    cases h
    simp
  | case3 => cases h
  | case4 c q d hd ih =>
    simp only [stringRest, hd, Option.map_eq_some_iff, Prod.mk.injEq, Prod.exists] at h
    obtain ⟨t', _, h, rfl, rfl⟩ := h
    have := ih h
    simp only [List.length_cons]
    omega
  | case5 c q hd =>
    simp only [stringRest, hd] at h
    cases h
  | case6 c q hquote hend hescape ih =>
    rw [stringRest] at h
    · simp only [Option.map_eq_some_iff, Prod.mk.injEq, Prod.exists] at h
      obtain ⟨t', _, h, rfl, rfl⟩ := h
      have := ih h
      simp only [List.length_cons]
      omega
    all_goals assumption

/-- A string is no longer than the text it is read from. -/
theorem length_le_of_string {t : String} (h : string s = some (t, r)) :
    t.length ≤ s.length := by
  unfold string at h
  split at h
  · simp only [Option.map_eq_some_iff, Prod.mk.injEq, Prod.exists] at h
    obtain ⟨t', _, h, rfl, rfl⟩ := h
    have := length_add_le_of_stringRest h
    rw [String.length_ofList, List.length_cons]
    omega
  · cases h

/-- A string that is an operand is no longer than the text it is read from. -/
theorem length_le_of_scan {t : String} (h : Operand.scan s = some (.string t, r)) :
    t.length ≤ s.length := by
  unfold Operand.scan at h
  split at h
  · rename_i hs
    cases h
    exact length_le_of_string hs
  · split at h
    · cases h
    · split at h
      · cases h
      · simp at h

/-- A string among further operands is no longer than their text. -/
theorem length_le_of_mem_operandsAfter {t : String}
    (h : Operand.string t ∈ (operandsAfter s).1) : t.length ≤ s.length := by
  induction s using operandsAfter.induct with
  | case1 s hcomma =>
    rw [operandsAfter_of_comma_eq_none hcomma] at h
    cases h
  | case2 s a hcomma hscan =>
    rw [operandsAfter_of_scan_eq_none hcomma hscan] at h
    cases h
  | case3 s a hcomma operand q hscan _ _ _ _ ih =>
    rw [operandsAfter_of_scan hcomma hscan] at h
    have ha := length_comma_lt hcomma
    rcases List.mem_cons.1 h with rfl | h
    · have := length_le_of_scan hscan
      omega
    · have := ih h
      omega

/-- A string among operands is no longer than their text. -/
theorem length_le_of_mem_operands {t : String} (h : Operand.string t ∈ (operands s).1) :
    t.length ≤ s.length := by
  unfold operands at h
  split at h
  · rename_i os r hos
    obtain ⟨a, ha, hos⟩ := Option.bind_eq_some_iff.1 hos
    simp only [operandList, Option.bind_eq_bind, Option.bind_eq_some_iff, Option.some.injEq,
      Prod.mk.injEq, Prod.exists] at hos
    obtain ⟨operand, q, hscan, rfl, rfl⟩ := hos
    have hle := Text.length_skipSomeBlanks_le ha
    rcases List.mem_cons.1 h with rfl | h
    · exact Nat.le_trans (length_le_of_scan hscan) hle
    · have := length_le_of_mem_operandsAfter h
      have := Operand.consumes_scan _ _ _ hscan
      omega
  · cases h

/-- The operands of an instruction or directive. -/
def Content.operands : Content → List Operand
  | .instruction _ operands | .directive _ operands => operands

/-- A string of an instruction or directive is no longer than its text. -/
theorem length_le_of_content {c : Content} {t : String} (h : content s = some (c, r))
    (ht : Operand.string t ∈ c.operands) : t.length ≤ s.length := by
  unfold content at h
  split at h
  · simp only [Option.bind_eq_bind, Option.bind_eq_some_iff, Option.some.injEq, Prod.mk.injEq,
      Prod.exists] at h
    obtain ⟨name, q, hword, rfl, _⟩ := h
    have := length_le_of_mem_operands ht
    have := consumes_word _ _ _ hword
    rw [List.length_cons]
    omega
  · simp only [Option.bind_eq_bind, Option.bind_eq_some_iff, Option.some.injEq, Prod.mk.injEq,
      Prod.exists] at h
    obtain ⟨name, q, hword, rfl, _⟩ := h
    have := length_le_of_mem_operands ht
    have := consumes_word _ _ _ hword
    omega

/-! ## Strings on a line -/

/-- What may be missing leaves no more than there was. -/
theorem length_optional_le {α : Type} {p : Scanner α} (hp : Consumes p) (s : List Char) :
    (optional p s).2.length ≤ s.length := by
  unfold optional
  cases h : p s with
  | none => exact Nat.le_refl _
  | some v => exact Nat.le_of_lt (hp s v.1 v.2 h)

/-- What may be missing is there if it can be read. -/
theorem fst_optional_eq_some_iff {α : Type} {p : Scanner α} {a : α} :
    (optional p s).1 = some a ↔ ∃ r, p s = some (a, r) := by
  unfold optional
  rcases p s with _ | ⟨b, r⟩ <;> simp

/-- A colon takes up a character. -/
theorem length_afterColon_lt (h : afterColon s = some r) : r.length < s.length := by
  unfold afterColon at h
  split at h
  · rename_i hs
    cases h
    have := Text.length_skipBlanks_le s
    rw [hs, List.length_cons] at this
    omega
  · cases h

/-- The name of a label takes up a character. -/
theorem consumes_labelName : Consumes labelName := by
  intro s a r h
  simp only [labelName, Option.bind_eq_bind, Option.bind_eq_some_iff, Prod.exists] at h
  obtain ⟨name, q, hword, h⟩ := h
  split at h
  · cases h
    exact consumes_word s _ _ hword
  · cases h

/-- A label takes up a character. -/
theorem consumes_label : Consumes label := by
  intro s a r h
  simp only [label, Option.bind_eq_bind, Option.bind_eq_some_iff, Prod.exists] at h
  obtain ⟨name, q, hname, h⟩ := h
  have hq := consumes_labelName s _ _ hname
  split at h
  · rename_i hcolon
    cases h
    exact Nat.lt_trans (length_afterColon_lt hcolon) hq
  · split at h
    · cases h
    · cases h
      exact hq

namespace Line

/-- The content of a line is read somewhere inside of it. -/
theorem content_of_scan {c : Content} (h : (scan s).1.content = some c) :
    ∃ q r, Source.content q = some (c, r) ∧ q.length ≤ s.length := by
  let labelled := optional Source.label (Text.skipBlanks s)
  let q := if labelled.1.isSome then Text.skipBlanks labelled.2 else labelled.2
  have hq : q.length ≤ labelled.2.length := by
    unfold q
    split
    · exact Text.length_skipBlanks_le _
    · exact Nat.le_refl _
  have hlabelled : labelled.2.length ≤ (Text.skipBlanks s).length :=
    length_optional_le consumes_label (Text.skipBlanks s)
  have hs := Text.length_skipBlanks_le s
  obtain ⟨r, hr⟩ := fst_optional_eq_some_iff.1 (show (optional Source.content q).1 = some c from h)
  exact ⟨q, r, hr, by omega⟩

/-- A string on a line is no longer than the line. -/
theorem length_le_of_parse {line : Line} {c : Content} {t : String} (h : parse s = .ok line)
    (hc : line.content = some c) (ht : Operand.string t ∈ c.operands) :
    t.length ≤ s.length := by
  obtain ⟨rfl, _⟩ := parse_eq_ok_iff.1 h
  obtain ⟨q, r, hq, hle⟩ := content_of_scan hc
  exact Nat.le_trans (length_le_of_content hq ht) hle

end Line

end Source

end LittleComputer
