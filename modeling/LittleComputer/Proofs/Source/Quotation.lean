import LittleComputer.Proofs.Source.Rendering
import Mathlib

/-!
# Strings between quotes

A string is a row of units between two quotes, each of which stands for one character: most
characters for themselves, and six of them for a backslash and another character. Every text after
an opening quote is a row of units and then either the closing quote or a place where no unit
begins, and in that case nothing is read.

The string can also be read in three steps: a quote, a body that may be missing, and a quote. A body
that breaks off counts as missing, so that the closing quote is then looked for where the body
began. It is not there, which is why no string is cut short.
-/

namespace LittleComputer.Source

variable {q r s t : List Char}

/-! ## Units -/

/-- The characters that can follow a backslash, with what they then stand for. -/
def escapes : List (Char × Char) :=
  [('\\', '\\'), ('"', '"'), ('n', '\n'), ('t', '\t'), ('r', '\r'), ('0', '\x00')]

/-- What stands for one character of a string. -/
inductive StringUnit where
  | plain (c : Char) (hquote : c ≠ '"') (hbackslash : c ≠ '\\')
  | escape (e : Char × Char) (he : e ∈ escapes)

namespace StringUnit

def text : StringUnit → List Char
  | plain c _ _ => [c]
  | escape e _ => ['\\', e.1]

def char : StringUnit → Char
  | plain c _ _ => c
  | escape e _ => e.2

end StringUnit

variable {units : List StringUnit}

/-- The text of units in a row. -/
def spelled (units : List StringUnit) : List Char := units.flatMap StringUnit.text

/-- The text of units begins with that of the first. -/
theorem spelled_cons_append (u : StringUnit) (units : List StringUnit) (r : List Char) :
    spelled (u :: units) ++ r = u.text ++ (spelled units ++ r) := by
  rw [spelled, List.flatMap_cons, List.append_assoc, spelled]

/-- A character is escaped if it is one of the six. -/
theorem unescape_eq_some_iff {c d : Char} : unescape c = some d ↔ (c, d) ∈ escapes := by
  constructor
  · intro h
    unfold unescape at h
    split at h <;> cases h <;> decide
  · intro h
    have hall : ∀ e ∈ escapes, unescape e.1 = some e.2 := by decide
    exact hall (c, d) h

/-- A backslash escapes nothing before any other character. -/
theorem unescape_eq_none_iff {c : Char} : unescape c = none ↔ ∀ e ∈ escapes, e.1 ≠ c := by
  rw [Option.eq_none_iff_forall_ne_some]
  constructor
  · rintro h ⟨_, d⟩ he rfl
    exact h d (unescape_eq_some_iff.2 he)
  · intro h d hd
    exact h (c, d) (unescape_eq_some_iff.1 hd) rfl

/-- What stands between two quotes is a row of units. -/
theorem quotes_iff : Quotes s t ↔ ∃ units, s = spelled units ∧ t = units.map StringUnit.char := by
  constructor
  · intro h
    induction h with
    | nil => exact ⟨[], rfl, rfl⟩
    | @plain c _ _ hquote hescape _ ih =>
      obtain ⟨units, rfl, rfl⟩ := ih
      exact ⟨.plain c hquote hescape :: units, rfl, rfl⟩
    | @escape c d _ _ hc _ ih =>
      obtain ⟨units, rfl, rfl⟩ := ih
      exact ⟨.escape (c, d) (unescape_eq_some_iff.1 hc) :: units, rfl, rfl⟩
  · rintro ⟨units, rfl, rfl⟩
    induction units with
    | nil => exact .nil
    | cons u units ih =>
      cases u with
      | plain c hquote hbackslash => exact .plain hquote hbackslash ih
      | escape e he => exact .escape (unescape_eq_some_iff.2 he) ih

/-! ## Where units end -/

/-- Whether a text begins neither with a unit nor with a quote: it is empty, or it begins with a
backslash that escapes nothing. -/
inductive Breaks : List Char → Prop
  | ending : Breaks []
  | backslash : Breaks ['\\']
  | escape {c : Char} {r : List Char} (hc : ∀ e ∈ escapes, e.1 ≠ c) : Breaks ('\\' :: c :: r)

/-- Every text is units up to a quote or up to where it breaks off. By the cases of the first two
characters. -/
theorem exists_units (s : List Char) :
    ∃ units r, s = spelled units ++ r ∧ (r.head? = some '"' ∨ Breaks r) := by
  induction s using stringRest.induct with
  | case1 => exact ⟨[], [], rfl, Or.inr .ending⟩
  | case2 r => exact ⟨[], '"' :: r, rfl, Or.inl rfl⟩
  | case3 => exact ⟨[], ['\\'], rfl, Or.inr .backslash⟩
  | case4 c _ d hd ih =>
    obtain ⟨units, r, rfl, hr⟩ := ih
    exact ⟨.escape (c, d) (unescape_eq_some_iff.1 hd) :: units, r, rfl, hr⟩
  | case5 c r hc => exact ⟨[], '\\' :: c :: r, rfl, Or.inr (.escape (unescape_eq_none_iff.1 hc))⟩
  | case6 c q hquote hend hescape ih =>
    obtain ⟨units, r, hq, hr⟩ := ih
    have hbackslash : c ≠ '\\' := by
      rintro rfl
      cases q with
      | nil => exact hend rfl rfl
      | cons d q => exact hescape d q rfl rfl
    exact ⟨.plain c hquote hbackslash :: units, r, congrArg (c :: ·) hq, hr⟩

/-- No string is read where no unit and no quote follow. -/
theorem Breaks.stringRest (h : Breaks r) : stringRest r = none := by
  cases h with
  | ending | backslash => rfl
  | escape hc => simp only [Source.stringRest, unescape_eq_none_iff.2 hc]

/-- A string that breaks off is not read. -/
theorem string_of_breaks (units : List StringUnit) (h : Breaks r) :
    string ('"' :: (spelled units ++ r)) = none := by
  rw [string, stringRest_append (quotes_iff.2 ⟨units, rfl, rfl⟩), h.stringRest]
  rfl

/-- A row of units between quotes is read as their characters. -/
theorem string_of_units (units : List StringUnit) (r : List Char) :
    string ('"' :: (spelled units ++ '"' :: r)) =
      some (String.ofList (units.map StringUnit.char), r) :=
  string_eq_some_iff.2 ⟨_, rfl, quotes_iff.2 ⟨units, rfl, String.toList_ofList⟩⟩

/-- No string begins without a quote. -/
theorem string_of_head (h : q.head? ≠ some '"') : string q = none := by
  unfold string
  split
  · exact absurd rfl h
  · rfl

/-- A text that does not begin with a string does not begin with a quote, or it breaks off after
some units. -/
theorem string_eq_none_iff : string q = none ↔
    q.head? ≠ some '"' ∨ ∃ units r, q = '"' :: (spelled units ++ r) ∧ Breaks r := by
  constructor
  · intro h
    refine or_iff_not_imp_left.2 fun hhead => ?_
    obtain ⟨s, rfl⟩ := List.head?_eq_some_iff.1 (not_not.1 hhead)
    obtain ⟨units, r, rfl, hquote | hbreaks⟩ := exists_units s
    · obtain ⟨r, rfl⟩ := List.head?_eq_some_iff.1 hquote
      rw [string_of_units] at h
      cases h
    · exact ⟨units, r, rfl, hbreaks⟩
  · rintro (hhead | ⟨units, r, rfl, hbreaks⟩)
    · exact string_of_head hhead
    · exact string_of_breaks units hbreaks

/-! ## Reading in three steps -/

section Transform

variable (isPlain : Char → Bool) (control : Char) (escape : Char → Option Char)

/-- Take plain characters and escapes off a text, up to a character that begins neither. That is a
failure if nothing comes before it, and so is a control character that begins no escape. -/
def transform (first : Bool) : Scanner (List Char)
  | [] => some ([], [])
  | c :: r =>
    if isPlain c then (transform false r).map fun (t, q) => (c :: t, q)
    else if c = control then
      match r with
      | [] => none
      | d :: r =>
        match escape d with
        | some e => (transform false r).map fun (t, q) => (e :: t, q)
        | none => none
    else if first then none
    else some ([], c :: r)

end Transform

/-- The characters of a string up to its closing quote, given whether none has been taken. -/
def bodyFrom (first : Bool) : Scanner (List Char) :=
  transform (fun c => c ≠ '"' ∧ c ≠ '\\') '\\' unescape first

/-- A quote, a body that may be missing, and a quote. -/
def stringInSteps : Scanner String
  | '"' :: s =>
    match optional (bodyFrom true) s with
    | (text, '"' :: r) => some (String.ofList (text.getD []), r)
    | _ => none
  | _ => none

section Body

variable {first : Bool} {c : Char}

/-- A plain character of the body stands for itself. -/
theorem bodyFrom_plain (hquote : c ≠ '"') (hbackslash : c ≠ '\\') :
    bodyFrom first (c :: r) = (bodyFrom false r).map fun (t, q) => (c :: t, q) := by
  rw [bodyFrom, transform.eq_def]
  exact if_pos (decide_eq_true ⟨hquote, hbackslash⟩)

/-- A backslash and what it escapes are read together. -/
theorem bodyFrom_escape : bodyFrom first ('\\' :: c :: r) =
    (unescape c).bind fun d => (bodyFrom false r).map fun (t, q) => (d :: t, q) := by
  rw [bodyFrom, transform.eq_def]
  cases h : unescape c <;> simp [bodyFrom, h]

/-- A quote ends the body, which is none if nothing comes before the quote. -/
theorem bodyFrom_quote :
    bodyFrom first ('"' :: r) = if first then none else some ([], '"' :: r) := by
  rw [bodyFrom, transform.eq_def]
  rfl

end Body

/-- Units are taken off one by one, and then what comes after them is read. -/
theorem bodyFrom_spelled_append (first : Bool) (units : List StringUnit) (r : List Char) :
    bodyFrom first (spelled units ++ r) =
      (bodyFrom (first && units.isEmpty) r).map fun (t, q) =>
        (units.map StringUnit.char ++ t, q) := by
  induction units generalizing first with
  | nil =>
    rw [List.isEmpty_nil, Bool.and_true]
    exact Option.map_id_apply.symm
  | cons u units ih =>
    have hrest := ih false
    rw [Bool.false_and] at hrest
    rw [spelled_cons_append, List.isEmpty_cons, Bool.and_false]
    cases u with
    | plain c hquote hbackslash =>
      rw [StringUnit.text, List.singleton_append, bodyFrom_plain hquote hbackslash, hrest,
        Option.map_map]
      rfl
    | escape e he =>
      rw [StringUnit.text, List.cons_append, List.singleton_append, bodyFrom_escape,
        unescape_eq_some_iff.2 he, Option.bind_some, hrest, Option.map_map]
      rfl

/-- What breaks off does not begin with a quote. -/
theorem head_of_breaks (units : List StringUnit) (h : Breaks r) :
    (spelled units ++ r).head? ≠ some '"' := by
  have hbackslash : some '\\' ≠ some '"' := by decide
  cases units with
  | nil =>
    cases h with
    | ending => exact nofun
    | backslash | escape => exact hbackslash
  | cons u units =>
    rw [spelled_cons_append]
    cases u with
    | plain c hquote _ => exact fun hhead => hquote (Option.some.inj hhead)
    | escape => exact hbackslash

/-- A body that breaks off is missing or goes on to the end, and no quote comes after either. -/
theorem stringInSteps_of_breaks (units : List StringUnit) (h : Breaks r) :
    stringInSteps ('"' :: (spelled units ++ r)) = none := by
  have hnone : bodyFrom true (spelled units ++ r) = none →
      stringInSteps ('"' :: (spelled units ++ r)) = none := by
    intro hbody
    rw [stringInSteps, optional, hbody]
    split
    · rename_i heq
      exact absurd (congrArg List.head? (Prod.mk.inj heq).2) (head_of_breaks units h)
    · rfl
  cases h with
  | ending =>
    rw [stringInSteps, optional, bodyFrom_spelled_append]
    rfl
  | backslash =>
    refine hnone ?_
    rw [bodyFrom_spelled_append]
    rfl
  | escape hc =>
    refine hnone ?_
    rw [bodyFrom_spelled_append, bodyFrom_escape, unescape_eq_none_iff.2 hc]
    rfl

/-- Both quotes and the body between them are read, whether or not it is empty. -/
theorem stringInSteps_of_units (units : List StringUnit) (r : List Char) :
    stringInSteps ('"' :: (spelled units ++ '"' :: r)) =
      some (String.ofList (units.map StringUnit.char), r) := by
  rw [stringInSteps, optional, bodyFrom_spelled_append, bodyFrom_quote]
  cases units with
  | nil => rfl
  | cons u units =>
    rw [List.isEmpty_cons, Bool.and_false, if_neg Bool.false_ne_true]
    simp only [Option.map_some, Option.getD_some, List.append_nil]

/-- To read a string at once is to read it in three steps. -/
theorem string_eq_inSteps (q : List Char) : string q = stringInSteps q := by
  by_cases hhead : q.head? = some '"'
  · obtain ⟨s, rfl⟩ := List.head?_eq_some_iff.1 hhead
    obtain ⟨units, r, rfl, hquote | hbreaks⟩ := exists_units s
    · obtain ⟨r, rfl⟩ := List.head?_eq_some_iff.1 hquote
      rw [string_of_units, stringInSteps_of_units]
    · rw [string_of_breaks units hbreaks, stringInSteps_of_breaks units hbreaks]
  · rw [string_of_head hhead]
    unfold stringInSteps
    split
    · exact absurd rfl hhead
    · rfl

/-! ## Strings -/

/-- A string is read exactly where units stand between two quotes, as the characters that the units
stand for and with the text after the closing quote left. Nothing is read where there is no opening
quote, or where the units after it break off: at the end of the text or at a backslash that escapes
nothing. Reading in three steps comes to the same. With its characters escaped, every string is read
back. -/
theorem string_iff_units (q : List Char) :
    (∀ text r, string q = some (text, r) ↔ ∃ units,
      q = '"' :: (spelled units ++ '"' :: r) ∧ text.toList = units.map StringUnit.char) ∧
    (string q = none ↔
      q.head? ≠ some '"' ∨ ∃ units r, q = '"' :: (spelled units ++ r) ∧ Breaks r) ∧
    string q = stringInSteps q ∧
    ∀ (text : String) (r : List Char),
      string ('"' :: (text.toList.flatMap escapeChar ++ '"' :: r)) = some (text, r) := by
  refine ⟨fun text r => ?_, string_eq_none_iff, string_eq_inSteps q, fun text r => ?_⟩
  · rw [string_eq_some_iff]
    constructor
    · rintro ⟨s, rfl, hs⟩
      obtain ⟨units, rfl, htext⟩ := quotes_iff.1 hs
      exact ⟨units, rfl, htext⟩
    · rintro ⟨units, rfl, htext⟩
      exact ⟨_, rfl, quotes_iff.2 ⟨units, rfl, htext⟩⟩
  · exact string_eq_some_iff.2 ⟨_, rfl, quotes_flatMap_escapeChar text.toList⟩

end LittleComputer.Source
