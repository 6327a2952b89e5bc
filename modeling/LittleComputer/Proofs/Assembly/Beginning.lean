import LittleComputer.Assembly.Program
import LittleComputer.Proofs.Assembly.Range
import Mathlib

/-!
# How a source begins

A source may be required to set its origin. Whether it does is decided at the first line that holds
more than a comment. The lines before that one do the same to every layout, which is nothing if they
can be read, and with `.ORIG` there neither the requirement nor the default origin has an effect on
what follows.
-/

namespace LittleComputer.Assembly

open Source

/-- Whether a line holds a label, an instruction or a directive, if it can be read. -/
def begins (text : List Char) : Bool := (labelOf? text).isSome || (contentOf? text).isSome

/-- The number of the first line that holds a label, an instruction or a directive. -/
def beginningLine? (texts : List (List Char)) : Option Nat := (texts.findIdx? begins).map (· + 1)

/-- Whether the first line that holds a label, an instruction or a directive sets the origin. -/
def BeginsWithOrigin (texts : List (List Char)) : Prop :=
  (texts.find? begins).bind directiveOf? = some .orig

instance : DecidablePred BeginsWithOrigin := fun _ => inferInstanceAs (Decidable (_ = _))

/-- A line that has been read begins a program with its label or its content. -/
theorem begins_of_parse {text : List Char} {line : Line} (h : Line.parse text = .ok line) :
    begins text = (line.label.isSome || line.content.isSome) := by
  rw [begins, labelOf?_of_parse h, contentOf?_of_parse h]

/-- The first line that begins a program is found below those that do not. -/
theorem beginningLine?_append {before after : List (List Char)} {text : List Char}
    (hbefore : ∀ t ∈ before, begins t = false) (htext : begins text = true) :
    beginningLine? (before ++ text :: after) = some (before.length + 1) := by
  have hnone : before.findIdx? begins = none := List.findIdx?_eq_none_iff.2 hbefore
  rw [beginningLine?, List.findIdx?_append, hnone, List.findIdx?_cons, htext]
  simp

namespace Layout

variable {l l' : Layout} {requireOrigin : Bool} {number : Nat} {text : List Char} {line : Line}

/-! ## Lines before the beginning -/

/-- A line that holds nothing leaves every layout as it is, unless it cannot be read. -/
theorem exists_addText_of_not_begins (number : Nat) (h : begins text = false) :
    ∃ read : Except Error Unit, ∀ requireOrigin (l : Layout),
      l.addText requireOrigin number text = read.map fun _ => l := by
  cases hparse : Line.parse text with
  | error unreadable =>
    refine ⟨.error ⟨number, .malformedOperand unreadable.token⟩, fun requireOrigin l => ?_⟩
    rw [addText, hparse]
    rfl
  | ok line =>
    obtain ⟨label, content, comment⟩ := line
    rw [begins_of_parse hparse, Bool.or_eq_false_iff, Option.isSome_eq_false_iff,
      Option.isSome_eq_false_iff, Option.isNone_iff_eq_none, Option.isNone_iff_eq_none] at h
    obtain ⟨rfl, rfl⟩ := h
    refine ⟨.ok (), fun requireOrigin l => ?_⟩
    rw [addText, hparse]
    rfl

/-- Lines before the beginning can be read or not, and leave every layout as it is. -/
theorem exists_addTexts_of_not_begins (number : Nat) {texts : List (List Char)}
    (h : ∀ text ∈ texts, begins text = false) :
    ∃ read : Except Error Unit, ∀ requireOrigin (l : Layout), l.ended = false →
      addTexts requireOrigin number texts l = read.map fun _ => l := by
  induction texts generalizing number with
  | nil => exact ⟨.ok (), fun _ _ _ => rfl⟩
  | cons text rest ih =>
    obtain ⟨htext, hrest⟩ := List.forall_mem_cons.1 h
    obtain ⟨first, hfirst⟩ := exists_addText_of_not_begins number htext
    obtain ⟨further, hfurther⟩ := ih (number + 1) hrest
    refine ⟨first >>= fun _ => further, fun requireOrigin l hended => ?_⟩
    rw [addTexts_cons hended, hfirst]
    cases first with
    | error e => rfl
    | ok _ => exact hfurther requireOrigin l hended

/-! ## The line that begins the program -/

/-- A program has begun with the first line that holds anything. -/
theorem started_of_step (hparse : Line.parse text = .ok line)
    (h : Step requireOrigin number l line l') : l'.started = (l.started || begins text) := by
  rw [begins_of_parse hparse]
  cases h with
  | blank => simp
  | label hstart hdefine | finish _ hstart hdefine =>
    obtain ⟨_, rfl⟩ := start_eq_ok_iff.1 hstart
    simpa using started_of_defineAll hdefine
  | origin _ horigin hdefine =>
    obtain ⟨_, _, _, _, rfl⟩ := setOrigin_eq_ok_iff.1 horigin
    simpa using started_of_defineAll hdefine
  | item _ hstart hdefine hplace =>
    obtain ⟨_, rfl⟩ := start_eq_ok_iff.1 hstart
    obtain ⟨_, _, _, rfl⟩ := place_eq_ok_iff.1 hplace
    simpa using started_of_defineAll hdefine

/-- A program has begun after a line if it had before or if the line begins it. -/
theorem started_of_addText (h : l.addText requireOrigin number text = .ok l') :
    l'.started = (l.started || begins text) := by
  obtain ⟨line, hparse, hline⟩ := addText_eq_ok_iff.1 h
  exact started_of_step hparse (step_of_addLine hline)

section Required

variable (hstarted : l.started = false) (hbegins : begins text = true)
  (horig : directiveOf? text ≠ some .orig)
include hstarted

/-- A program that needs an origin does not begin without one. -/
theorem start_of_required : l.start true = .error .missingOrigin := by
  rw [start, hstarted]
  rfl

include hbegins horig

/-- Where the origin is required, no other line begins a program. -/
theorem exists_addText_error_of_required (number : Nat) :
    ∃ e, l.addText true number text = .error e := by
  cases h : l.addText true number text with
  | error e => exact ⟨e, rfl⟩
  | ok l' =>
    obtain ⟨line, hparse, hline⟩ := addText_eq_ok_iff.1 h
    have hmissing := start_of_required hstarted
    cases step_of_addLine hline with
    | blank =>
      rw [begins_of_parse hparse] at hbegins
      cases hbegins
    | label hstart | finish _ hstart | item _ hstart => cases hmissing.symm.trans hstart
    | origin hname =>
      rw [directiveOf?_of_parse hparse] at horig
      exact absurd hname horig

/-- What is wrong with a line that begins a program is the missing origin, if the line could begin
one where the origin is not required. -/
theorem addText_of_required {l₀ l₀' : Layout} (h : l₀.addText false number text = .ok l₀') :
    l.addText true number text = .error ⟨number, .missingOrigin⟩ := by
  obtain ⟨line, hparse, hline⟩ := addText_eq_ok_iff.1 h
  have hmissing := start_of_required hstarted
  have hline : l.addLine true number line = .error .missingOrigin := by
    cases step_of_addLine hline with
    | blank =>
      rw [begins_of_parse hparse] at hbegins
      cases hbegins
    | label =>
      rw [addLine, hmissing]
      rfl
    | origin hname =>
      rw [directiveOf?_of_parse hparse] at horig
      exact absurd hname horig
    | finish hname =>
      simp only [addLine, addDirective, hname, takeNone, hmissing, Except.ok_bind,
        Except.error_bind]
    | item hitem => rw [addLine_of_itemOf hitem, add, hmissing, Except.error_bind]
  rw [addText_of_parse hparse, hline]
  rfl

end Required

/-- A program that begins with `.ORIG` begins in the same way whatever the options are. -/
theorem addText_initial_of_orig (options options' : Options)
    (horig : directiveOf? text = some .orig) :
    (initial options).addText options.requireOrigin number text =
      (initial options').addText options'.requireOrigin number text := by
  obtain ⟨content, hcontent, hname⟩ := Option.bind_eq_some_iff.1 horig
  obtain ⟨⟨label, _, comment⟩, hparse, rfl⟩ := exists_parse_of_contentOf? hcontent
  cases content with
  | instruction => cases hname
  | directive name operands =>
    have hname : Directive.ofName? name = some .orig := hname
    have hset : (initial options).setOrigin operands =
        (initial options').setOrigin operands := rfl
    rw [addText_of_parse hparse, addText_of_parse hparse]
    simp only [addLine, addDirective, hname, hset]

/-! ## Lines after the beginning -/

section Started

variable (hstarted : l.started = true)
include hstarted

/-- A program that has begun goes on whether it needs an origin or not. -/
theorem start_of_started (requireOrigin : Bool) : l.start requireOrigin = .ok l := by
  refine start_eq_ok_iff.2 ⟨Or.inl hstarted, ?_⟩
  rw [← hstarted]

/-- A program that has begun goes on whether its origin was required or not. -/
theorem addText_of_started (r₁ r₂ : Bool) :
    l.addText r₁ number text = l.addText r₂ number text := by
  have hstart : l.start r₁ = l.start r₂ := by
    rw [start_of_started hstarted, start_of_started hstarted]
  have hline (line : Line) : l.addLine r₁ number line = l.addLine r₂ number line := by
    simp only [addLine, addDirective, add, hstart]
  simp only [addText, hline]

/-- After the beginning it does not matter whether an origin is needed. -/
theorem addTexts_of_started (r₁ r₂ : Bool) (texts : List (List Char)) :
    addTexts r₁ number texts l = addTexts r₂ number texts l := by
  induction texts generalizing number l with
  | nil => rfl
  | cons text rest ih =>
    cases hended : l.ended with
    | true => rw [addTexts_of_ended hended, addTexts_of_ended hended]
    | false =>
      rw [addTexts_cons hended, addTexts_cons hended, addText_of_started hstarted r₁ r₂]
      cases h : l.addText r₂ number text with
      | error e => rfl
      | ok l' => exact ih (by rw [started_of_addText h, hstarted, Bool.true_or])

end Started

/-! ## Whole sources -/

/-- A program that has begun does not begin again. -/
theorem started_of_addTexts {texts : List (List Char)}
    (h : addTexts requireOrigin number texts l = .ok l') (hstarted : l.started = true) :
    l'.started = true := by
  induction texts generalizing number l with
  | nil =>
    cases h
    exact hstarted
  | cons text rest ih =>
    cases hended : l.ended with
    | true =>
      rw [addTexts_of_ended hended] at h
      cases h
      exact hstarted
    | false =>
      rw [addTexts_cons hended] at h
      obtain ⟨l₁, hfirst, hrest⟩ := Except.bind_eq_ok_iff.1 h
      exact ih hrest (by rw [started_of_addText hfirst, hstarted, Bool.true_or])

/-- In a source where no line holds anything, there is nothing to begin with. -/
theorem exists_ofLines_of_not_begins {texts : List (List Char)}
    (h : ∀ text ∈ texts, begins text = false) :
    ∃ read : Except Error Unit, ∀ options, ofLines options texts =
      read >>= fun _ => if options.requireOrigin = true then .error ⟨1, .missingOrigin⟩
        else .ok (initial options) := by
  obtain ⟨read, hread⟩ := exists_addTexts_of_not_begins 1 h
  refine ⟨read, fun options => ?_⟩
  rw [ofLines, hread _ _ rfl]
  cases read with
  | error e => rfl
  | ok _ => cases options.requireOrigin <;> rfl

section Begins

variable {before : List (List Char)} (hbefore : ∀ t ∈ before, begins t = false)
  (hbegins : begins text = true)
include hbefore hbegins

/-- A source is laid out from the line that it begins with. -/
theorem exists_ofLines_of_begins (after : List (List Char)) :
    ∃ read : Except Error Unit, ∀ options, ofLines options (before ++ text :: after) =
      read >>= fun _ =>
        (initial options).addText options.requireOrigin (before.length + 1) text >>=
          addTexts options.requireOrigin (before.length + 2) after := by
  obtain ⟨read, hread⟩ := exists_addTexts_of_not_begins 1 hbefore
  refine ⟨read, fun options => ?_⟩
  rw [ofLines, addTexts_append, hread _ _ rfl, Nat.add_comm 1]
  cases read with
  | error e => rfl
  | ok _ =>
    rw [Except.ok_bind]
    show addTexts _ _ (text :: after) (initial options) >>= _ = _
    rw [addTexts_cons rfl]
    cases hfirst : (initial options).addText options.requireOrigin (before.length + 1) text with
    | error e => rfl
    | ok l =>
      rw [Except.ok_bind]
      cases hrest : addTexts options.requireOrigin (before.length + 2) after l with
      | error e => rfl
      | ok l' =>
        have hstarted : l.started = true := by rw [started_of_addText hfirst, hbegins, Bool.or_true]
        rw [Except.ok_bind, started_of_addTexts hrest hstarted]
        rfl

/-- A source that begins with `.ORIG` is laid out in the same way whatever the options are. -/
theorem ofLines_of_orig (after : List (List Char)) (horig : directiveOf? text = some .orig)
    (options options' : Options) :
    ofLines options (before ++ text :: after) = ofLines options' (before ++ text :: after) := by
  obtain ⟨read, hread⟩ := exists_ofLines_of_begins hbefore hbegins after
  rw [hread, hread, addText_initial_of_orig options options' horig]
  cases hfirst : (initial options').addText options'.requireOrigin (before.length + 1) text with
  | error e => rfl
  | ok l =>
    have hstarted : l.started = true := by rw [started_of_addText hfirst, hbegins, Bool.or_true]
    rw [Except.ok_bind, Except.ok_bind,
      addTexts_of_started hstarted options.requireOrigin options'.requireOrigin]

variable (horig : directiveOf? text ≠ some .orig)
include horig

/-- A source that begins with anything but `.ORIG` fails where an origin is needed. -/
theorem exists_error_of_required (after : List (List Char)) (o : Word) :
    ∃ e, ofLines ⟨o, true⟩ (before ++ text :: after) = .error e := by
  obtain ⟨read, hread⟩ := exists_ofLines_of_begins hbefore hbegins after
  obtain ⟨e, he⟩ := exists_addText_error_of_required (l := initial ⟨o, true⟩) rfl hbegins horig
    (before.length + 1)
  rw [hread, he]
  cases read with
  | error e => exact ⟨e, rfl⟩
  | ok _ => exact ⟨e, rfl⟩

/-- Where the origin is required, the first line that holds anything is where it is missing. -/
theorem ofLines_of_required {after : List (List Char)} (o₁ o₂ : Word)
    (h : ofLines ⟨o₂, false⟩ (before ++ text :: after) = .ok l) :
    ofLines ⟨o₁, true⟩ (before ++ text :: after) =
      .error ⟨before.length + 1, .missingOrigin⟩ := by
  obtain ⟨read, hread⟩ := exists_ofLines_of_begins hbefore hbegins after
  rw [hread] at h
  obtain ⟨_, rfl, hadd⟩ := Except.bind_eq_ok_iff.1 h
  obtain ⟨_, hfirst, _⟩ := Except.bind_eq_ok_iff.1 hadd
  rw [hread, Except.ok_bind, addText_of_required rfl hbegins horig hfirst, Except.error_bind]

end Begins

end Layout

section Source

variable {texts : List (List Char)}

/-- A source without a beginning, or the lines before, at and after it. -/
theorem begins_cases (texts : List (List Char)) :
    (texts.find? begins = none ∧ ∀ text ∈ texts, begins text = false) ∨
      ∃ before text after, texts = before ++ text :: after ∧
        (∀ t ∈ before, begins t = false) ∧ begins text = true ∧ texts.find? begins = some text := by
  cases h : texts.find? begins with
  | none =>
    refine Or.inl ⟨rfl, fun text htext => ?_⟩
    exact Bool.not_eq_true _ ▸ List.find?_eq_none.1 h text htext
  | some text =>
    obtain ⟨htext, before, after, heq, hbefore⟩ := List.find?_eq_some_iff_append.1 h
    exact Or.inr ⟨before, text, after, heq, by simpa using hbefore, htext, rfl⟩

/-- A source that sets its origin first is laid out alike under all options. -/
theorem BeginsWithOrigin.ofLines_eq (h : BeginsWithOrigin texts) (options options' : Options) :
    Layout.ofLines options texts = Layout.ofLines options' texts := by
  rcases begins_cases texts with ⟨hnone, _⟩ | ⟨before, text, after, rfl, hbefore, hbegins, hfirst⟩
  · rw [BeginsWithOrigin, hnone] at h
    cases h
  · rw [BeginsWithOrigin, hfirst] at h
    exact Layout.ofLines_of_orig hbefore hbegins after h options options'

/-- A source that is laid out where an origin is needed sets it first. -/
theorem beginsWithOrigin_of_required {o : Word} {l : Layout}
    (h : Layout.ofLines ⟨o, true⟩ texts = .ok l) : BeginsWithOrigin texts := by
  rcases begins_cases texts with ⟨_, hnone⟩ | ⟨before, text, after, rfl, hbefore, hbegins, hfirst⟩
  · obtain ⟨read, hread⟩ := Layout.exists_ofLines_of_not_begins hnone
    rw [hread] at h
    obtain ⟨_, _, h⟩ := Except.bind_eq_ok_iff.1 h
    cases h
  · by_contra horig
    rw [BeginsWithOrigin, hfirst] at horig
    obtain ⟨e, he⟩ := Layout.exists_error_of_required hbefore hbegins horig after o
    cases he.symm.trans h

/-- A source that is otherwise in order fails where it begins if an origin is needed. -/
theorem ofLines_of_not_beginsWithOrigin (hnot : ¬BeginsWithOrigin texts) {o₁ o₂ : Word} {l : Layout}
    (h : Layout.ofLines ⟨o₂, false⟩ texts = .ok l) :
    Layout.ofLines ⟨o₁, true⟩ texts =
      .error ⟨(beginningLine? texts).getD 1, .missingOrigin⟩ := by
  rcases begins_cases texts with ⟨_, hnone⟩ | ⟨before, text, after, rfl, hbefore, hbegins, hfirst⟩
  · have hline : beginningLine? texts = none := by
      rw [beginningLine?, List.findIdx?_eq_none_iff.2 hnone]
      rfl
    obtain ⟨read, hread⟩ := Layout.exists_ofLines_of_not_begins hnone
    rw [hread] at h
    obtain ⟨_, rfl, _⟩ := Except.bind_eq_ok_iff.1 h
    rw [hread, hline]
    rfl
  · rw [BeginsWithOrigin, hfirst] at hnot
    rw [beginningLine?_append hbefore hbegins]
    exact Layout.ofLines_of_required hbefore hbegins hnot o₁ o₂ h

end Source

/-- A source that assembles where its origin is required assembles to the same program where it is
not, at any default origin. The other way round, it does so if and only if the first line that holds
a label, an instruction or a directive is `.ORIG`; otherwise the origin is missing on that line, or
on line one if there is none. -/
theorem required_origin (source : String) (o₁ o₂ : Word) :
    (∀ p, assemble ⟨o₁, true⟩ source = .ok p → assemble ⟨o₂, false⟩ source = .ok p) ∧
    ∀ p, assemble ⟨o₂, false⟩ source = .ok p →
      (assemble ⟨o₁, true⟩ source = .ok p ↔ BeginsWithOrigin (Text.lines source.toList)) ∧
      (¬BeginsWithOrigin (Text.lines source.toList) →
        assemble ⟨o₁, true⟩ source =
          .error ⟨(beginningLine? (Text.lines source.toList)).getD 1, .missingOrigin⟩) := by
  have hsame (h : BeginsWithOrigin (Text.lines source.toList)) :
      assemble ⟨o₁, true⟩ source = assemble ⟨o₂, false⟩ source := by
    rw [assemble, assemble, h.ofLines_eq ⟨o₁, true⟩ ⟨o₂, false⟩]
  have hbegins (p : Program) (h : assemble ⟨o₁, true⟩ source = .ok p) :
      BeginsWithOrigin (Text.lines source.toList) := by
    obtain ⟨l, hl, _⟩ := Except.bind_eq_ok_iff.1 h
    exact beginsWithOrigin_of_required hl
  refine ⟨fun p h => hsame (hbegins p h) ▸ h, fun p h => ⟨⟨hbegins p, fun horig => ?_⟩, ?_⟩⟩
  · rw [hsame horig, h]
  · intro hnot
    obtain ⟨l, hl, _⟩ := Except.bind_eq_ok_iff.1 h
    rw [assemble, ofLines_of_not_beginsWithOrigin hnot hl, Except.error_bind]

/-- A source that sets its origin below a comment, and one that only defines a label there. -/
theorem required_origin_below :
    assemble ⟨0x4001, false⟩ "; first\n.ORIG x3000\nHALT" = .ok ⟨0x3000, [0xF025], []⟩ ∧
      assemble ⟨0x3000, true⟩ "; first\nalone\n.END" = .error ⟨2, .missingOrigin⟩ := by
  constructor
  · obtain ⟨hrestricts, _⟩ := required_origin "; first\n.ORIG x3000\nHALT" 0x3000 0x4001
    exact hrestricts _ (by decide +kernel)
  · obtain ⟨_, hconverse⟩ := required_origin "; first\nalone\n.END" 0x3000 0x4001
    obtain ⟨_, hmissing⟩ := hconverse ⟨0x4001, [], [("alone", 0x4001)]⟩ (by decide +kernel)
    have hline : beginningLine? (Text.lines "; first\nalone\n.END".toList) = some 2 := by
      decide +kernel
    rw [hmissing (by decide +kernel), hline]
    rfl

end LittleComputer.Assembly
