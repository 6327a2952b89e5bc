import LittleComputer.Proofs.Debugger.Argument
import LittleComputer.Text.Utf8
import Mathlib

/-!
# Splitting a line part by part

After the first characters of a line, the splitter has some words behind it and goes on with the
rest of the line in one of its modes, within the word that it has begun. What it makes of a text
that stands for itself depends on that mode alone: between words and in a word the text is added to
the word, in a comment it is left out, and in quotes it leaves them open.
-/

namespace LittleComputer.Debugger

variable {s r w : List Char} {mode : Mode} {words : List String}

/-! ## Where the splitter is -/

/-- Whether the splitter comes to a mode after some characters at the start of a line: with these
words behind it, and with the characters of the current word in reverse. -/
def Reaches (s : List Char) (words : List String) (mode : Mode) (w : List Char) : Prop :=
  ∀ r, splitWords (s ++ r) = (splitFrom mode w r).map (words ++ ·)

/-- The words of a line are those behind the splitter and what it makes of the end. -/
theorem Reaches.splitWords_eq (h : Reaches s words mode w) :
    splitWords s = (splitFrom mode w []).map (words ++ ·) := by
  rw [← h, List.append_nil]

/-- The splitter starts between words. -/
theorem reaches_nil : Reaches [] [] .between [] := fun r => by
  rw [List.nil_append, splitWords]
  cases splitFrom .between [] r <;> rfl

/-- What the splitter does with one character, whatever comes after it. -/
def Takes (mode : Mode) (w : List Char) (c : Char) (words : List String) (mode' : Mode)
    (w' : List Char) : Prop :=
  ∀ r, splitFrom mode w (c :: r) = (splitFrom mode' w' r).map (words ++ ·)

/-- One more character takes the splitter on from where it is. -/
theorem Reaches.concat {words' : List String} {mode' : Mode} {w' : List Char} {c : Char}
    (h : Reaches s words mode w) (hc : Takes mode w c words' mode' w') :
    Reaches (s ++ [c]) (words ++ words') mode' w' := by
  intro r
  rw [List.append_assoc, List.singleton_append, h, hc, Option.map_map]
  congr 1
  funext l
  exact (List.append_assoc words words' l).symm

/-- A character that ends no word takes the splitter to another mode. -/
theorem takes_of_eq {c : Char} {mode' : Mode} {w' : List Char}
    (h : ∀ r, splitFrom mode w (c :: r) = splitFrom mode' w' r) : Takes mode w c [] mode' w' :=
  fun r => by
    rw [h]
    cases splitFrom mode' w' r <;> rfl

/-- No separator is a quote or a backslash. -/
theorem ne_of_isSeparator {c : Char} (hc : isSeparator c = true) :
    c ≠ '\'' ∧ c ≠ '"' ∧ c ≠ '\\' := by
  simp only [isSeparator, Bool.or_eq_true, beq_iff_eq] at hc
  rcases hc with (rfl | rfl) | rfl <;> decide

/-- A word is over at a blank outside of quotes. -/
theorem takes_word_separator {c : Char} (hc : isSeparator c = true) :
    Takes .word w c [String.ofList w.reverse] .between [] := by
  intro r
  obtain ⟨hsingle, hdouble, hescape⟩ := ne_of_isSeparator hc
  rw [splitFrom, if_neg hsingle, if_neg hdouble, if_neg hescape, if_pos hc]
  rfl

/-- Between words a separator changes nothing. -/
theorem takes_between_separator {c : Char} (hc : isSeparator c = true) :
    Takes .between w c [] .between [] := by
  refine takes_of_eq fun r => ?_
  obtain ⟨hsingle, hdouble, hescape⟩ := ne_of_isSeparator hc
  rw [splitFrom, if_neg hsingle, if_neg hdouble, if_neg hescape, if_pos hc]

/-! ## The length of words -/

/-- The bytes that have been read but can still come into the word: those of a backslash. -/
def Mode.pending : Mode → Nat
  | .betweenEscape | .wordEscape | .doubleEscape => 1
  | _ => 0

/-- The bytes that can come into the current word so far. -/
def held (mode : Mode) (w : List Char) : Nat := Text.utf8Size w + mode.pending

/-- Whether one character takes the splitter on, with no word longer than what it is made of. -/
def Advances (mode : Mode) (w : List Char) (c : Char) : Prop :=
  ∃ words mode' w', Takes mode w c words mode' w' ∧
    (∀ word ∈ words, Text.utf8Size word.toList ≤ Text.utf8Size w) ∧
    held mode' w' ≤ held mode w + c.utf8Size

/-- A character that ends no word makes it no longer than the character is. -/
theorem advances_of_eq {c : Char} {mode' : Mode} {w' : List Char}
    (h : ∀ r, splitFrom mode w (c :: r) = splitFrom mode' w' r)
    (hheld : held mode' w' ≤ held mode w + c.utf8Size := by
      simp only [held, Mode.pending, Text.utf8Size_cons, Text.utf8Size_nil]
      omega) :
    Advances mode w c :=
  ⟨[], mode', w', takes_of_eq h, List.forall_mem_nil _, hheld⟩

/-- Every character takes the splitter on, by the tests that the mode makes on it. -/
theorem advances (mode : Mode) (w : List Char) (c : Char) : Advances mode w c := by
  have hc := c.utf8Size_pos
  have hbackslash : '\\'.utf8Size = 1 := by decide
  cases mode with
  | between =>
    by_cases hsingle : c = '\''
    · exact advances_of_eq fun r => by rw [splitFrom, if_pos hsingle]
    by_cases hdouble : c = '"'
    · exact advances_of_eq fun r => by rw [splitFrom, if_neg hsingle, if_pos hdouble]
    by_cases hescape : c = '\\'
    · exact advances_of_eq fun r => by
        rw [splitFrom, if_neg hsingle, if_neg hdouble, if_pos hescape]
    by_cases hseparator : isSeparator c = true
    · exact ⟨_, _, _, takes_between_separator hseparator, List.forall_mem_nil _,
        by simp [held, Mode.pending]⟩
    by_cases hmark : c = '#'
    · exact advances_of_eq fun r => by
        rw [splitFrom, if_neg hsingle, if_neg hdouble, if_neg hescape,
          if_neg hseparator, if_pos hmark]
    · exact advances_of_eq fun r => by
        rw [splitFrom, if_neg hsingle, if_neg hdouble, if_neg hescape,
          if_neg hseparator, if_neg hmark]
  | word =>
    by_cases hsingle : c = '\''
    · exact advances_of_eq fun r => by rw [splitFrom, if_pos hsingle]
    by_cases hdouble : c = '"'
    · exact advances_of_eq fun r => by rw [splitFrom, if_neg hsingle, if_pos hdouble]
    by_cases hescape : c = '\\'
    · exact advances_of_eq fun r => by
        rw [splitFrom, if_neg hsingle, if_neg hdouble, if_pos hescape]
    by_cases hseparator : isSeparator c = true
    · exact ⟨_, _, _, takes_word_separator hseparator, by simp [Text.utf8Size_reverse],
        by simp [held, Mode.pending]⟩
    · exact advances_of_eq fun r => by
        rw [splitFrom, if_neg hsingle, if_neg hdouble, if_neg hescape, if_neg hseparator]
  | double =>
    by_cases hdouble : c = '"'
    · exact advances_of_eq fun r => by rw [splitFrom, if_pos hdouble]
    by_cases hescape : c = '\\'
    · exact advances_of_eq fun r => by rw [splitFrom, if_neg hdouble, if_pos hescape]
    · exact advances_of_eq fun r => by rw [splitFrom, if_neg hdouble, if_neg hescape]
  | doubleEscape =>
    by_cases hend : c = '\n'
    · exact advances_of_eq fun r => by rw [splitFrom, if_pos hend]
    by_cases hspecial : isDoubleSpecial c = true
    · exact advances_of_eq fun r => by rw [splitFrom, if_neg hend, if_pos hspecial]
    · exact advances_of_eq fun r => by rw [splitFrom, if_neg hend, if_neg hspecial]
  | single =>
    by_cases hsingle : c = '\''
    · exact advances_of_eq fun r => by rw [splitFrom, if_pos hsingle]
    · exact advances_of_eq fun r => by rw [splitFrom, if_neg hsingle]
  | betweenEscape =>
    by_cases hend : c = '\n'
    · exact advances_of_eq fun r => by rw [splitFrom, if_pos hend]
    · exact advances_of_eq fun r => by rw [splitFrom, if_neg hend]
  | wordEscape =>
    by_cases hend : c = '\n'
    · exact advances_of_eq fun r => by rw [splitFrom, if_pos hend]
    · exact advances_of_eq fun r => by rw [splitFrom, if_neg hend]
  | comment =>
    by_cases hend : c = '\n'
    · exact advances_of_eq fun r => by rw [splitFrom, if_pos hend]
    · exact advances_of_eq fun r => by rw [splitFrom, if_neg hend]

/-- Wherever a line is cut, the splitter is somewhere, and no word is longer than the line so
far. -/
theorem exists_reaches (s : List Char) : ∃ words mode w, Reaches s words mode w ∧
    (∀ word ∈ words, Text.utf8Size word.toList ≤ Text.utf8Size s) ∧
    held mode w ≤ Text.utf8Size s := by
  induction s using List.reverseRecOn with
  | nil => exact ⟨_, _, _, reaches_nil, List.forall_mem_nil _, le_rfl⟩
  | append_singleton s c ih =>
    obtain ⟨words, mode, w, h, hwords, hheld⟩ := ih
    obtain ⟨words', mode', w', hc, hwords', hheld'⟩ := advances mode w c
    rw [Text.utf8Size_append, Text.utf8Size_cons, Text.utf8Size_nil, Nat.add_zero]
    refine ⟨_, _, _, h.concat hc, fun word hword => ?_, by omega⟩
    rcases List.mem_append.1 hword with hword | hword
    · exact (hwords word hword).trans (Nat.le_add_right _ _)
    · have hw : Text.utf8Size w ≤ held mode w := Nat.le_add_right _ _
      have hle := hwords' word hword
      omega

/-- The last word is no longer than what has been read of it. -/
theorem utf8Size_le_of_mem_splitFrom_nil {word : String}
    (h : splitFrom mode w [] = some words) (hword : word ∈ words) :
    Text.utf8Size word.toList ≤ held mode w := by
  have hbackslash : '\\'.utf8Size = 1 := by decide
  cases mode with
  | between | comment =>
    cases h
    cases hword
  | single | double | doubleEscape => cases h
  | word | betweenEscape | wordEscape =>
    cases h
    rw [List.mem_singleton.1 hword]
    simp [held, Mode.pending, Text.utf8Size_reverse, hbackslash]

/-- No word is longer than the line. -/
theorem utf8Size_le_of_mem_splitWords {word : String} (h : splitWords s = some words)
    (hword : word ∈ words) : Text.utf8Size word.toList ≤ Text.utf8Size s := by
  obtain ⟨ws, mode, w, hreaches, hwords, hheld⟩ := exists_reaches s
  rw [hreaches.splitWords_eq] at h
  obtain ⟨last, hlast, rfl⟩ := Option.map_eq_some_iff.1 h
  rcases List.mem_append.1 hword with hword | hword
  · exact hwords word hword
  · exact (utf8Size_le_of_mem_splitFrom_nil hlast hword).trans hheld

/-! ## Texts that stand for themselves -/

/-- Whether all characters of a name stand for themselves wherever it is put. -/
def Ordinary (name : String) : Prop := ∀ c ∈ name.toList, Literal c ∧ c ≠ '#'

instance : DecidablePred Literal := fun _ => inferInstanceAs (Decidable (_ ∧ _))

instance : DecidablePred Ordinary := fun name => List.decidableBAll _ name.toList

/-- Whether a text that stands for itself comes into a word in a mode. -/
def Mode.isOpen : Mode → Bool
  | .between | .betweenEscape | .word | .wordEscape => true
  | _ => false

/-- Between words nothing of a word has been read. -/
theorem splitFrom_between (w r : List Char) : splitFrom .between w r = splitFrom .between [] r := by
  cases r <;> rfl

/-- A splitter that is between words might as well have read nothing of a word. -/
theorem Reaches.between (h : Reaches s words .between w) : Reaches s words .between [] :=
  fun r => by rw [h, splitFrom_between]

section Literal

variable {x : List Char} (hx : ∀ c ∈ x, Literal c ∧ c ≠ '#')
include hx

/-- A text that stands for itself is added to the word. -/
theorem splitFrom_word_literal : splitFrom .word w x = some [String.ofList (w.reverse ++ x)] := by
  have hword := splitFrom_word_append (w := w) (r := []) fun c hc => (hx c hc).1
  rw [List.append_nil] at hword
  rw [hword, splitFrom, List.reverse_append, List.reverse_reverse]

/-- A text that stands for itself is left out of a comment. -/
theorem splitFrom_comment_literal : splitFrom .comment w x = some [] :=
  splitFrom_comment fun hmem => by cases (hx _ hmem).1.1

/-- A text that stands for itself leaves quotes open. -/
theorem splitFrom_quoted_literal (hmode : mode = .single ∨ mode = .double) :
    splitFrom mode w x = none := by
  induction x generalizing w with
  | nil => rcases hmode with rfl | rfl <;> rfl
  | cons c x ih =>
    obtain ⟨⟨⟨_, hsingle, hdouble, hescape⟩, _⟩, hx⟩ := List.forall_mem_cons.1 hx
    rcases hmode with rfl | rfl
    · rw [splitFrom, if_neg hsingle, ih hx]
    · rw [splitFrom, if_neg hdouble, if_neg hescape, ih hx]

/-- What becomes of a text that stands for itself at the end of a line. -/
theorem splitFrom_literal (hne : x ≠ []) :
    splitFrom mode w x =
      if mode.isOpen then some [String.ofList (if mode = .between then x else w.reverse ++ x)]
      else if mode = .comment then some [] else none := by
  obtain ⟨c, x, rfl⟩ := List.exists_cons_of_ne_nil hne
  obtain ⟨⟨hc, hmark⟩, hrest⟩ := List.forall_mem_cons.1 hx
  have hend : c ≠ '\n' := by
    rintro rfl
    cases hc.1
  cases mode with
  | between =>
    rw [splitFrom_between_cons hc hmark, splitFrom_word_literal hrest]
    rfl
  | word => exact splitFrom_word_literal hx
  | betweenEscape | wordEscape =>
    rw [splitFrom, if_neg hend, splitFrom_word_literal hrest, List.reverse_cons, List.append_assoc]
    rfl
  | comment => exact splitFrom_comment_literal hx
  | single | double => exact splitFrom_quoted_literal hx (by decide)
  | doubleEscape =>
    rw [splitFrom, if_neg hend]
    split <;> exact splitFrom_quoted_literal hrest (Or.inr rfl)

end Literal

/-! ## Lines without marks -/

/-- Whether a character parts words in the same line. -/
def IsBlank (c : Char) : Prop := c = ' ' ∨ c = '\t'

/-- Whether a character has no meaning of its own but for parting words. -/
def Unmarked (c : Char) : Prop := IsBlank c ∨ Literal c ∧ c ≠ '#'

instance : DecidablePred IsBlank := fun _ => inferInstanceAs (Decidable (_ ∨ _))

instance : DecidablePred Unmarked := fun _ => inferInstanceAs (Decidable (_ ∨ _))

/-- Blanks part words. -/
theorem IsBlank.isSeparator {c : Char} (h : IsBlank c) : isSeparator c = true := by
  rcases h with rfl | rfl <;> rfl

/-- A text that stands for itself is the word that it begins. -/
theorem Reaches.append_literal (h : Reaches s words .between [])
    (hw : ∀ c ∈ w, Literal c ∧ c ≠ '#') (hne : w ≠ []) :
    Reaches (s ++ w) words .word w.reverse := by
  obtain ⟨c, w, rfl⟩ := List.exists_cons_of_ne_nil hne
  obtain ⟨⟨hc, hmark⟩, hw⟩ := List.forall_mem_cons.1 hw
  intro r
  rw [List.append_assoc, h, List.cons_append, splitFrom_between_cons hc hmark,
    splitFrom_word_append fun d hd => (hw d hd).1, List.reverse_cons]

/-- After a text that stands for itself and a blank, the splitter is between two words again. -/
theorem Reaches.exists_append_blank {c : Char} (h : Reaches s words .between [])
    (hw : ∀ c ∈ w, Literal c ∧ c ≠ '#') (hc : IsBlank c) :
    ∃ words', Reaches (s ++ w ++ [c]) words' .between [] := by
  by_cases hne : w = []
  · rw [hne, List.append_nil]
    exact ⟨_, h.concat (takes_between_separator hc.isSeparator)⟩
  · exact ⟨_, (h.append_literal hw hne).concat (takes_word_separator hc.isSeparator)⟩

/-- In a line without marks, the splitter is between two words in front of the last one. -/
theorem exists_reaches_between (hs : ∀ c ∈ s, Unmarked c) : ∃ s' w words, s = s' ++ w ∧
    (∀ c ∈ w, Literal c ∧ c ≠ '#') ∧ Reaches s' words .between [] := by
  induction s using List.reverseRecOn with
  | nil => exact ⟨[], [], [], rfl, List.forall_mem_nil _, reaches_nil⟩
  | append_singleton s c ih =>
    rw [List.forall_mem_append, List.forall_mem_singleton] at hs
    obtain ⟨s', w, words, rfl, hw, h⟩ := ih hs.1
    rcases hs.2 with hblank | hc
    · obtain ⟨words', h⟩ := h.exists_append_blank hw hblank
      exact ⟨s' ++ w ++ [c], [], words', (List.append_nil _).symm, List.forall_mem_nil _, h⟩
    · refine ⟨s', w ++ [c], words, List.append_assoc .., ?_, h⟩
      rw [List.forall_mem_append, List.forall_mem_singleton]
      exact ⟨hw, hc⟩

end LittleComputer.Debugger
