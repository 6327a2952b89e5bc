import LittleComputer.Debugger.Session
import LittleComputer.Proofs.Debugger.Location
import Mathlib

/-!
# Locations as arguments

A location without white space is one word of a command line, and that word is what a command reads
its location from. There are two exceptions. A `#` at the start of a word starts a comment, so a
number with that mark is not seen at all. A minus at the start of a word is that of a flag, so a
negative number is seen but refused.
-/

namespace LittleComputer.Debugger

open Source

/-! ## Words -/

/-- Whether a character stands for itself inside of a word. -/
def Literal (c : Char) : Prop := isSeparator c = false ∧ c ≠ '\'' ∧ c ≠ '"' ∧ c ≠ '\\'

variable {s r w : List Char}

/-- Characters of words stand for themselves, and none is the mark of a comment. -/
theorem literal_of_isWordChar {c : Char} (hc : isWordChar c = true) : Literal c ∧ c ≠ '#' := by
  refine ⟨⟨Bool.eq_false_iff.2 fun hseparator => ?_, ?_, ?_, ?_⟩, ?_⟩
  · simp only [isSeparator, Bool.or_eq_true, beq_iff_eq] at hseparator
    rcases hseparator with (rfl | rfl) | rfl <;> cases hc
  all_goals
    rintro rfl
    cases hc

/-- What is neither white space nor a quote nor a backslash stands for itself. -/
theorem literal_of_not_space {c : Char} (hspace : Text.isSpace c = false)
    (hquote : c ≠ '\'' ∧ c ≠ '"' ∧ c ≠ '\\') : Literal c := by
  refine ⟨Bool.eq_false_iff.2 fun hseparator => ?_, hquote⟩
  simp only [isSeparator, Bool.or_eq_true, beq_iff_eq] at hseparator
  rcases hseparator with (rfl | rfl) | rfl <;> cases hspace

/-- In a word a literal character is added to the word. -/
theorem splitFrom_word_cons {c : Char} (hc : Literal c) :
    splitFrom .word w (c :: r) = splitFrom .word (c :: w) r := by
  obtain ⟨hseparator, hsingle, hdouble, hescape⟩ := hc
  simp only [splitFrom, if_neg hsingle, if_neg hdouble, if_neg hescape, hseparator,
    Bool.false_eq_true, if_false]

/-- In a word literal characters are added one after the other. -/
theorem splitFrom_word_append (hs : ∀ c ∈ s, Literal c) :
    splitFrom .word w (s ++ r) = splitFrom .word (s.reverse ++ w) r := by
  induction s generalizing w with
  | nil => rfl
  | cons c s ih =>
    obtain ⟨hc, hs⟩ := List.forall_mem_cons.1 hs
    rw [List.cons_append, splitFrom_word_cons hc, ih hs, List.reverse_cons, List.append_assoc]
    rfl

/-- Between words a literal character begins a word, unless it begins a comment. -/
theorem splitFrom_between_cons {c : Char} (hc : Literal c) (hmark : c ≠ '#') :
    splitFrom .between w (c :: r) = splitFrom .word [c] r := by
  obtain ⟨hseparator, hsingle, hdouble, hescape⟩ := hc
  simp only [splitFrom, if_neg hsingle, if_neg hdouble, if_neg hescape, if_neg hmark, hseparator,
    Bool.false_eq_true, if_false]

/-- A comment goes on to the end of its line. -/
theorem splitFrom_comment (hs : '\n' ∉ s) : splitFrom .comment w s = some [] := by
  induction s generalizing w with
  | nil => rfl
  | cons c s ih =>
    rw [List.mem_cons, not_or] at hs
    rw [splitFrom, if_neg (Ne.symm hs.1), ih hs.2]

/-- A word in front of a blank. -/
theorem splitWords_append_blank (hs : IsWord s) :
    splitWords (s ++ ' ' :: r) = (splitWords r).map (String.ofList s :: ·) := by
  obtain ⟨c, t, rfl, hc⟩ := hs.exists_cons
  obtain ⟨hliteral, hmark⟩ := literal_of_isWordChar (Operand.isWordChar_of_isWordStart hc)
  have ht : ∀ d ∈ t, Literal d := fun d hd => (literal_of_isWordChar (hs.2 d hd)).1
  rw [splitWords, List.cons_append, splitFrom_between_cons hliteral hmark,
    splitFrom_word_append ht]
  simp [splitFrom, isSeparator, splitWords]

/-- A word at the end of the line. -/
theorem splitWords_word {c : Char} (hs : ∀ d ∈ c :: s, Literal d) (hmark : c ≠ '#') :
    splitWords (c :: s) = some [String.ofList (c :: s)] := by
  obtain ⟨hc, hs⟩ := List.forall_mem_cons.1 hs
  have hword := splitFrom_word_append (w := [c]) (r := []) hs
  rw [List.append_nil] at hword
  rw [splitWords, splitFrom_between_cons hc hmark, hword]
  simp [splitFrom]

/-- A line that begins with the mark of a comment has no words. -/
theorem splitWords_mark (hs : '\n' ∉ s) : splitWords ('#' :: s) = some [] :=
  splitFrom_comment hs

/-! ## Arguments -/

/-- A word that does not begin with a minus is a value. -/
theorem ofWord_value {negative : Bool} {word : String} (h : word.toList.head? ≠ some '-') :
    Token.ofWord negative word = .value := by
  unfold Token.ofWord
  split
  case h_4 => rfl
  all_goals
    rename_i hword
    rw [hword] at h
    exact absurd rfl h

/-- The minus of a number is that of a flag where no negative number can stand. -/
theorem ofWord_negative {word : String} {d : Char} (hword : word.toList = '-' :: d :: r)
    (hd : d.isDigit = true) : Token.ofWord false word = .unknownFlag := by
  have hminus : d ≠ '-' := by
    rintro rfl
    cases hd
  have hhelp : d ≠ 'h' := by
    rintro rfl
    cases hd
  unfold Token.ofWord
  rw [hword]
  split
  · rename_i heq
    cases heq
    exact absurd rfl hminus
  · rename_i heq
    cases heq
    exact absurd rfl hminus
  · rename_i heq
    cases heq
    rw [Bool.false_and, if_neg Bool.false_ne_true, if_neg hhelp]
  · rename_i hne
    exact absurd rfl (hne d r)

/-- The commands that take a location, by their names. -/
def locationCommands : List (String × (Location → Command)) :=
  [("break", .setBreakpoint), ("unbreak", .removeBreakpoint),
    ("memory", fun location => .memory location 1)]

section LocationCommands

variable {name text : String} {command : Location → Command} {location : Location}
  (hcommand : (name, command) ∈ locationCommands)
include hcommand

/-- The names of these commands are words. -/
theorem isWord_name : IsWord name.toList := by
  simp only [locationCommands, List.mem_cons, List.not_mem_nil, or_false, Prod.mk.injEq] at hcommand
  rcases hcommand with ⟨rfl, _⟩ | ⟨rfl, _⟩ | ⟨rfl, _⟩ <;> decide

/-- None of these commands does without its location. -/
theorem ofWords_nothing : Command.ofWords [name] = .error .usage := by
  simp only [locationCommands, List.mem_cons, List.not_mem_nil, or_false, Prod.mk.injEq] at hcommand
  rcases hcommand with ⟨rfl, _⟩ | ⟨rfl, _⟩ | ⟨rfl, _⟩ <;> rfl

/-- The only word after the name is the location, unless it is a flag. -/
theorem ofWords_one :
    Command.ofWords [name, text] =
      match Token.ofWord false text with
      | .value => (locationValue text).map command
      | .help => .error .help
      | _ => .error .usage := by
  have hwith (make : Location → Command) :
      withLocation make [text] =
        match Token.ofWord false text with
        | .value => (locationValue text).map make
        | .help => .error .help
        | _ => .error .usage := by
    cases htoken : Token.ofWord false text <;>
      cases hvalue : locationValue text <;>
      simp [withLocation, Given.ofWords, argument, htoken, hvalue, Except.map, pure, Except.pure]
  have hmemory :
      memoryCommand [text] = withLocation (fun location => .memory location 1) [text] := by
    rw [hwith]
    cases htoken : Token.ofWord false text <;>
      cases hvalue : locationValue text <;>
      simp [memoryCommand, Given.ofWords, argument, htoken, hvalue, Except.map, pure, Except.pure]
  simp only [locationCommands, List.mem_cons, List.not_mem_nil, or_false, Prod.mk.injEq] at hcommand
  rcases hcommand with ⟨rfl, rfl⟩ | ⟨rfl, rfl⟩ | ⟨rfl, rfl⟩
  · exact hwith _
  · exact hwith _
  · exact hmemory.trans (hwith _)

end LocationCommands

/-! ## Lines -/

namespace Location

variable {text : String} {location : Location}

/-- A location begins with an operand, as an offset comes after its register. -/
theorem exists_written_of_parse (htrim : Text.trim text.toList = text.toList)
    (h : parse text = .ok location) :
    ∃ o u r, text.toList = u ++ r ∧ Operand.Written o u := by
  rcases written_of_parse htrim h with ⟨_, _, _, hindexed, _⟩ | ⟨o, _, hwritten⟩
  · obtain ⟨base, _, hscan, _⟩ := scan_of_indexed hindexed
    obtain ⟨u, hu, hwritten, _⟩ := Operand.scan_eq_some_iff.1 hscan
    exact ⟨_, u, _, hu, hwritten⟩
  · exact ⟨o, text.toList, [], (List.append_nil _).symm, hwritten⟩

end Location

/-- Only a number can begin with a minus, which has a digit after it. -/
theorem exists_digit_of_written {o : Operand} (h : o.Written ('-' :: s)) :
    ∃ d t, s = d :: t ∧ d.isDigit = true := by
  generalize hs : '-' :: s = u at h
  cases h with
  | string => cases hs
  | number h =>
    cases h with
    | hexadecimal hmark =>
      simp only [hexMarks, List.mem_cons, List.not_mem_nil, or_false] at hmark
      rcases hmark with rfl | rfl | rfl | rfl <;> cases hs
    | @decimal sharp negative digits hne hdigits =>
      obtain ⟨d, t, rfl⟩ := List.exists_cons_of_ne_nil hne
      have hd := hdigits d List.mem_cons_self
      cases sharp with
      | true => cases hs
      | false =>
        cases negative with
        | true =>
          cases hs
          exact ⟨d, t, rfl, hd⟩
        | false =>
          cases hs
          cases hd
  | register hword | label hword =>
    rw [← hs] at hword
    cases hword.1

/-- The characters of a location that is typed as it is. -/
def Plain (c : Char) : Prop := Text.isSpace c = false ∧ c ≠ '\'' ∧ c ≠ '"' ∧ c ≠ '\\'

instance : DecidablePred Plain := fun _ => inferInstanceAs (Decidable (_ ∧ _))

/-- What is typed as it is has no white space around it. -/
theorem trim_of_plain (hplain : ∀ c ∈ s, Plain c) : Text.trim s = s :=
  Text.trim_eq_self (fun c hc => (hplain c (List.mem_of_mem_head? hc)).1)
    (fun c hc => (hplain c (List.mem_of_getLast? hc)).1)

/-- A line that is split into words is entered as these words. -/
theorem Session.enter_of_splitWords {fuel : Nat} {session : Session} {words : List String}
    (hne : s ≠ []) (hwords : splitWords s = some words) :
    session.enter fuel s = session.enterWords fuel words := by
  unfold Session.enter
  split
  · exact absurd rfl hne
  · rw [hwords]

section Line

variable {name text : String} {command : Location → Command} {location : Location}
  (hplain : ∀ c ∈ text.toList, Plain c) (hparse : Location.parse text = .ok location)
include hplain hparse

/-- A word that begins with a minus is an unknown flag. -/
theorem ofWord_of_minus (hminus : text.toList.head? = some '-') :
    Token.ofWord false text = .unknownFlag := by
  obtain ⟨o, u, r, htext, hwritten⟩ :=
    Location.exists_written_of_parse (trim_of_plain hplain) hparse
  obtain ⟨c, t, rfl, _⟩ := hwritten.exists_cons
  rw [htext] at hminus
  cases hminus
  obtain ⟨d, v, rfl, hd⟩ := exists_digit_of_written hwritten
  exact ofWord_negative htext hd

variable (hcommand : (name, command) ∈ locationCommands)
include hcommand

/-- The location is the second word, unless it is taken for a comment. -/
theorem splitWords_location :
    splitWords (name ++ " " ++ text).toList =
      some (if text.toList.head? = some '#' then [name] else [name, text]) := by
  have hname : splitWords (name ++ " " ++ text).toList =
      (splitWords text.toList).map (name :: ·) := by
    have hline : (name ++ " " ++ text).toList = name.toList ++ ' ' :: text.toList := by simp
    rw [hline, splitWords_append_blank (isWord_name hcommand), String.ofList_toList]
  obtain ⟨o, u, r, htext, hwritten⟩ :=
    Location.exists_written_of_parse (trim_of_plain hplain) hparse
  obtain ⟨c, t, rfl, _⟩ := hwritten.exists_cons
  rw [List.cons_append] at htext
  rw [hname, htext]
  by_cases hmark : c = '#'
  · rw [hmark] at htext ⊢
    have hnewline : '\n' ∉ t ++ r := fun h => by
      cases (hplain '\n' (htext ▸ List.mem_cons_of_mem _ h)).1
    rw [splitWords_mark hnewline]
    rfl
  · have hliteral : ∀ d ∈ c :: (t ++ r), Literal d := fun d hd =>
      literal_of_not_space (hplain d (htext ▸ hd)).1 (hplain d (htext ▸ hd)).2
    rw [splitWords_word hliteral hmark, ← htext, String.ofList_toList]
    simp [htext, hmark]

/-- The command has its location unless that begins with a mark that means something else. -/
theorem map_ofWords_location :
    (splitWords (name ++ " " ++ text).toList).map Command.ofWords =
      some (if text.toList.head? = some '#' ∨ text.toList.head? = some '-' then .error .usage
        else .ok (command location)) := by
  rw [splitWords_location hplain hparse hcommand, Option.map_some]
  by_cases hmark : text.toList.head? = some '#'
  · rw [if_pos hmark, if_pos (Or.inl hmark), ofWords_nothing hcommand]
  · rw [if_neg hmark, ofWords_one hcommand]
    by_cases hminus : text.toList.head? = some '-'
    · rw [if_pos (Or.inr hminus), ofWord_of_minus hplain hparse hminus]
    · rw [if_neg (not_or.2 ⟨hmark, hminus⟩), ofWord_value hminus, locationValue, hparse]
      rfl

end Line

/-- A text without white space, quotes or backslashes that is a location is taken as that location
after the name of a command, unless it begins with `#`, where a comment starts, or with a minus, as
a flag does. -/
theorem enter_location {name text : String} {command : Location → Command} {location : Location}
    (hcommand : (name, command) ∈ locationCommands)
    (hplain : ∀ c ∈ text.toList,
      Text.isSpace c = false ∧ c ≠ '\'' ∧ c ≠ '"' ∧ c ≠ '\\')
    (hparse : Location.parse text = .ok location) (fuel : Nat) (session : Session) :
    splitWords (name ++ " " ++ text).toList =
        some (if text.toList.head? = some '#' then [name] else [name, text]) ∧
      (splitWords (name ++ " " ++ text).toList).map Command.ofWords =
        some (if text.toList.head? = some '#' ∨ text.toList.head? = some '-' then .error .usage
          else .ok (command location)) ∧
      session.enter fuel (name ++ " " ++ text).toList =
        if text.toList.head? = some '#' ∨ text.toList.head? = some '-' then
          ⟨session, [.refused .usage], none⟩
        else { session with last := some (command location) }.execute fuel (command location) := by
  have hwords := splitWords_location hplain hparse hcommand
  have hcommands := map_ofWords_location hplain hparse hcommand
  refine ⟨hwords, hcommands, ?_⟩
  have hne : (name ++ " " ++ text).toList ≠ [] := by simp
  obtain ⟨words, hsplit, hofWords⟩ := Option.map_eq_some_iff.1 hcommands
  rw [Session.enter_of_splitWords hne hsplit]
  by_cases hrefused : text.toList.head? = some '#' ∨ text.toList.head? = some '-'
  · rw [if_pos hrefused] at hofWords ⊢
    rw [Session.enterWords, hofWords]
  · rw [if_neg hrefused] at hofWords ⊢
    rw [Session.enterWords, hofWords]

/-- A mark inside of a word has no meaning of its own. -/
theorem enter_location_offset :
    Location.parse "R6-#2" = .ok (.indexed 6 (-2)) ∧
      (splitWords "unbreak R6-#2".toList).map Command.ofWords =
        some (.ok (.removeBreakpoint (.indexed 6 (-2)))) := by
  have hparse : Location.parse "R6-#2" = .ok (.indexed 6 (-2)) := by decide +kernel
  have hplain : "R6-#2".toList.all (fun c => decide (Plain c)) = true := by decide +kernel
  have hcommand : ("unbreak", Command.removeBreakpoint) ∈ locationCommands := .tail _ (.head _)
  obtain ⟨_, hline, _⟩ := enter_location hcommand
    (fun c hc => of_decide_eq_true (List.all_eq_true.1 hplain c hc)) hparse 0
    (.ofMachine .initial ⟨0x3000, [], []⟩)
  rw [if_neg (by decide +kernel)] at hline
  exact ⟨hparse, hline⟩

/-- Numbers that are locations, but not in a command line. -/
theorem not_entered_marked :
    Location.parse "#12" = .ok (.literal 12) ∧
      (splitWords "break #12".toList).map Command.ofWords = some (.error .usage) ∧
      splitWords "break #12".toList = some ["break"] ∧
      Location.parse "-0" = .ok (.literal 0) ∧
      (splitWords "break -0".toList).map Command.ofWords = some (.error .usage) := by
  refine ⟨by decide +kernel, ?_, by decide +kernel, by decide +kernel, ?_⟩ <;> rfl

end LittleComputer.Debugger
