import LittleComputer.Proofs.Debugger.Effects
import Mathlib

/-!
# Repeated commands

An empty line stands for the line of the last command before it that was accepted. So a script can
be written out, with that line in place of each empty one, and the session stays the same from its
first event to its last. What counts is that the words of a line are a command, and not how that
command fares: one that fails is repeated like any other, and a line that is no command, or only
asks for help, is passed over.
-/

namespace LittleComputer.Debugger

variable {fuel : Nat} {line : List Char} {script : List (List Char)}

/-! ## Scripts -/

/-- What is read of a line of the input, if that does not go on in the next line. -/
def readLine (line : List Char) : List Char := applyBackspaces (splitLineEnd (line ++ ['\n'])).1

/-- Whether a line is complete on its own: it has no line feed in it, and leaves no quote open. -/
structure Complete (line : List Char) : Prop where
  onLine : '\n' ∉ line
  closed : (splitWords (readLine line)).isSome = true

/-- The input that some lines make up. -/
def typedLines (script : List (List Char)) : List Char := script.flatMap (· ++ ['\n'])

/-- A complete line is read without the next one. -/
theorem readPiece_of_complete (h : Complete line) :
    readPiece [] (line ++ ['\n']) = .complete (readLine line) := by
  rw [readPiece, List.nil_append]
  exact if_pos h.closed

/-- Complete lines are read one after the other. -/
theorem commandLines_typedLines (h : ∀ line ∈ script, Complete line) :
    commandLines (typedLines script) = script.map readLine := by
  induction script with
  | nil => rfl
  | cons line script ih =>
    obtain ⟨hline, hrest⟩ := List.forall_mem_cons.1 h
    have hpieces : Text.pieces (typedLines (line :: script)) =
        (line ++ ['\n']) :: Text.pieces (typedLines script) := by
      rw [typedLines, List.flatMap_cons, List.append_assoc, List.singleton_append, Text.pieces,
        Text.piecesFrom_append_newline _ hline.onLine]
      rfl
    rw [commandLines, hpieces, commandLinesFrom, readPiece_of_complete hline, List.map_cons,
      ← ih hrest]
    rfl

/-- All that is typed is kept where no backspace is. -/
theorem kept_foldl_enter {graphemes : List (List Char)} (h : ['\x08'] ∉ graphemes) (t : Typed) :
    (graphemes.foldl Typed.enter t).kept = graphemes.flatten.reverse ++ t.kept := by
  induction graphemes generalizing t with
  | nil => rfl
  | cons g rest ih =>
    obtain ⟨hg, hrest⟩ := not_or.1 (mt List.mem_cons.2 h)
    rw [List.foldl_cons, ih hrest, Typed.enter, if_neg (Ne.symm hg), List.flatten_cons,
      List.reverse_append, List.append_assoc]

/-- Without a backspace and a carriage return in it, a line is read as it is typed. -/
theorem readLine_of_plain (hbackspace : '\x08' ∉ line) (hreturn : '\r' ∉ line) :
    readLine line = line := by
  have hend : splitLineEnd (line ++ ['\n']) = (line, ['\n']) := by
    rw [splitLineEnd, List.reverse_append, List.reverse_singleton, List.singleton_append]
    split
    · rename_i r hreverse
      refine absurd (List.mem_reverse.1 ?_) hreturn
      rw [(List.cons.inj hreverse).2]
      exact List.mem_cons_self
    · rename_i r _ hreverse
      rw [← (List.cons.inj hreverse).2, List.reverse_reverse]
    · rename_i hnewline
      exact absurd rfl (hnewline _)
  have hgrapheme : ['\x08'] ∉ Text.graphemes line := by
    intro hmem
    refine hbackspace ?_
    rw [← Text.flatten_graphemes line]
    exact List.mem_flatten_of_mem hmem (List.mem_singleton_self _)
  rw [readLine, hend, applyBackspaces, kept_foldl_enter hgrapheme, Text.flatten_graphemes,
    List.append_nil, List.reverse_reverse]

/-- The lines of a script, in which each empty line is replaced by that of the last command accepted
before it, given the one from before the script. -/
def writtenOut (last : Option (List Char)) : List (List Char) → List (List Char)
  | [] => []
  | line :: rest =>
    if readLine line = [] then last.getD line :: writtenOut last rest
    else if (Command.ofLine? (readLine line)).isSome then line :: writtenOut (some line) rest
    else line :: writtenOut last rest

/-- A script that is written out has no lines of its own. -/
theorem mem_of_mem_writtenOut {last : Option (List Char)} (h : line ∈ writtenOut last script) :
    line ∈ last ∨ line ∈ script := by
  induction script generalizing last with
  | nil => cases h
  | cons first rest ih =>
    unfold writtenOut at h
    split at h
    · rcases List.mem_cons.1 h with rfl | h
      · cases last with
        | none => exact Or.inr List.mem_cons_self
        | some text => exact Or.inl rfl
      · exact (ih h).imp_right (List.mem_cons_of_mem first)
    · split at h
      · rcases List.mem_cons.1 h with rfl | h
        · exact Or.inr List.mem_cons_self
        · rcases ih h with hlast | h
          · cases hlast
            exact Or.inr List.mem_cons_self
          · exact Or.inr (List.mem_cons_of_mem first h)
      · rcases List.mem_cons.1 h with rfl | h
        · exact Or.inr List.mem_cons_self
        · exact (ih h).imp_right (List.mem_cons_of_mem first)

/-! ## What a session remembers -/

namespace Session

variable {s : Session}

/-- Whether a line, if there is one, is that of the command that a session remembers. -/
inductive Recalls (s : Session) : Option (List Char) → Prop
  | nothing (hlast : s.last = none) : Recalls s none
  | line {text : List Char} {c : Command} (hcommand : Command.ofLine? (readLine text) = some c)
    (hlast : s.last = some c) : Recalls s (some text)

/-- What a session remembers is all that matters. -/
theorem Recalls.of_last_eq {t : Session} {last : Option (List Char)} (h : s.Recalls last)
    (hlast : t.last = s.last) : t.Recalls last := by
  cases h with
  | nothing hnone => exact .nothing (hlast.trans hnone)
  | line hcommand hsome => exact .line hcommand (hlast.trans hsome)

/-- An empty line is answered like the line that it stands for. -/
theorem Recalls.enter_getD {last : Option (List Char)} (h : s.Recalls last)
    (hline : readLine line = []) :
    s.enter fuel (readLine (last.getD line)) = s.enter fuel (readLine line) := by
  cases h with
  | nothing => rfl
  | @line text c hcommand hlast =>
    have hs : { s with last := some c } = s := by rw [← hlast]
    rw [Option.getD_some, enter_of_ofLine? hcommand, hs, hline, enter, hlast]

/-- Lines that are entered alike can be exchanged in front of lines that run alike. -/
theorem runFrom_congr {lines lines' : List (List Char)} {first first' : List Char}
    (hfirst : s.enter fuel first = s.enter fuel first') (events : List Event)
    (hrest : ∀ events, (s.enter fuel first').session.runFrom fuel events lines =
      (s.enter fuel first').session.runFrom fuel events lines') :
    s.runFrom fuel events (first :: lines) = s.runFrom fuel events (first' :: lines') := by
  rw [runFrom, runFrom, hfirst]
  simp only [hrest]

/-- By induction on the script. What is remembered is always the last line that was accepted. -/
theorem runFrom_writtenOut {last : Option (List Char)} (h : s.Recalls last) (fuel : Nat)
    (events : List Event) (script : List (List Char)) :
    s.runFrom fuel events ((writtenOut last script).map readLine) =
      s.runFrom fuel events (script.map readLine) := by
  induction script generalizing s last events with
  | nil => rfl
  | cons line rest ih =>
    have hlast := last_enter fuel s (readLine line)
    unfold writtenOut
    split
    · rename_i hline
      refine runFrom_congr (h.enter_getD hline) events fun events => ih (h.of_last_eq ?_) events
      rw [hlast, hline]
      rfl
    · split
      · rename_i haccepted
        obtain ⟨c, hc⟩ := Option.isSome_iff_exists.1 haccepted
        rw [hc, Option.some_or] at hlast
        exact runFrom_congr rfl events fun events => ih (.line hc hlast) events
      · rename_i hrefused
        rw [Option.not_isSome_iff_eq_none.1 hrefused, Option.none_or] at hlast
        exact runFrom_congr rfl events fun events => ih (h.of_last_eq hlast) events

/-! ## Whole sessions -/

/-- At the end of the input, the last command accepted is the one that is remembered. -/
theorem last_runFrom (fuel : Nat) (s : Session) (events : List Event) (lines : List (List Char))
    (h : (s.runFrom fuel events lines).ending = .endOfInput) :
    (s.runFrom fuel events lines).session.last =
      (lines.filterMap Command.ofLine?).getLast?.or s.last := by
  induction lines generalizing s events with
  | nil => rfl
  | cons line rest ih =>
    rw [runFrom] at h ⊢
    cases hending : (s.enter fuel line).ending with
    | some ending =>
      simp only [hending] at h
      exact absurd (hending.trans (congrArg some h)) (ending_enter_ne fuel s line)
    | none =>
      simp only [hending] at h ⊢
      rw [ih _ _ h, last_enter]
      cases hline : Command.ofLine? line with
      | none => rw [List.filterMap_cons_none hline, Option.none_or]
      | some c =>
        rw [List.filterMap_cons_some hline, Option.some_or, List.getLast?_cons]
        cases (rest.filterMap Command.ofLine?).getLast? <;> rfl

/-- The commands that the lines of a script stand for, as far as they are accepted. -/
def accepted (script : List (List Char)) : List Command :=
  script.filterMap fun line => Command.ofLine? (readLine line)

/-- A script of complete lines can be written out, with the line of the last command accepted in
place of each empty one, and nothing in the session changes. What an empty line repeats is the last
line before it whose words are a command: other lines change nothing, and how the command fared does
not count. -/
theorem empty_line_repeats (fuel : Nat) (machine : Machine) (program : Program)
    (h : ∀ line ∈ script, Complete line) :
    let start := Session.ofMachine machine program
    let transcript := start.run fuel (commandLines (typedLines script))
    start.run fuel (commandLines (typedLines (writtenOut none script))) = transcript ∧
      (transcript.ending = .endOfInput → transcript.session.enter fuel [] =
        match (accepted script).getLast? with
        | some c => transcript.session.execute fuel c
        | none => ⟨transcript.session, [.nothingToRepeat], none⟩) ∧
      ∀ (s : Session) (line : List Char), line ≠ [] → Command.ofLine? line = none →
        (s.enter fuel line).session = s := by
  have hwritten : ∀ line ∈ writtenOut none script, Complete line := fun line hline =>
    h line ((mem_of_mem_writtenOut hline).resolve_left nofun)
  dsimp only
  rw [commandLines_typedLines h, commandLines_typedLines hwritten]
  refine ⟨?_, fun hending => ?_, fun s line => session_enter_of_refused⟩
  · exact runFrom_writtenOut (.nothing rfl) fuel [.started] script
  · have hlast := last_runFrom fuel _ _ _ hending
    rw [List.filterMap_map] at hlast
    change _ = (accepted script).getLast?.or none at hlast
    rw [Option.or_none] at hlast
    cases hlatest : (accepted script).getLast? with
    | none => rw [enter, run, hlast, hlatest]
    | some c => rw [enter, run, hlast, hlatest]

/-- A session with a program of no words. -/
def unloaded : Session := .ofMachine .initial ⟨0x3000, [], []⟩

/-- A command that fails, a request for help and an empty line. -/
def failingScript : List (List Char) := ["memory X".toList, "help".toList, []]

/-- A command that fails is repeated, and the request for help in between is not. -/
theorem empty_line_repeats_failing :
    (∀ line ∈ failingScript, Complete line) ∧
      writtenOut none failingScript = ["memory X".toList, "help".toList, "memory X".toList] ∧
      unloaded.run 0 (commandLines (typedLines (writtenOut none failingScript))) =
        unloaded.run 0 (commandLines (typedLines failingScript)) ∧
      (unloaded.run 0 (commandLines (typedLines failingScript))).events =
        [.started, .noAddress (.unknownLabel "X"), .refused .help, .noAddress (.unknownLabel "X"),
          .endOfInput] := by
  have hplain : ∀ line ∈ failingScript, '\x08' ∉ line ∧ '\r' ∉ line := by decide +kernel
  have hread : ∀ line ∈ failingScript, readLine line = line := fun line hline =>
    readLine_of_plain (hplain line hline).1 (hplain line hline).2
  have hclosed : ∀ line ∈ failingScript, '\n' ∉ line ∧ (splitWords line).isSome = true := by
    decide +kernel
  have hcomplete : ∀ line ∈ failingScript, Complete line := fun line hline =>
    ⟨(hclosed line hline).1, by rw [hread line hline]; exact (hclosed line hline).2⟩
  obtain ⟨hrun, _, _⟩ := empty_line_repeats 0 .initial ⟨0x3000, [], []⟩ hcomplete
  refine ⟨hcomplete, ?_, hrun, ?_⟩
  · decide +kernel
  · rw [commandLines_typedLines hcomplete, List.map_congr_left hread, List.map_id']
    decide +kernel

end Session

end LittleComputer.Debugger
