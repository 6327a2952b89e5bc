import LittleComputer.Debugger.Session
import Mathlib

/-!
# What lines and commands do to a session

A command runs the machine, lists instructions or changes the breakpoints, and leaves the rest of
its session alone (`Becomes`). A line repeats a command, stands for one, or changes nothing
(`Entered`). What is to hold all through a session has to be checked in these cases only, as is done
here for the order of the breakpoints.
-/

namespace LittleComputer.Debugger

variable {fuel : Nat} {line : List Char}

/-- The command that a line stands for by itself, if it is accepted as one. -/
def Command.ofLine? (line : List Char) : Option Command :=
  (splitWords line).bind fun words => (Command.ofWords words).toOption

namespace Session

variable {s t : Session} {c : Command}

/-! ## Commands -/

/-- What a session can turn into by a command. -/
inductive Becomes (s : Session) : Command → Session → Prop
  | same (c : Command) : Becomes s c s
  | stepped (count : Nat) (a : Machine.Advance) : Becomes s (.step count) (s.advanced a)
  | resumed (a : Machine.Advance) : Becomes s .resume (s.advanced a)
  | listed (count : Nat) (address : Word) :
    Becomes s (.list count) { s with listAt := some address }
  | broken (location : Location) (address : Word) :
    Becomes s (.setBreakpoint location) { s with breakpoints := s.breakpoints.insert address }
  | unbroken (location : Location) (address : Word) :
    Becomes s (.removeBreakpoint location) { s with breakpoints := s.breakpoints.remove address }

/-- No command changes what the session remembers. -/
theorem Becomes.last (h : s.Becomes c t) : t.last = s.last := by
  cases h <;> rfl

/-- No command puts the breakpoints out of order. -/
theorem Becomes.sorted (h : s.Becomes c t) (hs : Breakpoints.Sorted s.breakpoints) :
    Breakpoints.Sorted t.breakpoints := by
  cases h with
  | same | stepped | resumed | listed => exact hs
  | broken => exact Breakpoints.sorted_insert hs
  | unbroken => exact Breakpoints.sorted_remove hs

/-- Whether a reply can be that to a command. No command ends the input. -/
structure Answered (s : Session) (c : Command) (reply : Reply) : Prop where
  session : s.Becomes c reply.session
  ending : reply.ending ≠ some .endOfInput

/-- Where every address is answered, so is a location. -/
theorem answered_withAddress {reply : Word → Reply} (h : ∀ address, s.Answered c (reply address))
    (location : Location) : s.Answered c (s.withAddress location reply) := by
  unfold withAddress
  split
  · exact h _
  · exact ⟨.same c, nofun⟩
  · exact ⟨.same c, nofun⟩

/-- Every command is answered. -/
theorem answered_execute (fuel : Nat) (s : Session) (c : Command) :
    s.Answered c (s.execute fuel c) := by
  cases c with
  | step count =>
    rw [execute]
    split
    · exact ⟨.same _, nofun⟩
    · exact ⟨.stepped count _, nofun⟩
  | resume =>
    rw [execute]
    split
    · exact ⟨.same _, nofun⟩
    · rw [resume]
      cases (s.machine.advance s.breakpoints.contains fuel).stop <;> exact ⟨.resumed _, nofun⟩
  | list count => exact ⟨.listed count _, nofun⟩
  | memory location count =>
    refine answered_withAddress (fun address => ?_) location
    exact ⟨.same _, nofun⟩
  | setBreakpoint location =>
    refine answered_withAddress (fun address => ?_) location
    unfold setBreakpoint
    split
    · exact ⟨.same _, nofun⟩
    · exact ⟨.broken location address, nofun⟩
  | removeBreakpoint location =>
    refine answered_withAddress (fun address => ?_) location
    unfold removeBreakpoint
    split
    · exact ⟨.unbroken location address, nofun⟩
    · exact ⟨.same _, nofun⟩
  | exit | registers | output | info => exact ⟨.same _, nofun⟩

/-! ## Lines -/

/-- What a line comes to. -/
inductive Entered (fuel : Nat) (s : Session) : List Char → Reply → Prop
  | repeated {c : Command} (hlast : s.last = some c) : Entered fuel s [] (s.execute fuel c)
  | nothing (hlast : s.last = none) : Entered fuel s [] ⟨s, [.nothingToRepeat], none⟩
  | accepted {line : List Char} {c : Command} (hline : Command.ofLine? line = some c) :
    Entered fuel s line ({ s with last := some c }.execute fuel c)
  | refused {line : List Char} {reply : Reply} (hne : line ≠ [])
    (hline : Command.ofLine? line = none) (hsession : reply.session = s)
    (hending : reply.ending ≠ some .endOfInput) : Entered fuel s line reply

/-- A line that is entered comes to one of these cases. -/
theorem entered_enter (fuel : Nat) (s : Session) (line : List Char) :
    s.Entered fuel line (s.enter fuel line) := by
  by_cases hne : line = []
  · subst hne
    rw [enter]
    cases hlast : s.last with
    | none => exact .nothing hlast
    | some c => exact .repeated hlast
  · rw [enter]
    · cases hwords : splitWords line with
      | none =>
        have hline : Command.ofLine? line = none := by
          rw [Command.ofLine?, hwords, Option.bind_none]
        exact .refused hne hline rfl nofun
      | some words =>
        have hline : Command.ofLine? line = (Command.ofWords words).toOption := by
          rw [Command.ofLine?, hwords, Option.bind_some]
        dsimp only
        rw [enterWords]
        cases hparse : Command.ofWords words with
        | ok c =>
          rw [hparse] at hline
          exact .accepted hline
        | error e =>
          rw [hparse] at hline
          cases e <;> exact .refused hne hline rfl nofun
    · exact hne

/-- A line that stands for a command is remembered and executed. -/
theorem enter_of_ofLine? (h : Command.ofLine? line = some c) :
    s.enter fuel line = { s with last := some c }.execute fuel c := by
  have hentered := entered_enter fuel s line
  generalize s.enter fuel line = reply at hentered ⊢
  cases hentered with
  | repeated | nothing => cases h
  | accepted hline =>
    cases hline.symm.trans h
    rfl
  | refused _ hline => cases hline.symm.trans h

/-- A line that is no command changes nothing, unless it is empty. -/
theorem session_enter_of_refused (hne : line ≠ []) (h : Command.ofLine? line = none) :
    (s.enter fuel line).session = s := by
  have hentered := entered_enter fuel s line
  generalize s.enter fuel line = reply at hentered ⊢
  cases hentered with
  | repeated | nothing => exact absurd rfl hne
  | accepted hline => cases hline.symm.trans h
  | refused _ _ hsession => exact hsession

/-- A session remembers the command of a line, or else the one before. -/
theorem last_enter (fuel : Nat) (s : Session) (line : List Char) :
    (s.enter fuel line).session.last = (Command.ofLine? line).or s.last := by
  have hentered := entered_enter fuel s line
  generalize s.enter fuel line = reply at hentered ⊢
  cases hentered with
  | @repeated c hlast => exact (answered_execute fuel s c).session.last
  | nothing => rfl
  | @accepted _ c hline => rw [(answered_execute fuel _ c).session.last, hline, Option.some_or]
  | refused _ hline hsession => rw [hsession, hline, Option.none_or]

/-- What is entered does not end the input, as that is what there is no more of. -/
theorem ending_enter_ne (fuel : Nat) (s : Session) (line : List Char) :
    (s.enter fuel line).ending ≠ some .endOfInput := by
  have hentered := entered_enter fuel s line
  generalize s.enter fuel line = reply at hentered ⊢
  cases hentered with
  | repeated => exact (answered_execute fuel s _).ending
  | nothing => exact nofun
  | accepted => exact (answered_execute fuel _ _).ending
  | refused _ _ _ hending => exact hending

/-! ## Breakpoints -/

/-- No line puts the breakpoints out of order. -/
theorem sorted_enter (hs : Breakpoints.Sorted s.breakpoints) :
    Breakpoints.Sorted (s.enter fuel line).session.breakpoints := by
  have hentered := entered_enter fuel s line
  generalize s.enter fuel line = reply at hentered ⊢
  cases hentered with
  | repeated => exact (answered_execute fuel s _).session.sorted hs
  | nothing => exact hs
  | accepted => exact (answered_execute fuel _ _).session.sorted hs
  | refused _ _ hsession => exact hsession ▸ hs

/-- No lines put the breakpoints out of order. -/
theorem sorted_runFrom (hs : Breakpoints.Sorted s.breakpoints) (fuel : Nat) (events : List Event)
    (lines : List (List Char)) :
    Breakpoints.Sorted (s.runFrom fuel events lines).session.breakpoints := by
  induction lines generalizing s events with
  | nil => exact hs
  | cons line rest ih =>
    rw [runFrom]
    split
    · exact sorted_enter hs
    · exact ih (sorted_enter hs) _

/-- The breakpoints of a session are in ascending order, whatever is entered. -/
theorem sorted_run (fuel : Nat) (machine : Machine) (program : Program)
    (lines : List (List Char)) :
    Breakpoints.Sorted
      ((Session.ofMachine machine program).run fuel lines).session.breakpoints := by
  have hstart : Breakpoints.Sorted (Session.ofMachine machine program).breakpoints :=
    List.Pairwise.nil
  exact sorted_runFrom hstart fuel _ lines

end Session

end LittleComputer.Debugger
