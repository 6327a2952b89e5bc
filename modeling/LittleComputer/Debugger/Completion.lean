import LittleComputer.Debugger.CommandTree
import LittleComputer.Debugger.Words
import LittleComputer.Register
import LittleComputer.Text.Utf8

/-!
# Completion

The word in front of the cursor is completed to a command, or to a register or label where a command
takes a location as its first argument. The words before it lead to the command whose word it is.
-/

namespace LittleComputer.Debugger

structure Completion where
  /-- The byte where the completed word starts. -/
  start : Nat
  /-- What the word can be completed to, in the order of characters. -/
  candidates : List String
  /-- What is left to type of the only candidate. -/
  hint : Option String
deriving DecidableEq, Repr

/-- Candidates for a word of the given number of bytes. -/
structure Suggestion where
  size : Nat
  candidates : List String

/-- What can be given for a location: the registers and the labels. -/
def locationWords (labels : List String) : List String := Register.all.map Register.name ++ labels

namespace CommandTree

/-- The words that can come right after a command. -/
def nextWords (t : CommandTree) (locations : List String) : List String :=
  t.subcommands.flatMap (fun s => s.name :: s.aliases) ++ t.help.map (·.name) ++
    (if t.arguments.head? = some "location" then locations else [])

/-- Candidates for the last of some words. Those before it have to be names of commands. -/
def suggest (locations : List String) : CommandTree → List String → Suggestion
  | t, [] => ⟨0, t.nextWords locations⟩
  | t, [last] =>
    ⟨Text.utf8Size last.toList, (t.nextWords locations).filter (startsWith · last)⟩
  | t, first :: rest =>
    match t.find? first with
    | some s => suggest locations s rest
    | none => ⟨0, []⟩

end CommandTree

/-- The words in front of the cursor, with an empty one after a blank. -/
def typedWords (line : List Char) : Option (List String) :=
  (splitWords line).map fun words =>
    match line.getLast? with
    | some ' ' | some '\t' => words ++ [""]
    | _ => words

/-- Texts in the order of characters, each once. -/
def sortedSet (texts : List String) : List String :=
  texts.eraseDups.mergeSort fun s t => decide (s ≤ t)

/-- What is left of the only candidate after the given number of bytes. -/
def hintOf (size : Nat) (candidates : List String) : Option String :=
  match candidates with
  | [candidate] => (Text.splitAtByte? size candidate.toList).map fun (_, rest) => String.ofList rest
  | _ => none

/-- Complete the word before the cursor, which is given by its byte in the line and has to stand
between two characters. -/
def complete (t : CommandTree) (labels : List String) (line : String) (cursor : Nat) :
    Option Completion :=
  (Text.splitAtByte? cursor line.toList).map fun (before, _) =>
    match typedWords before with
    | none => ⟨0, [], none⟩
    | some words =>
      let suggestion := t.suggest (locationWords labels) words
      let candidates := sortedSet suggestion.candidates
      ⟨cursor - suggestion.size, candidates, hintOf suggestion.size candidates⟩

/-- A text in the style of a terminal, which is reset after it. -/
def styled (style text : String) : String := s!"\x1b[{style}m{text}\x1b[0m"

/-- How a hint is shown: dim. -/
def shownHint (hint : String) : String := styled "2" hint

/-- How the prompt is shown: bold. -/
def shownPrompt : String := styled "1" ">> "

end LittleComputer.Debugger
