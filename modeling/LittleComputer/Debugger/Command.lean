import LittleComputer.Debugger.CommandTree
import LittleComputer.Debugger.Location

/-!
# Commands of the debugger

The first word of a line names a command, and may be cut short as long as it is the start of one
name alone. The words after it are its arguments. A word that starts with a minus is a flag, of
which there is only the one that asks for help, unless a negative number can stand there; after a
`--` there are no more flags.
-/

namespace LittleComputer.Debugger

open Source (minNumber maxNumber)

/-- What `info` shows a part of. -/
inductive Topic where
  | breakpoints
  | labels
  | steps
deriving DecidableEq, Repr

inductive Command where
  | step (count : Nat)
  | exit
  | registers (register : Option Register)
  | memory (location : Location) (count : Int)
  | list (count : Nat)
  | setBreakpoint (location : Location)
  | removeBreakpoint (location : Location)
  | resume
  | output
  | info (topic : Option Topic)
deriving DecidableEq, Repr

/-- Why words are no command. -/
inductive Refusal where
  /-- They ask for help. -/
  | help
  /-- They are used wrongly. -/
  | usage
  /-- A location in them overflows. -/
  | overflow
deriving DecidableEq, Repr

/-- The command `info` with its topics. -/
def topicTree : CommandTree :=
  ⟨"info", [], [], [], [.leaf "breakpoints" [], .leaf "labels" [], .leaf "steps" []]⟩

/-- The commands of the debugger. -/
def commandTree : CommandTree where
  name := "debugger"
  aliases := []
  hidden := []
  arguments := []
  subcommands := [
    ⟨"step", [], ["s"], ["number"], []⟩,
    .leaf "exit" [],
    .leaf "registers" ["register"],
    .leaf "memory" ["location", "number"],
    .leaf "list" ["number"],
    .leaf "break" ["location"],
    .leaf "unbreak" ["location"],
    .leaf "continue" [],
    .leaf "output" [],
    topicTree]

/-- What a word is where arguments are expected. -/
inductive Token where
  | value
  | help
  /-- The end of flags. -/
  | dashes
  | unknownFlag
deriving DecidableEq, Repr

/-- What a word is, given whether a negative number can stand there. -/
def Token.ofWord (negative : Bool) (word : String) : Token :=
  match word.toList with
  | ['-', '-'] => .dashes
  | '-' :: '-' :: name => if String.ofList name = "help" then .help else .unknownFlag
  | '-' :: c :: r =>
    if negative && (c :: r).all Char.isDigit then .value
    else if c = 'h' then .help
    else .unknownFlag
  | _ => .value

/-- The words given for arguments, and whether help is asked for after them. -/
structure Given where
  values : List String
  asksHelp : Bool
deriving DecidableEq, Repr

/-- Take words for arguments, of each of which it is known whether it can be negative. -/
def Given.ofWords (flags : Bool) : List Bool → List String → Option Given
  | _, [] => some ⟨[], false⟩
  | places, word :: rest =>
    match if flags then Token.ofWord (places.head? = some true) word else .value with
    | .value =>
      match places with
      | [] => none
      | _ :: places => do
        let given ← ofWords flags places rest
        some { given with values := word :: given.values }
    | .help => some ⟨[], true⟩
    | .dashes => ofWords false places rest
    | .unknownFlag => none

/-- An integer, with an optional sign. -/
def integer? (text : String) : Option Int :=
  let (negative, digits) :=
    match text.toList with
    | '+' :: r => (false, r)
    | '-' :: r => (true, r)
    | r => (false, r)
  if digits.isEmpty || !digits.all Char.isDigit then none
  else
    let magnitude : Int := Nat.ofDigitChars 10 digits 0
    some (if negative then -magnitude else magnitude)

/-- An integer between two bounds. -/
def integerBetween (min max : Int) (text : String) : Except Refusal Int :=
  match integer? text with
  | some n => if min ≤ n ∧ n ≤ max then .ok n else .error .usage
  | none => .error .usage

/-- A number of steps, which has no minus. -/
def stepCount (text : String) : Except Refusal Int :=
  if text.toList.head? = some '-' then .error .usage
  else integerBetween 0 18446744073709551615 text

/-- A number of instructions to show. -/
def listCount (text : String) : Except Refusal Int := integerBetween 0 65535 text

/-- A number of words to show, backwards if it is negative. -/
def memoryCount (text : String) : Except Refusal Int := integerBetween minNumber maxNumber text

def registerValue (text : String) : Except Refusal Register :=
  match Register.ofName? text with
  | some r => .ok r
  | none => .error .usage

def locationValue (text : String) : Except Refusal Location :=
  match Location.parse text with
  | .ok location => .ok location
  | .error (.malformed _) => .error .usage
  | .error .overflow => .error .overflow

/-- The value of an argument, if it is given. -/
def argument {α : Type} (read : String → Except Refusal α) :
    Option String → Except Refusal (Option α)
  | some word => (read word).map some
  | none => .ok none

/-- A command without arguments. -/
def withoutArguments (command : Command) (words : List String) : Except Refusal Command :=
  match Given.ofWords true [] words with
  | none => .error .usage
  | some g => if g.asksHelp then .error .help else .ok command

/-- A command with an argument that can be left out. -/
def withOption {α : Type} (read : String → Except Refusal α) (command : Option α → Command)
    (words : List String) : Except Refusal Command :=
  match Given.ofWords true [false] words with
  | none => .error .usage
  | some g => do
    let value ← argument read g.values.head?
    if g.asksHelp then .error .help
    return command value

/-- A command with a location. -/
def withLocation (command : Location → Command) (words : List String) : Except Refusal Command :=
  match Given.ofWords true [false] words with
  | none => .error .usage
  | some g => do
    let location ← argument locationValue g.values.head?
    if g.asksHelp then .error .help
    match location with
    | some location => return command location
    | none => .error .usage

/-- The command that shows memory, with a location and an optional number of words. -/
def memoryCommand (words : List String) : Except Refusal Command :=
  match Given.ofWords true [false, true] words with
  | none => .error .usage
  | some g => do
    let location ← argument locationValue g.values.head?
    let count ← argument memoryCount g.values.tail.head?
    if g.asksHelp then .error .help
    match location with
    | some location => return .memory location (count.getD 1)
    | none => .error .usage

/-- Ask for help on the command that words lead to. -/
def helpOn : CommandTree → List String → Refusal
  | _, [] => .help
  | t, word :: rest =>
    match t.find? word with
    | some s => helpOn s rest
    | none => if t.hasHelp && word = "help" && rest.isEmpty then .help else .usage

/-- The command that `info` and the words after it stand for. -/
def infoCommand (words : List String) : Except Refusal Command :=
  match words with
  | [] => .ok (.info none)
  | word :: rest =>
    match topicTree.infer? word with
    | some "breakpoints" => withoutArguments (.info (some .breakpoints)) rest
    | some "labels" => withoutArguments (.info (some .labels)) rest
    | some "steps" => withoutArguments (.info (some .steps)) rest
    | some _ => .error (helpOn topicTree rest)
    | none => withoutArguments (.info none) (word :: rest)

namespace Command

/-- The command that words stand for. -/
def ofWords (words : List String) : Except Refusal Command :=
  match words with
  | [] => .error .help
  | word :: rest =>
    match commandTree.infer? word with
    | some "step" => withOption stepCount (fun n => .step (n.getD 1).toNat) rest
    | some "exit" => withoutArguments .exit rest
    | some "registers" => withOption registerValue .registers rest
    | some "memory" => memoryCommand rest
    | some "list" => withOption listCount (fun n => .list (n.getD 10).toNat) rest
    | some "break" => withLocation .setBreakpoint rest
    | some "unbreak" => withLocation .removeBreakpoint rest
    | some "continue" => withoutArguments .resume rest
    | some "output" => withoutArguments .output rest
    | some "info" => infoCommand rest
    | some _ => .error (helpOn commandTree rest)
    | none =>
      match Token.ofWord false word with
      | .help => .error .help
      | .dashes => if rest.isEmpty then .error .help else .error .usage
      | _ => .error .usage

end Command

end LittleComputer.Debugger
