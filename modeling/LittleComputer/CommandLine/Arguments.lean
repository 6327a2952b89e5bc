import LittleComputer.CommandLine.Run

/-!
# Arguments of the program

The first argument says what to do, and the one that is no flag names the source file. The value of
a flag is the argument after it, or follows an equals sign.
-/

namespace LittleComputer.CommandLine

/-- What the program is to do with a source file. -/
inductive Action where
  | assemble (options : AssembleOptions)
  | run (options : RunOptions)
  /-- Run the program under the debugger. -/
  | debug (options : RunOptions)
deriving DecidableEq, Repr

structure Invocation where
  path : String
  action : Action
deriving DecidableEq, Repr

/-- An argument without a dash, or a flag with its value, which may be missing. -/
inductive Part where
  | plain (text : String)
  | flag (name : String) (value : Option String)
deriving DecidableEq, Repr

/-- The flags that take a value. -/
def valuedFlags : List String := ["--max-steps", "--input"]

/-- Cut a flag at its first equals sign. -/
def splitFlag (argument : List Char) : Part :=
  let name := String.ofList (argument.takeWhile (· != '='))
  match argument.dropWhile (· != '=') with
  | [] => .flag name none
  | _ :: value => .flag name (some (String.ofList value))

/-- The parts of the arguments, with every flag that takes a value joined to it. -/
def parts : List String → List Part
  | [] => []
  | argument :: rest =>
    if valuedFlags.contains argument then
      match rest with
      | [] => [.flag argument none]
      | value :: rest => .flag argument (some value) :: parts rest
    else if argument.toList.head? = some '-' then splitFlag argument.toList :: parts rest
    else .plain argument :: parts rest

/-- How the program is used. -/
def usage : String :=
  "usage: assemble FILE [--strict] [--symbols]\n" ++
  "       run FILE [--strict] [--max-steps=N] [--input=TEXT] [--interactive]\n"

/-- The arguments read so far. -/
structure Arguments where
  paths : List String := []
  strict : Bool := false
  symbols : Bool := false
  maxSteps : Option Nat := none
  input : Option String := none
  interactive : Bool := false
deriving DecidableEq, Repr

/-- A number in decimal digits. -/
def count? (text : String) : Option Nat :=
  let digits := text.toList
  if digits.isEmpty || !digits.all Char.isDigit then none else some (Nat.ofDigitChars 10 digits 0)

/-- Add a part, if it can be used. -/
def Arguments.add (a : Arguments) : Part → Option Arguments
  | .plain path => some { a with paths := a.paths ++ [path] }
  | .flag "--strict" none => some { a with strict := true }
  | .flag "--symbols" none | .flag "-s" none => some { a with symbols := true }
  | .flag "--interactive" none | .flag "-i" none => some { a with interactive := true }
  | .flag "--max-steps" (some count) => (count? count).map fun n => { a with maxSteps := some n }
  | .flag "--input" (some text) => some { a with input := some text }
  | .flag _ _ => none

/-- All arguments after the first. -/
def Arguments.ofList (arguments : List String) : Option Arguments :=
  (parts arguments).foldlM Arguments.add {}

namespace Invocation

/-- What the arguments ask for. -/
def ofArguments : List String → Option Invocation
  | "assemble" :: rest => do
    let a ← Arguments.ofList rest
    match a.paths, a.maxSteps, a.input, a.interactive with
    | [path], none, none, false => some ⟨path, .assemble ⟨a.strict, a.symbols⟩⟩
    | _, _, _, _ => none
  | "run" :: rest => do
    let a ← Arguments.ofList rest
    let options : RunOptions := ⟨a.strict, a.maxSteps.getD 100000, a.input⟩
    match a.paths, a.symbols with
    | [path], false => some ⟨path, if a.interactive then .debug options else .run options⟩
    | _, _ => none
  | _ => none

end Invocation

end LittleComputer.CommandLine
