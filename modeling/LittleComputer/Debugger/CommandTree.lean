/-!
# Trees of commands

A command has a name, other names, which may be hidden, the names of its arguments, and commands
under it. One with commands under it also has a command `help` there.
-/

namespace LittleComputer.Debugger

structure CommandTree where
  name : String
  /-- Other names, which are shown. -/
  aliases : List String
  /-- Other names, which are not shown. -/
  hidden : List String
  /-- The names of the arguments, in order. -/
  arguments : List String
  subcommands : List CommandTree

namespace CommandTree

/-- A command without other names and without commands under it. -/
def leaf (name : String) (arguments : List String) : CommandTree := ⟨name, [], [], arguments, []⟩

/-- All names of a command. -/
def names (t : CommandTree) : List String := t.name :: (t.aliases ++ t.hidden)

/-- The command with a given name under a command. -/
def find? (t : CommandTree) (name : String) : Option CommandTree :=
  t.subcommands.find? fun s => s.names.contains name

/-- Whether a command shows `help` under it. -/
def hasHelp (t : CommandTree) : Bool := !t.subcommands.isEmpty

/-- The command `help`, where there is one. -/
def help (t : CommandTree) : List CommandTree := if t.hasHelp then [leaf "help" []] else []

/-- Whether a text starts with another. -/
def startsWith (text start : String) : Bool := start.toList.isPrefixOf text.toList

/-- The name of the command under this one that a word stands for: the only one with a name that
starts with the word, or else the one with that name. -/
def infer? (t : CommandTree) (word : String) : Option String :=
  match (t.subcommands ++ t.help).filter fun s => s.names.any (startsWith · word) with
  | [s] => some s.name
  | candidates => (candidates.find? fun s => s.names.contains word).map (·.name)

end CommandTree

end LittleComputer.Debugger
