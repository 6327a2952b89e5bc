/-!
# Log entries

What happens is reported as entries with a level, a message and named values, any of which but the
level may be missing.
-/

namespace LittleComputer

inductive Level where
  | info
  | warn
  | error
deriving DecidableEq, Repr

/-- The name of a level, as wide as the widest one. -/
def Level.name : Level → String
  | .info => " INFO"
  | .warn => " WARN"
  | .error => "ERROR"

/-- Levels are ordered by how much they matter. -/
def Level.rank : Level → Nat
  | .info => 0
  | .warn => 1
  | .error => 2

/-- The value of a field. -/
inductive Log.Value where
  | number (n : Nat)
  | text (s : String)
deriving DecidableEq, Repr

def Log.Value.shown : Log.Value → String
  | .number n => toString n
  | .text s => s

structure Log where
  level : Level
  message : Option String
  fields : List (String × Log.Value)
deriving DecidableEq, Repr

namespace Log

/-- An entry with a message alone. -/
def plain (level : Level) (message : String) : Log := ⟨level, some message, []⟩

/-- An entry in one line. -/
def line (l : Log) : String :=
  " ".intercalate
    (l.level.name :: (l.message.toList ++ l.fields.map fun (name, v) => s!"{name}={v.shown}"))

end Log

end LittleComputer
