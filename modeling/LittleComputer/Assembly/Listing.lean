import LittleComputer.Assembly.Program
import LittleComputer.Instruction.Decode

/-!
# Listings

A listing has a line for every word of a program: its address, the word itself, the label there, and
the instruction that the word encodes or else a directive that stores it. So the last column of a
listing is a source again.
-/

namespace LittleComputer

namespace Assembly

/-- A text filled up with blanks. -/
def padRight (width : Nat) (text : String) : String :=
  text ++ String.ofList (List.replicate (width - text.length) ' ')

/-- A line of source that stands for a word. -/
def wordSource (w : Word) : String :=
  match Instruction.decode w with
  | .ok i => i.text
  | .error _ => Word.fillText w

end Assembly

open Assembly

namespace Program

/-- The line of a word in the listing. -/
def listingLine (p : Program) (address word : Word) : String :=
  let label := padRight 10 ((p.labelAt? address).getD "")
  s!"{Word.text address}  {Word.text word}  {label} {wordSource word}\n"

/-- The words of a program. -/
def listing (p : Program) : String :=
  String.join (p.entries.map fun (address, word) => p.listingLine address word)

/-- The labels of a program. -/
def symbolTable (p : Program) : String :=
  String.join (p.symbols.sorted.map fun (label, address) =>
    s!"{padRight 10 label} {Word.text address}\n")

end Program

end LittleComputer
