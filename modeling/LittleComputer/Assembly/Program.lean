import LittleComputer.Assembly.Resolve

/-!
# Assembled programs

A program is a run of words from an address on, with the addresses of its labels. Assembling a
source lays it out and then finds the words of each item; the first error, in that order, ends it.
-/

namespace LittleComputer

structure Program where
  /-- The address of the first word. -/
  origin : Word
  words : List Word
  symbols : Assembly.Symbols
deriving DecidableEq, Repr

namespace Program

/-- The first address after the program, which need not be one of memory. -/
def endAddress (p : Program) : Nat := p.origin.toNat + wordSize * p.words.length

/-- The words with their addresses. -/
def entries (p : Program) : List (Word × Word) :=
  p.words.zipIdx.map fun (w, i) => (p.origin + BitVec.ofNat 16 (wordSize * i), w)

/-- The label at an address, the first in the order of characters if there are several. -/
def labelAt? (p : Program) (address : Word) : Option String :=
  (p.symbols.labelsAt address).head?

end Program

namespace Assembly

/-- The words of all items. -/
def emit (symbols : Symbols) : List Placement → Except Error (List Word)
  | [] => .ok []
  | p :: ps =>
    match (Scope.mk symbols p.address).words p.item with
    | .error cause => .error ⟨p.line, cause⟩
    | .ok ws => (emit symbols ps).map (ws ++ ·)

/-- The program of a layout. -/
def Layout.program (l : Layout) : Except Error Program :=
  (emit l.symbols l.placements).map fun words => ⟨l.origin, words, l.symbols⟩

/-- Assemble a source. -/
def assemble (options : Options) (source : String) : Except Error Program := do
  let layout ← Layout.ofLines options (Text.lines source.toList)
  layout.program

end Assembly

end LittleComputer
