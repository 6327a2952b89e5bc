import LittleComputer.Word

/-!
# Labels and their addresses

The labels of a program are kept in the order of their definitions, and shown in the order of their
characters.
-/

namespace LittleComputer.Assembly

/-- Labels with their addresses, in the order of their definitions. -/
abbrev Symbols := List (String × Word)

namespace Symbols

/-- The address of a label. -/
def address? (symbols : Symbols) (label : String) : Option Word := List.lookup label symbols

/-- The labels in the order of their characters. -/
def sorted (symbols : Symbols) : Symbols :=
  List.mergeSort symbols fun s t => decide (s.1 ≤ t.1)

/-- The labels at an address, in the order of their characters. -/
def labelsAt (symbols : Symbols) (address : Word) : List String :=
  (sorted (symbols.filter (·.2 == address))).map (·.1)

/-- A label has the address of its first definition. -/
@[simp] theorem address?_append (symbols symbols' : Symbols) (label : String) :
    address? (symbols ++ symbols') label = (symbols.address? label).or (symbols'.address? label) :=
  List.lookup_append

/-- Sorting keeps all symbols. -/
@[simp] theorem mem_sorted {symbols : Symbols} {entry : String × Word} :
    entry ∈ symbols.sorted ↔ entry ∈ symbols :=
  List.mem_mergeSort

/-- The labels at an address are those defined with it. -/
@[simp] theorem mem_labelsAt {symbols : Symbols} {address : Word} {label : String} :
    label ∈ symbols.labelsAt address ↔ (label, address) ∈ symbols := by
  simp [labelsAt]

end Symbols

end LittleComputer.Assembly
