import LittleComputer.Condition
import LittleComputer.Register
import LittleComputer.Word

/-!
# The register file

Eight general registers, the program counter and the condition codes.
-/

namespace LittleComputer

structure Registers where
  general : Vector Word 8
  pc : Word
  condition : Condition
deriving DecidableEq

namespace Registers

/-- The registers before anything has run, as if the last result had been zero. -/
def initial : Registers := ⟨Vector.replicate 8 0, programStart, ⟨false, true, false⟩⟩

def get (r : Registers) (i : Register) : Word := r.general[i]

/-- Overwrite a register, leaving the condition codes alone. -/
def set (r : Registers) (i : Register) (w : Word) : Registers :=
  { r with general := r.general.set i w }

/-- Overwrite a register, and set the condition codes from its new value. -/
def setResult (r : Registers) (i : Register) (w : Word) : Registers :=
  { r.set i w with condition := .ofValue w }

/-- All registers in one line. -/
def text (r : Registers) : String :=
  String.join (Register.all.map fun i => s!"{i.name} = {Word.text (r.get i)} | ") ++
    s!"PC = {Word.text r.pc} | CC = {r.condition.letters}"

/-- A register that is set has its word, and the others are as they were. -/
@[simp] theorem get_set (r : Registers) (i j : Register) (w : Word) :
    (r.set i w).get j = if i = j then w else r.get j := by
  simp only [get, set, Fin.getElem_fin, Vector.getElem_set, Fin.val_inj]

/-- A register that is set leaves the program counter alone. -/
@[simp] theorem pc_set (r : Registers) (i : Register) (w : Word) : (r.set i w).pc = r.pc := rfl

/-- A register that is set leaves the codes alone. -/
@[simp] theorem condition_set (r : Registers) (i : Register) (w : Word) :
    (r.set i w).condition = r.condition := rfl

/-- A result is in its register, and the others are as they were. -/
@[simp] theorem get_setResult (r : Registers) (i j : Register) (w : Word) :
    (r.setResult i w).get j = if i = j then w else r.get j :=
  get_set r i j w

/-- A result leaves the program counter alone. -/
@[simp] theorem pc_setResult (r : Registers) (i : Register) (w : Word) :
    (r.setResult i w).pc = r.pc := rfl

/-- A result sets the codes by its sign. -/
@[simp] theorem condition_setResult (r : Registers) (i : Register) (w : Word) :
    (r.setResult i w).condition = .ofValue w := rfl

end Registers

end LittleComputer
