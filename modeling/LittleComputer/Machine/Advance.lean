import LittleComputer.Machine.Step

/-!
# Executing many instructions

Instructions are executed one after the other, and what the machine reports on the way is kept. A
set of addresses can be given to stop at.
-/

namespace LittleComputer.Machine

/-- Why instructions are executed no further. -/
inductive Stop where
  /-- As many are executed as were to be. -/
  | limit
  | halted
  | faulted (fault : Fault)
  /-- The next one is at an address to stop at. -/
  | arrived
deriving DecidableEq, Repr

/-- Where the execution of instructions ends. -/
structure Advance where
  machine : Machine
  /-- What was reported on the way, the last one first. -/
  reversedNotices : List Notice
  stop : Stop

/-- What was reported on the way. -/
def Advance.notices (a : Advance) : List Notice := a.reversedNotices.reverse

/-- Go on after instructions that reported something. -/
def advanceFrom (stopAt : Word → Bool) : Nat → Machine → List Notice → Advance
  | 0, m, seen => ⟨m, seen, .limit⟩
  | limit + 1, m, seen =>
    match m.plan with
    | .error f => ⟨m, seen, .faulted f⟩
    | .ok e =>
      let seen := (e.notices (m.steps + 1)).reverse ++ seen
      let m := m.commit e
      if m.halted then ⟨m, seen, .halted⟩
      else if stopAt m.registers.pc then ⟨m, seen, .arrived⟩
      else advanceFrom stopAt limit m seen

/-- Execute a number of instructions, unless the machine halts or faults, or comes to an address to
stop at. The address of the first one does not count. -/
def advance (stopAt : Word → Bool) (limit : Nat) (m : Machine) : Advance :=
  advanceFrom stopAt limit m []

end LittleComputer.Machine
