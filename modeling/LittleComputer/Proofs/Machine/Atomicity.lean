import LittleComputer.Machine.InPlace
import LittleComputer.Proofs.Outcome
import Mathlib

/-!
# Steps that fault change nothing

An instruction carried out in place changes the machine bit by bit, yet a fault finds everything as
it was: every check comes before the first change. This is shown by comparison with the effects of
`Machine.execute`, which are worked out in full before any of them is done.
-/

namespace LittleComputer

namespace Action

variable {α : Type} {m : Machine}

/-- What is made of an answer changes nothing else. -/
@[simp] theorem run_map {β : Type} (g : α → β) (x : Action α) :
    (g <$> x).run m =
      match x.run m with
      | .ok a m => .ok (g a) m
      | .error f m => .error f m := by
  rw [← bind_pure_comp, EStateM.run_bind]
  cases x.run m <;> rfl

/-- A fault is handled where the machine is by then. -/
@[simp] theorem run_tryCatch (x : Action α) (handle : Fault → Action α) :
    (tryCatch x handle).run m =
      match x.run m with
      | .ok a m => .ok a m
      | .error f m => (handle f).run m := by
  change EStateM.tryCatch x handle m = _
  unfold EStateM.tryCatch EStateM.run
  cases x m <;> rfl

/-- A byte is written to memory and to nothing else. -/
@[simp] theorem run_writeByte (a : Word) (b : Byte) :
    (writeByte a b).run m = .ok () (m.setByte a b) := rfl

/-- A text is added to the console and to nothing else. -/
@[simp] theorem run_print (text : String) :
    (print text).run m = .ok () { m with console := m.console ++ text } := rfl

/-- To halt sets the flag and nothing else. -/
@[simp] theorem run_halt : halt.run m = .ok () { m with halted := true } := rfl

/-- Nothing is cut off a console that is not longer than that. -/
theorem run_truncate_self :
    (truncate (Text.utf8Size m.console.toList)).run m = .ok () m := by
  simp only [truncate, EStateM.run_modify, Text.splitAtByte?_utf8Size, String.ofList_toList]

end Action

namespace Machine

/-- What an effect does to a machine before the registers are put back. -/
def perform (m : Machine) (e : Effect) : Machine :=
  { m with
    memory := m.memory.store e.store
    halted := m.halted || e.halts
    console := m.console ++ e.output
    input := if e.reads then m.input.tail else m.input }

/-- How a computation ends that has an effect in full or faults at once. -/
def outcome (m : Machine) :
    Except Fault Effect → EStateM.Result Fault Machine (Registers × Option Register)
  | .ok e => .ok (e.registers, e.modified) (m.perform e)
  | .error f => .error f m

/-- An effect that is confined to registers leaves the machine alone. -/
theorem perform_registers (m : Machine) (r : Registers) (modified : Option Register)
    (starved : Bool) : m.perform { registers := r, modified, starved } = m := by
  simp [perform, Memory.store]

/-- A store carried out in place writes what its effect writes, or faults first. -/
theorem run_storeInPlace (m : Machine) (access : Access) (a w : Word) (r : Registers) :
    (storeInPlace access a w).run m =
      match m.stored access a w with
      | .ok store => .ok () (m.perform { registers := r, modified := none, store })
      | .error f => .error f m := by
  cases access with
  | byte => simp [storeInPlace, stored, perform, Memory.store, setByte]
  | word =>
    cases h : Memory.checkWord a <;>
      simp [storeInPlace, stored, storeWord, Action.writeWord, Machine.writeWord,
        Memory.writeWord, h, perform, Memory.store, Except.map]
  | indirect =>
    cases hp : m.memory.fetch a with
    | error f => simp [storeInPlace, stored, hp]
    | ok pointer =>
      cases h : Memory.checkWord pointer <;>
        simp [storeInPlace, stored, storeWord, Action.writeWord, Machine.writeWord,
          Memory.writeWord, h, hp, perform, Memory.store, Except.map]

/-- A byte that is read in place leaves what its effect leaves. -/
theorem run_readInput (m : Machine) (r : Registers) (echo : Bool) :
    (readInput r echo).run m =
      .ok ((m.readByte r echo).registers, if m.input = [] then none else some .io)
        (m.perform (m.readByte r echo)) := by
  cases h : m.input with
  | nil =>
    have hm : m.readByte r echo = { registers := r, modified := some .link, starved := true } := by
      rw [readByte, h]
    simp [readInput, Action.takeByte, h, hm, perform_registers]
  | cons b rest =>
    cases echo <;> simp [readInput, Action.takeByte, readByte, perform, Memory.store, h]

/-- A routine can only fault while it reads a string, before it has changed anything. -/
theorem run_serveInPlace (m : Machine) (r : Registers) (routine : Service) :
    (serveInPlace r routine).run m = m.outcome (m.serve (r.set .link r.pc) routine) := by
  have h0 : (r.set .link r.pc).get .io = r.get .io := by simp
  cases routine with
  | getc =>
    cases h : m.input <;>
      simp [serveInPlace, serve, outcome, run_readInput, readByte, h]
  | read =>
    cases h : m.input <;>
      simp [serveInPlace, serve, outcome, run_readInput, readByte, h]
  | out => simp [serveInPlace, serve, outcome, perform, Memory.store]
  | halt => simp [serveInPlace, serve, outcome, perform, Memory.store]
  | puts =>
    cases h : m.memory.wordString (r.get .io) <;>
      simp [serveInPlace, serve, outcome, perform, Memory.store, h, h0]
  | putsp =>
    cases h : m.memory.byteString (r.get .io) <;>
      simp [serveInPlace, serve, outcome, perform, Memory.store, h, h0]

/-- A call carried out in place does what its effect does, or faults first. -/
theorem run_trapInPlace (m : Machine) (r : Registers) (vector : Nat) :
    (trapInPlace r vector).run m = m.outcome (m.trap r vector) := by
  unfold trapInPlace trap
  cases h : Service.ofVector? vector with
  | none => rfl
  | some routine => exact run_serveInPlace m r routine

/-- An instruction carried out in place has its effect, or faults and has none. -/
theorem run_executeInPlace (m : Machine) (r : Registers) (i : Instruction) :
    (executeInPlace r i).run m = m.outcome (m.execute r i) := by
  cases i with
  | operate op dr sr1 argument => simp [executeInPlace, execute, outcome, result, perform_registers]
  | not dr sr => simp [executeInPlace, execute, outcome, result, perform_registers]
  | branch condition offset9 =>
    by_cases hc : condition.intersects r.condition = true
    · cases h : r.pc.offset (2 * offset9) <;>
        simp [executeInPlace, execute, outcome, goTo, perform_registers, hc, h]
    · simp [executeInPlace, execute, outcome, goTo, perform_registers, hc]
  | jump base => simp [executeInPlace, execute, outcome, goTo, perform_registers]
  | ret => simp [executeInPlace, execute, outcome, goTo, perform_registers]
  | call offset11 =>
    cases h : r.pc.offset (2 * offset11) <;>
      simp [executeInPlace, execute, outcome, callTo, perform_registers, h]
  | callRegister base => simp [executeInPlace, execute, outcome, callTo, perform_registers]
  | load access dr base offset6 =>
    cases ha : (r.get base).offset (access.unit * offset6) with
    | error f => simp [executeInPlace, execute, outcome, ha]
    | ok a =>
      cases hw : m.loaded access a <;>
        simp [executeInPlace, execute, outcome, result, perform_registers, ha, hw]
  | store access sr base offset6 =>
    cases ha : (r.get base).offset (access.unit * offset6) with
    | error f => simp [executeInPlace, execute, outcome, ha]
    | ok a =>
      cases hs : m.stored access a (r.get sr) <;>
        simp [executeInPlace, execute, outcome, run_storeInPlace m access a _ r, ha, hs]
  | loadAddress dr offset9 =>
    cases h : r.pc.offset (2 * offset9) <;>
      simp [executeInPlace, execute, outcome, result, perform_registers, h]
  | shift direction dr sr amount4 =>
    simp [executeInPlace, execute, outcome, result, perform_registers]
  | returnFromInterrupt =>
    simp only [executeInPlace, execute, returnFromInterrupt]
    cases hpc : m.memory.fetch (r.get .stack) with
    | error f => simp [outcome, hpc]
    | ok pc =>
      cases hsp : (r.get .stack).offset 2 with
      | error f => simp [outcome, hpc]
      | ok sp =>
        cases hpsr : m.memory.fetch sp with
        | error f => simp [outcome, hpc, hpsr]
        | ok psr =>
          cases htop : sp.offset 2 <;>
            simp [outcome, hpc, hpsr, htop, perform_registers]
  | trap vector => exact run_trapInPlace m r vector

/-- A step in place ends as the effect that was planned for it, or faults and leaves the machine as
it was. -/
theorem run_stepInPlace (m : Machine) :
    stepInPlace.run m =
      match m.step with
      | .ok m' => .ok () m'
      | .error f => .error f m := by
  unfold stepInPlace step plan
  by_cases hh : m.halted = true
  · simp [hh, Except.map]
  cases hi : m.current with
  | error f => simp [hh, hi, Except.map]
  | ok i =>
    cases hpc : m.registers.pc.offset wordSize with
    | error f => simp [hh, hi, hpc, Except.map]
    | ok pc =>
      have he := run_executeInPlace m { m.registers with pc } i
      cases hx : m.execute { m.registers with pc } i with
      | error f =>
        simp only [EStateM.run_bind, EStateM.run_get, hh, Bool.false_eq_true, if_false, hi, hpc,
          EStateM.run_ofExcept, Action.run_tryCatch, he, outcome, hx, Action.run_truncate_self,
          EStateM.run_throw, Except.map, Except.ok_bind]
      | ok e =>
        simp [hh, hi, hpc, hx, he, outcome, perform, commit, Except.map]

/-- A step in place succeeds if and only if the step does, with the same machine. -/
theorem stepInPlace_eq_ok_iff {m m' : Machine} :
    stepInPlace.run m = .ok () m' ↔ m.step = .ok m' := by
  rw [run_stepInPlace]
  cases m.step <;> simp

/-- A step in place that faults has changed nothing. -/
theorem stepInPlace_eq_fault_iff {m : Machine} {f : Fault} :
    stepInPlace.run m = .error f m ↔ m.step = .error f := by
  rw [run_stepInPlace]
  cases m.step <;> simp

/-- A step in place faults exactly where the planned one does, and the machine is then the same as
before: registers, memory, console, input, and everything else. -/
theorem stepInPlace_eq_error_iff {m m' : Machine} {f : Fault} :
    stepInPlace.run m = .error f m' ↔ m.step = .error f ∧ m' = m := by
  rw [run_stepInPlace]
  cases m.step with
  | ok n => simp
  | error g => simp [eq_comm]

end Machine

end LittleComputer
