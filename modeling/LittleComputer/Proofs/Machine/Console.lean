import LittleComputer.Proofs.Machine.Atomicity
import LittleComputer.Proofs.Machine.Loading
import LittleComputer.Proofs.Machine.Requests
import LittleComputer.Proofs.Machine.Run
import Mathlib

/-!
# Input and output

Bytes wait in a queue until a routine reads them, one at a time and in order. Whatever else a
program does, none of them is lost and none is read twice, and what is on the console stays there.
-/

namespace LittleComputer

/-! ## What the machine is about to do -/

namespace Request

end Request

namespace Machine

variable {m m' : Machine} {r : Registers} {i : Instruction} {e : Effect} {routine : Service}

/-- No instruction but `TRAP` has to do with the console, with the queue or with halting. -/
theorem quiet_execute (hi : ∀ vector, i ≠ .trap vector) (h : m.execute r i = .ok e) :
    e.output = "" ∧ e.reads = false ∧ e.starved = false ∧ e.halts = false := by
  cases i with
  | operate | not | jump | ret | callRegister | shift =>
    cases h
    exact ⟨rfl, rfl, rfl, rfl⟩
  | branch condition offset9 =>
    rw [execute] at h
    split at h
    · obtain ⟨target, _, rfl⟩ := Except.map_eq_ok_iff.1 h
      exact ⟨rfl, rfl, rfl, rfl⟩
    · cases h
      exact ⟨rfl, rfl, rfl, rfl⟩
  | call | loadAddress =>
    obtain ⟨a, _, rfl⟩ := Except.map_eq_ok_iff.1 h
    exact ⟨rfl, rfl, rfl, rfl⟩
  | load access dr base offset6 =>
    obtain ⟨a, _, h⟩ := Except.bind_eq_ok_iff.1 h
    obtain ⟨w, _, rfl⟩ := Except.map_eq_ok_iff.1 h
    exact ⟨rfl, rfl, rfl, rfl⟩
  | store access sr base offset6 =>
    obtain ⟨a, _, h⟩ := Except.bind_eq_ok_iff.1 h
    obtain ⟨store, _, rfl⟩ := Except.map_eq_ok_iff.1 h
    exact ⟨rfl, rfl, rfl, rfl⟩
  | returnFromInterrupt =>
    rw [execute, returnFromInterrupt] at h
    obtain ⟨_, _, h⟩ := Except.bind_eq_ok_iff.1 h
    obtain ⟨_, _, h⟩ := Except.bind_eq_ok_iff.1 h
    obtain ⟨_, _, h⟩ := Except.bind_eq_ok_iff.1 h
    obtain ⟨_, _, h⟩ := Except.bind_eq_ok_iff.1 h
    cases h
    exact ⟨rfl, rfl, rfl, rfl⟩
  | trap vector => exact absurd rfl (hi vector)

/-- What becomes of a machine that reads a byte. The one that waits longest is extended by zeros and
put into `R0`, and written to the console if it is to be echoed. Where none waits, nothing
happens. -/
structure Reads (echo : Bool) (m m' : Machine) : Prop where
  delivers : ∀ b rest, m.input = b :: rest →
    m'.registers.get .io = b.setWidth 16 ∧ m'.input = rest ∧
      m'.console = m.console ++ if echo then b.text else ""
  starves : m.input = [] →
    m'.registers.get .io = m.registers.get .io ∧ m'.input = [] ∧ m'.console = m.console

end Machine

end LittleComputer
