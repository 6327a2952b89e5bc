import LittleComputer.Machine.Step
import LittleComputer.Proofs.Machine.Run
import Mathlib

/-!
# What is asked of a machine

Whoever drives a machine asks it for one thing after the other. Of a row of requests it is told what
becomes of the machine, which instructions are executed on the way, and all that the machine has
been.
-/

namespace LittleComputer

/-- What can be asked of a machine. -/
inductive Request where
  | load (p : Program)
  | loadWords (base : Word) (words : List Word)
  | step
  | run (limit : Nat)
  | pushInput (text : String)
  | setRegister (i : Register) (w : Word)
  | setPc (a : Word)
  | writeWord (a w : Word)
  | writeByte (a : Word) (b : Byte)

/-- Number of instructions that are executed for a request, at most. -/
def Request.limit : Request → Nat
  | .step => 1
  | .run limit => limit
  | _ => 0

namespace Machine

/-- What is left of a machine by something that may fail. -/
def orSame (m : Machine) : Except Fault Machine → Machine
  | .ok m' => m'
  | .error _ => m

/-- The machine after a request. One that fails changes nothing. -/
def after (m : Machine) : Request → Machine
  | .load p => m.orSame (ofProgram p)
  | .loadWords base words => m.orSame (ofWords base words)
  | .step => m.orSame m.step
  | .run limit => (m.run limit).1
  | .pushInput text => m.pushInput text
  | .setRegister i w => m.setRegister i w
  | .setPc a => m.setPc a
  | .writeWord a w => m.orSame (m.writeWord a w)
  | .writeByte a b => m.setByte a b

/-- The machine after some requests. -/
def afterAll (m : Machine) (requests : List Request) : Machine := requests.foldl after m

/-- The instructions executed one after the other, up to a number of them, each as the machine
before it and the machine after it. -/
def executions : Nat → Machine → List (Machine × Machine)
  | 0, _ => []
  | limit + 1, m =>
    match m.step with
    | .ok m' => (m, m') :: executions limit m'
    | .error _ => []

/-- The instructions executed for some requests. -/
def executed (m : Machine) : List Request → List (Machine × Machine)
  | [] => []
  | q :: rest => m.executions q.limit ++ (m.after q).executed rest

/-- All that a machine has been when some requests are done, those between two instructions of a run
included. -/
def history (m : Machine) : List Request → List Machine
  | [] => [m]
  | q :: rest => m :: (m.executions q.limit).map Prod.snd ++ (m.after q).history rest

/-- Requests are done one after the other. -/
theorem afterAll_cons (m : Machine) (q : Request) (rest : List Request) :
    m.afterAll (q :: rest) = (m.after q).afterAll rest := rfl

/-- A step that succeeds leaves the machine that it makes. -/
theorem after_of_step {m m' : Machine} (h : m.step = .ok m') : m.after .step = m' := by
  rw [after, h]
  rfl

/-- To be asked for a step is to be asked for a run of one. -/
theorem after_step (m : Machine) : m.after .step = (m.run 1).1 := by
  by_cases hhalted : m.halted = true
  · rw [after, step_of_halted hhalted, run_of_halted hhalted]
    rfl
  cases hstep : m.step with
  | error f =>
    rw [after, hstep, run_of_fault (Bool.eq_false_iff.2 hhalted) hstep]
    rfl
  | ok m' => rw [after_of_step hstep, run_of_step hstep, run_zero]

/-! ## The instructions executed -/

/-- No instruction is executed where the first one faults. -/
theorem executions_of_fault {m : Machine} {f : Fault} (h : m.step = .error f) (limit : Nat) :
    m.executions limit = [] := by
  cases limit with
  | zero => rfl
  | succ limit => rw [executions, h]

/-- A step that succeeds is executed, and then those after it. -/
theorem executions_of_step {m m' : Machine} (h : m.step = .ok m') (limit : Nat) :
    m.executions (limit + 1) = (m, m') :: m'.executions limit := by
  rw [executions, h]

/-- Every instruction that is executed succeeds. -/
theorem step_of_mem_executions {m : Machine} {limit : Nat} {e : Machine × Machine}
    (h : e ∈ m.executions limit) : e.1.step = .ok e.2 := by
  induction limit generalizing m with
  | zero => cases h
  | succ limit ih =>
    rw [executions] at h
    split at h
    · rename_i m' hstep
      rcases List.mem_cons.1 h with rfl | h
      · exact hstep
      · exact ih h
    · cases h

/-- What is executed for requests is a step from one machine to the next. -/
theorem step_of_mem_executed {m : Machine} {requests : List Request} {e : Machine × Machine}
    (h : e ∈ m.executed requests) : e.1.step = .ok e.2 := by
  induction requests generalizing m with
  | nil => cases h
  | cons q rest ih =>
    rcases List.mem_append.1 h with h | h
    · exact step_of_mem_executions h
    · exact ih h

/-- What requests leave is among all that the machine has been. -/
theorem afterAll_mem_history (m : Machine) (requests : List Request) :
    m.afterAll requests ∈ m.history requests := by
  induction requests generalizing m with
  | nil => exact List.mem_singleton_self m
  | cons q rest ih => exact List.mem_cons_of_mem m (List.mem_append_right _ (ih (m.after q)))

/-- What holds of a machine and of nothing executed, and still holds with one more instruction
before those executed, holds of every run. -/
theorem executions_run {P : Machine → List (Machine × Machine) → Machine → Prop}
    (nil : ∀ m, P m [] m)
    (cons : ∀ m m' l n, m.step = .ok m' → P m' l n → P m ((m, m') :: l) n) (limit : Nat)
    (m : Machine) : P m (m.executions limit) (m.run limit).1 := by
  induction limit, m using run_induction with
  | zero m => exact nil m
  | halted limit m hhalted =>
    rw [executions_of_fault (step_of_halted hhalted), run_of_halted hhalted]
    exact nil m
  | fault limit m f hrunning hstep =>
    rw [executions_of_fault hstep, run_of_fault hrunning hstep]
    exact nil m
  | step limit m m' hstep ih =>
    rw [executions_of_step hstep, run_of_step hstep]
    exact cons m m' _ _ hstep ih

/-- A run leaves the machine that its last instruction makes. -/
theorem run_eq_or_mem (limit : Nat) (m : Machine) :
    (m.run limit).1 = m ∨ (m.run limit).1 ∈ (m.executions limit).map Prod.snd := by
  refine executions_run (P := fun m l n => n = m ∨ n ∈ l.map Prod.snd) (fun _ => Or.inl rfl) ?_
    limit m
  rintro m m' l n - (rfl | h)
  · exact Or.inr List.mem_cons_self
  · exact Or.inr (List.mem_cons_of_mem _ h)

end Machine

end LittleComputer
