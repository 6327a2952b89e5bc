import LittleComputer.Proofs.Machine.Atomicity
import Mathlib

/-!
# Runs, step by step

A run of a machine that goes on is a step and the run after it. What one step does to a machine is
told of a whole run by `run_induction`: it is a number of steps, each carried out in place, after
which the machine has done as many as it was to, or is halted, or fails at the next step. So a run
can be cut in two at any step.
-/

namespace LittleComputer.Machine

variable {m m' : Machine} {f : Fault} {limit k : Nat}

/-! ## Steps -/

/-- A step is taken if the machine is not halted, there is an instruction with an address after it,
and the instruction can be executed. -/
theorem step_eq_ok_iff :
    m.step = .ok m' ↔
      m.halted = false ∧ ∃ i pc e, m.current = .ok i ∧ m.registers.pc.offset wordSize = .ok pc ∧
        m.execute { m.registers with pc } i = .ok e ∧ m' = m.commit e := by
  unfold step plan
  cases m.halted with
  | true => simp [Except.map]
  | false =>
    simp only [Bool.false_eq_true, if_false, Except.map_eq_ok_iff, Except.bind_eq_ok_iff, true_and]
    constructor
    · rintro ⟨e, ⟨i, hi, pc, hpc, he⟩, rfl⟩
      exact ⟨i, pc, e, hi, hpc, he, rfl⟩
    · rintro ⟨i, pc, e, hi, hpc, he, rfl⟩
      exact ⟨e, ⟨i, hi, pc, hpc, he⟩, rfl⟩

/-- A machine that is halted does not step. -/
theorem step_of_halted (h : m.halted = true) : m.step = .error .halted := by
  rw [step, plan, h]
  rfl

/-- A machine that steps is not halted before. -/
theorem halted_of_step (h : m.step = .ok m') : m.halted = false := (step_eq_ok_iff.1 h).1

/-- A step is counted. -/
theorem steps_of_step (h : m.step = .ok m') : m'.steps = m.steps + 1 := by
  obtain ⟨_, _, _, e, _, _, _, rfl⟩ := step_eq_ok_iff.1 h
  rfl

/-! ## Runs -/

/-- The steps done before a run are added to its number. -/
theorem runFrom_eq (done limit : Nat) (m : Machine) :
    runFrom done limit m = ((m.run limit).1, (m.run limit).2.map (done + ·)) := by
  induction limit generalizing done m with
  | zero => rfl
  | succ limit ih =>
    rw [run, runFrom, runFrom]
    by_cases hhalted : m.halted = true
    · rw [if_pos hhalted, if_pos hhalted]
      rfl
    · rw [if_neg hhalted, if_neg hhalted]
      cases m.plan with
      | error f => rfl
      | ok e =>
        simp only [ih]
        cases ((m.commit e).run limit).2 with
        | error f => rfl
        | ok n => simp [Except.map, Nat.add_assoc]

/-- A run of no steps does nothing. -/
@[simp] theorem run_zero (m : Machine) : m.run 0 = (m, .ok 0) := rfl

/-- A run of a machine that is halted does nothing. -/
theorem run_of_halted (h : m.halted = true) (limit : Nat) : m.run limit = (m, .ok 0) := by
  cases limit with
  | zero => rfl
  | succ limit => rw [run, runFrom, if_pos h]

/-- A run fails if its first step does. -/
theorem run_of_fault (hrunning : m.halted = false) (h : m.step = .error f) (limit : Nat) :
    m.run (limit + 1) = (m, .error f) := by
  rw [step, Except.map_eq_error_iff] at h
  rw [run, runFrom, hrunning, h]
  rfl

/-- A run is its first step and the run after it. -/
theorem run_of_step (h : m.step = .ok m') (limit : Nat) :
    m.run (limit + 1) = ((m'.run limit).1, (m'.run limit).2.map (1 + ·)) := by
  have hrunning := halted_of_step h
  obtain ⟨e, he, rfl⟩ := Except.map_eq_ok_iff.1 h
  rw [run, runFrom, hrunning, he]
  exact runFrom_eq (0 + 1) limit (m.commit e)

/-- Induction on a run: it is to take no step, or the machine is halted, or the first step fails, or
there is a first step with a run after it. -/
@[elab_as_elim]
theorem run_induction {motive : Nat → Machine → Prop} (zero : ∀ m, motive 0 m)
    (halted : ∀ limit m, m.halted = true → motive limit m)
    (fault : ∀ limit m f, m.halted = false → m.step = .error f → motive (limit + 1) m)
    (step : ∀ limit m m', m.step = .ok m' → motive limit m' → motive (limit + 1) m)
    (limit : Nat) (m : Machine) : motive limit m := by
  induction limit generalizing m with
  | zero => exact zero m
  | succ limit ih =>
    by_cases hhalted : m.halted = true
    · exact halted (limit + 1) m hhalted
    cases hstep : m.step with
    | error f => exact fault limit m f (Bool.eq_false_iff.2 hhalted) hstep
    | ok m' => exact step limit m m' hstep (ih m')

/-! ## How a run ends -/

/-- Whether a number of steps lead from one machine to another, and none of them fails. -/
inductive StepsTo : Nat → Machine → Machine → Prop
  | refl (m : Machine) : StepsTo 0 m m
  | step {k : Nat} {m m' n : Machine} (h : stepInPlace.run m = .ok () m') (hrest : StepsTo k m' n) :
    StepsTo (k + 1) m n

/-- As many steps are counted as there are. -/
theorem StepsTo.steps_eq {k : Nat} {m n : Machine} (h : StepsTo k m n) :
    n.steps = m.steps + k := by
  induction h with
  | refl m => rfl
  | step h _ ih => rw [ih, steps_of_step (stepInPlace_eq_ok_iff.1 h), Nat.add_assoc, Nat.add_comm 1]

/-- How a run from a machine ends that is to take no more than a number of steps. -/
inductive Ends : Nat → Machine → Machine × Except Fault Nat → Prop
  /-- All of them are taken. -/
  | limit {k : Nat} {m n : Machine} (h : StepsTo k m n) : Ends k m (n, .ok k)
  | halted {limit k : Nat} {m n : Machine} (h : StepsTo k m n) (hk : k ≤ limit)
    (hn : n.halted = true) : Ends limit m (n, .ok k)
  | fault {limit k : Nat} {m n : Machine} {f : Fault} (h : StepsTo k m n) (hk : k < limit)
    (hn : n.halted = false) (hf : stepInPlace.run n = .error f n) : Ends limit m (n, .error f)

/-- A run that is one step longer ends in the same way. -/
theorem Ends.step {r : Machine × Except Fault Nat} (hstep : m.step = .ok m') (h : Ends limit m' r) :
    Ends (limit + 1) m (r.1, r.2.map (1 + ·)) := by
  have hfirst := stepInPlace_eq_ok_iff.2 hstep
  cases h with
  | limit h =>
    rw [Except.map, Nat.add_comm 1]
    exact .limit (.step hfirst h)
  | halted h hk hn =>
    rw [Except.map, Nat.add_comm 1]
    exact .halted (.step hfirst h) (Nat.succ_le_succ hk) hn
  | fault h hk hn hf => exact .fault (.step hfirst h) (Nat.succ_lt_succ hk) hn hf

/-- Every run ends in one of the three ways. -/
theorem ends_run (limit : Nat) (m : Machine) : Ends limit m (m.run limit) := by
  induction limit, m using run_induction with
  | zero m => exact .limit (.refl m)
  | halted limit m hhalted =>
    rw [run_of_halted hhalted]
    exact .halted (.refl m) (Nat.zero_le limit) hhalted
  | fault limit m f hrunning hstep =>
    rw [run_of_fault hrunning hstep]
    exact .fault (.refl m) (Nat.succ_pos limit) hrunning (stepInPlace_eq_fault_iff.2 hstep)
  | step limit m m' hstep ih =>
    rw [run_of_step hstep]
    exact ih.step hstep

/-- A run takes no more steps than it may. -/
theorem run_le (h : (m.run limit).2 = .ok k) : k ≤ limit := by
  have hends := ends_run limit m
  generalize m.run limit = r at h hends
  cases hends with
  | limit =>
    cases h
    exact Nat.le_refl _
  | halted _ hk =>
    cases h
    exact hk
  | fault => cases h

/-- A run counts the steps that it takes. -/
theorem steps_run (h : (m.run limit).2 = .ok k) : (m.run limit).1.steps = m.steps + k := by
  have hends := ends_run limit m
  generalize m.run limit = r at h hends
  cases hends with
  | limit hsteps | halted hsteps =>
    cases h
    exact hsteps.steps_eq
  | fault => cases h

/-- A run that fails has come to a machine that cannot go on. -/
theorem stuck_of_run (h : (m.run limit).2 = .error f) :
    (m.run limit).1.halted = false ∧ (m.run limit).1.step = .error f := by
  have hends := ends_run limit m
  generalize m.run limit = r at h hends
  cases hends with
  | limit | halted => cases h
  | fault _ _ hrunning hfault =>
    cases h
    exact ⟨hrunning, stepInPlace_eq_fault_iff.1 hfault⟩

/-! ## Runs one after the other -/

/-- To run further is to run again from where the first run has ended, unless that was a failure. -/
theorem run_add (a b : Nat) (m : Machine) :
    m.run (a + b) =
      match (m.run a).2 with
      | .ok k => (((m.run a).1.run b).1, ((m.run a).1.run b).2.map (k + ·))
      | .error f => ((m.run a).1, .error f) := by
  have hzero (x : Except Fault Nat) : x.map (0 + ·) = x := by
    cases x <;> simp [Except.map]
  induction a, m using run_induction with
  | zero m =>
    rw [Nat.zero_add, run_zero]
    exact Prod.ext rfl (hzero _).symm
  | halted a m hhalted => simp only [run_of_halted hhalted, hzero]
  | fault a m f hrunning hstep =>
    rw [Nat.add_right_comm]
    simp only [run_of_fault hrunning hstep]
  | step a m m' hstep ih =>
    rw [Nat.add_right_comm, run_of_step hstep, run_of_step hstep, ih]
    cases (m'.run a).2 with
    | error f => rfl
    | ok k =>
      cases ((m'.run a).1.run b).2 with
      | error f => rfl
      | ok n => simp [Except.map, Nat.add_assoc]

/-- A run of at most `a + b` steps is one of at most `a` and then, unless that one fails, one of at
most `b`, and its number is the sum of the two. A run that does not fail takes as many steps as it
is to, or halts; one that fails leaves the machine as the step before the failure has left it. -/
theorem run_composes (a b : Nat) (m : Machine) :
    match m.run a with
    | (n, .ok k) =>
      m.run (a + b) = ((n.run b).1, (n.run b).2.map (k + ·)) ∧
        StepsTo k m n ∧ n.steps = m.steps + k ∧ k ≤ a ∧ (k = a ∨ n.halted = true)
    | (n, .error f) =>
      m.run (a + b) = (n, .error f) ∧
        ∃ k, k < a ∧ StepsTo k m n ∧ n.halted = false ∧ stepInPlace.run n = .error f n := by
  rw [run_add]
  have hends := ends_run a m
  generalize m.run a = r at hends
  cases hends with
  | limit h => exact ⟨rfl, h, h.steps_eq, Nat.le_refl a, Or.inl rfl⟩
  | halted h hk hn => exact ⟨rfl, h, h.steps_eq, hk, Or.inr hn⟩
  | fault h hk hn hf => exact ⟨rfl, _, hk, h, hn, hf⟩

/-- In whichever way a run ends, running on leaves the machine of the longer run. -/
theorem machine_run_add (a b : Nat) (m : Machine) :
    ((m.run a).1.run b).1 = (m.run (a + b)).1 := by
  rw [run_add]
  cases h : (m.run a).2 with
  | ok k => rfl
  | error f =>
    obtain ⟨hrunning, hstep⟩ := stuck_of_run h
    cases b with
    | zero => rfl
    | succ b => rw [run_of_fault hrunning hstep]

/-! ## Runs that are not cut short -/

section Complete

variable {j : Nat} (h : (m.run k).2 = .ok k)
include h

/-- A run that is not cut short can be cut short anywhere. -/
theorem run_of_le (hj : j ≤ k) : (m.run j).2 = .ok j := by
  obtain ⟨b, rfl⟩ := Nat.exists_eq_add_of_le hj
  rw [run_add] at h
  cases hfirst : (m.run j).2 with
  | error f =>
    rw [hfirst] at h
    cases h
  | ok i =>
    rw [hfirst] at h
    obtain ⟨n, hn, hsum⟩ := Except.map_eq_ok_iff.1 h
    have := run_le hfirst
    have := run_le hn
    obtain rfl : i = j := by omega
    rfl

/-- There is a step from each machine on the way. -/
theorem step_run_of_lt (hj : j < k) : (m.run j).1.step = .ok (m.run (j + 1)).1 := by
  have hnext : (m.run (j + 1)).2 = .ok (j + 1) := run_of_le h hj
  rw [← machine_run_add]
  rw [run_add, run_of_le h hj.le] at hnext
  obtain ⟨n, hn, hsum⟩ := Except.map_eq_ok_iff.1 hnext
  obtain rfl : n = 1 := by omega
  by_cases hhalted : (m.run j).1.halted = true
  · rw [run_of_halted hhalted] at hn
    cases hn
  cases hstep : (m.run j).1.step with
  | error f =>
    rw [run_of_fault (Bool.eq_false_iff.2 hhalted) hstep] at hn
    cases hn
  | ok m' => rw [run_of_step hstep, run_zero]

end Complete

end LittleComputer.Machine
