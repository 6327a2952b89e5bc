import LittleComputer.Debugger.Session
import LittleComputer.Proofs.Machine.Loading
import LittleComputer.Proofs.Machine.Run
import Mathlib

/-!
# Stepping and resuming

The debugger executes instructions in a loop of its own, which looks out for addresses to stop at.
With none it leaves the machine as a run does. With breakpoints it leaves it as the run does that
ends at the first of them, however long that takes.
-/

namespace LittleComputer

namespace Machine

variable {m m' : Machine} {f : Fault} {stopAt : Word → Bool} {limit k : Nat}

/-! ## The loop of the debugger -/

/-- Where the execution of instructions ends, without what was reported. -/
def Advance.result (a : Advance) : Machine × Stop := (a.machine, a.stop)

/-- What was reported before does not matter to where the loop ends. -/
theorem result_advanceFrom (seen : List Notice) :
    (advanceFrom stopAt limit m seen).result = (m.advance stopAt limit).result := by
  unfold advance
  generalize ([] : List Notice) = seen'
  induction limit generalizing m seen seen' with
  | zero => rfl
  | succ limit ih =>
    rw [advanceFrom, advanceFrom]
    cases m.plan with
    | error f => rfl
    | ok e =>
      dsimp only
      split
      · rfl
      · split
        · rfl
        · exact ih _ _

/-- The loop ends where its first step fails. -/
theorem advance_of_fault (h : m.step = .error f) (limit : Nat) :
    (m.advance stopAt (limit + 1)).result = (m, .faulted f) := by
  rw [step, Except.map_eq_error_iff] at h
  rw [advance, advanceFrom, h]
  rfl

/-- The loop ends after its first step if there is a reason to, or else where the rest of it
ends. -/
theorem advance_of_step (h : m.step = .ok m') (limit : Nat) :
    (m.advance stopAt (limit + 1)).result =
      if m'.halted then (m', .halted)
      else if stopAt m'.registers.pc then (m', .arrived)
      else (m'.advance stopAt limit).result := by
  obtain ⟨e, he, rfl⟩ := Except.map_eq_ok_iff.1 h
  rw [advance, advanceFrom, he, ← result_advanceFrom ((e.notices (m.steps + 1)).reverse ++ [])]
  dsimp only
  split
  · rfl
  · split <;> rfl

/-- Without addresses to stop at, the machine is the one that a run leaves. -/
theorem machine_advance (limit : Nat) (m : Machine) :
    (m.advance (fun _ => false) limit).machine = (m.run limit).1 := by
  have hresult : (m.advance (fun _ => false) limit).result.1 = (m.run limit).1 := by
    induction limit, m using run_induction with
    | zero m => rfl
    | halted limit m hhalted =>
      rw [run_of_halted hhalted]
      cases limit with
      | zero => rfl
      | succ limit => rw [advance_of_fault (step_of_halted hhalted)]
    | fault limit m f hrunning hstep => rw [advance_of_fault hstep, run_of_fault hrunning hstep]
    | step limit m m' hstep ih =>
      rw [advance_of_step hstep, run_of_step hstep]
      by_cases hhalted : m'.halted = true
      · rw [if_pos hhalted, run_of_halted hhalted]
      · rw [if_neg hhalted, if_neg Bool.false_ne_true, ih]
  exact hresult

/-! ## Where the loop ends -/

/-- Whether the machine takes a number of steps, and neither halts nor comes to an address to stop
at before the last of them. -/
structure Passes (stopAt : Word → Bool) (m : Machine) (k : Nat) : Prop where
  complete : (m.run k).2 = .ok k
  passed : ∀ j, 0 < j → j < k →
    (m.run j).1.halted = false ∧ stopAt (m.run j).1.registers.pc = false

/-- Whether there is a reason to stop after a number of steps. Before the first step it is only that
this step fails. -/
def Rests (stopAt : Word → Bool) (m : Machine) (k : Nat) : Prop :=
  0 < k ∧ ((m.run k).1.halted = true ∨ stopAt (m.run k).1.registers.pc = true) ∨
    ∃ f, (m.run k).1.step = .error f

/-- A machine passes one more step if it neither halts nor has to stop after it. -/
theorem Passes.of_step (h : m.step = .ok m') (hgoing : m'.halted = false)
    (hfree : stopAt m'.registers.pc = false) (hrest : Passes stopAt m' k) :
    Passes stopAt m (k + 1) where
  complete := by
    rw [run_of_step h, hrest.complete, Nat.add_comm]
    rfl
  passed j hpos hj := by
    obtain ⟨i, rfl⟩ := Nat.exists_eq_add_of_le' hpos
    rw [run_of_step h]
    cases i with
    | zero => exact ⟨hgoing, hfree⟩
    | succ i => exact hrest.passed (i + 1) (Nat.succ_pos i) (Nat.lt_of_succ_lt_succ hj)

/-- A reason to stop is one for the machine a step before. -/
theorem Rests.of_step (h : m.step = .ok m') (hrest : Rests stopAt m' k) :
    Rests stopAt m (k + 1) := by
  unfold Rests at hrest ⊢
  rw [run_of_step h]
  exact hrest.imp_left fun hreason => ⟨Nat.succ_pos k, hreason.2⟩

/-- A machine that passes does not go past a reason to stop. -/
theorem Passes.le_of_rests {n : Nat} (hpasses : Passes stopAt m n) (hrests : Rests stopAt m k) :
    n ≤ k := by
  by_contra hlt
  rcases hrests with ⟨hpos, hreason⟩ | ⟨f, hfault⟩
  · obtain ⟨hgoing, hfree⟩ := hpasses.passed k hpos (Nat.lt_of_not_le hlt)
    rcases hreason with hhalted | harrived
    · rw [hgoing] at hhalted
      cases hhalted
    · rw [hfree] at harrived
      cases harrived
  · rw [step_run_of_lt hpasses.complete (Nat.lt_of_not_le hlt)] at hfault
    cases hfault

/-- The loop passes up to where it ends, and there is a reason to stop there, unless it has taken as
many steps as it was to. Nothing on the way of a single step could be such a reason. -/
theorem exists_passes_advance (stopAt : Word → Bool) (limit : Nat) (hrunning : m.halted = false) :
    ∃ k, Passes stopAt m k ∧ (m.advance stopAt limit).machine = (m.run k).1 ∧
      ((m.advance stopAt limit).stop = .limit ∧ k = limit ∨
        (m.advance stopAt limit).stop ≠ .limit ∧ Rests stopAt m k) := by
  suffices hresult : ∃ k, Passes stopAt m k ∧
      (m.advance stopAt limit).result.1 = (m.run k).1 ∧
      ((m.advance stopAt limit).result.2 = .limit ∧ k = limit ∨
        (m.advance stopAt limit).result.2 ≠ .limit ∧ Rests stopAt m k) from hresult
  have hstart (n : Machine) : Passes stopAt n 0 :=
    ⟨rfl, fun j _ hj => absurd hj (Nat.not_lt_zero j)⟩
  induction limit, m using run_induction with
  | zero m => exact ⟨0, hstart m, rfl, Or.inl ⟨rfl, rfl⟩⟩
  | halted limit m hhalted =>
    rw [hrunning] at hhalted
    cases hhalted
  | fault limit m f _ hstep =>
    refine ⟨0, hstart m, ?_⟩
    rw [advance_of_fault hstep]
    exact ⟨rfl, Or.inr ⟨nofun, Or.inr ⟨f, hstep⟩⟩⟩
  | step limit m m' hstep ih =>
    have hone : Passes stopAt m 1 := by
      refine ⟨by rw [run_of_step hstep]; rfl, fun j hpos hj => ?_⟩
      omega
    rw [advance_of_step hstep]
    by_cases hhalted : m'.halted = true
    · rw [if_pos hhalted]
      refine ⟨1, hone, by rw [run_of_step hstep]; rfl, Or.inr ⟨nofun, Or.inl ⟨Nat.one_pos, ?_⟩⟩⟩
      rw [run_of_step hstep]
      exact Or.inl hhalted
    rw [if_neg hhalted]
    by_cases hstop : stopAt m'.registers.pc = true
    · rw [if_pos hstop]
      refine ⟨1, hone, by rw [run_of_step hstep]; rfl, Or.inr ⟨nofun, Or.inl ⟨Nat.one_pos, ?_⟩⟩⟩
      rw [run_of_step hstep]
      exact Or.inr hstop
    rw [if_neg hstop]
    obtain ⟨k, hpasses, hmachine, hstop'⟩ := ih (Bool.eq_false_iff.2 hhalted)
    refine ⟨k + 1, hpasses.of_step hstep (Bool.eq_false_iff.2 hhalted) (Bool.eq_false_iff.2 hstop),
      ?_, ?_⟩
    · rw [run_of_step hstep]
      exact hmachine
    · exact hstop'.imp (And.imp_right (congrArg (· + 1))) (And.imp_right (Rests.of_step hstep))

end Machine

namespace Debugger.Session

variable (fuel : Nat) (s : Session)

/-! ## Stepping -/

/-- To step is to run for as many steps. -/
theorem machine_execute_step (count : Nat) :
    (s.execute fuel (.step count)).session.machine = (s.machine.run count).1 := by
  rw [execute]
  by_cases hhalted : s.machine.halted = true
  · rw [if_pos hhalted, Machine.run_of_halted hhalted]
  · rw [if_neg hhalted]
    exact Machine.machine_advance count s.machine

/-- To step a number of times is to run for as many steps, in whichever way the run ends. So
stepping twice is the same as stepping as often at once. -/
theorem stepping_runs (a b : Nat) :
    (s.execute fuel (.step a)).session.machine = (s.machine.run a).1 ∧
      ((s.execute fuel (.step a)).session.execute fuel (.step b)).session.machine =
        (s.execute fuel (.step (a + b))).session.machine := by
  refine ⟨machine_execute_step fuel s a, ?_⟩
  calc ((s.execute fuel (.step a)).session.execute fuel (.step b)).session.machine
      = ((s.machine.run a).1.run b).1 := by rw [machine_execute_step, machine_execute_step]
    _ = (s.machine.run (a + b)).1 := Machine.machine_run_add a b s.machine
    _ = (s.execute fuel (.step (a + b))).session.machine :=
      (machine_execute_step fuel s (a + b)).symm

/-! ## Resuming -/

/-- Whether `continue` comes to its end after a number of steps. -/
def ResumesFor (k : Nat) : Prop :=
  (s.execute fuel .resume).ending = none ∧
    (s.execute fuel .resume).session.machine.steps = s.machine.steps + k

/-- Whether a run of a number of steps is to be stopped at the last of them and at none before: the
machine then halts or is at a breakpoint, or it fails to take another step. Where the run starts
does not count as a breakpoint. -/
structure StopsAfter (k : Nat) : Prop where
  complete : (s.machine.run k).2 = .ok k
  passed : ∀ j, 0 < j → j < k →
    (s.machine.run j).1.halted = false ∧ (s.machine.run j).1.registers.pc ∉ s.breakpoints
  reason : 0 < k ∧ ((s.machine.run k).1.halted = true ∨
    (s.machine.run k).1.registers.pc ∈ s.breakpoints) ∨ ∃ f, (s.machine.run k).1.step = .error f

variable {fuel s} {k : Nat}

/-- A run is stopped where the loop passes up to and has a reason to. -/
theorem stopsAfter_iff :
    s.StopsAfter k ↔
      Machine.Passes s.breakpoints.contains s.machine k ∧
        Machine.Rests s.breakpoints.contains s.machine k := by
  constructor
  · rintro ⟨hcomplete, hpassed, hreason⟩
    refine ⟨⟨hcomplete, fun j hpos hj => ?_⟩, ?_⟩
    · simpa using hpassed j hpos hj
    · simpa [Machine.Rests] using hreason
  · rintro ⟨⟨hcomplete, hpassed⟩, hreason⟩
    refine ⟨hcomplete, fun j hpos hj => ?_, ?_⟩
    · simpa using hpassed j hpos hj
    · simpa [Machine.Rests] using hreason

/-- To resume is to go through the loop, and comes to an end unless the steps run out. -/
theorem execute_resume (fuel : Nat) (hrunning : s.machine.halted = false) :
    (s.execute fuel .resume).session.machine =
        (s.machine.advance s.breakpoints.contains fuel).machine ∧
      ((s.execute fuel .resume).ending = none ↔
        (s.machine.advance s.breakpoints.contains fuel).stop ≠ .limit) := by
  rw [execute, if_neg (by rw [hrunning]; exact Bool.false_ne_true), resume]
  cases (s.machine.advance s.breakpoints.contains fuel).stop <;> exact ⟨rfl, by simp⟩

/-- What `continue` does where it comes to an end. -/
theorem exists_stopsAfter (hrunning : s.machine.halted = false)
    (h : (s.execute fuel .resume).ending = none) :
    ∃ k, s.StopsAfter k ∧ (s.execute fuel .resume).session.machine = (s.machine.run k).1 := by
  obtain ⟨hmachine, hending⟩ := execute_resume fuel hrunning
  obtain ⟨k, hpasses, hrun, hend⟩ :=
    Machine.exists_passes_advance s.breakpoints.contains fuel hrunning
  have hrests := hend.resolve_left fun hlimit => hending.1 h hlimit.1
  exact ⟨k, stopsAfter_iff.2 ⟨hpasses, hrests.2⟩, hmachine.trans hrun⟩

/-- `continue` ends after the number of steps after which it is to stop. -/
theorem resume_of_stopsAfter (hrunning : s.machine.halted = false) (hk : k < fuel)
    (h : s.StopsAfter k) :
    (s.execute fuel .resume).ending = none ∧
      (s.execute fuel .resume).session.machine = (s.machine.run k).1 := by
  obtain ⟨hmachine, hending⟩ := execute_resume fuel hrunning
  obtain ⟨hpasses, hrests⟩ := stopsAfter_iff.1 h
  obtain ⟨n, hpasses', hrun, hend⟩ :=
    Machine.exists_passes_advance s.breakpoints.contains fuel hrunning
  have hle := hpasses'.le_of_rests hrests
  rcases hend with ⟨_, rfl⟩ | ⟨hstop, hrests'⟩
  · exact absurd hle (Nat.not_le.2 hk)
  · obtain rfl : n = k := le_antisymm hle (hpasses.le_of_rests hrests')
    exact ⟨hending.2 hstop, hmachine.trans hrun⟩

/-- The steps that are taken are counted. -/
theorem steps_of_stopsAfter (h : s.StopsAfter k) :
    (s.machine.run k).1.steps = s.machine.steps + k :=
  Machine.steps_run h.complete

/-- `continue` leaves the machine as a run does that stops where it has to: it does not go past a
breakpoint or a halted machine, and it ends only for one of these or for a step that fails. It gets
there if it is given the time, and a breakpoint where it starts does not keep it from the first
step. -/
theorem resume_stops (fuel : Nat) (hrunning : s.machine.halted = false) :
    (∀ k, s.ResumesFor fuel k →
      (s.execute fuel .resume).session.machine = (s.machine.run k).1 ∧ s.StopsAfter k) ∧
    ((s.execute fuel .resume).ending = none → ∃ k, s.ResumesFor fuel k) ∧
    (∀ k < fuel, s.StopsAfter k → s.ResumesFor fuel k) ∧
    (s.StopsAfter 0 ↔ ∃ f, s.machine.step = .error f) := by
  refine ⟨fun k hresumes => ?_, fun hending => ?_, fun k hk hstops => ?_, ?_⟩
  · obtain ⟨n, hstops, hmachine⟩ := exists_stopsAfter hrunning hresumes.1
    have hsteps := hresumes.2
    rw [hmachine, steps_of_stopsAfter hstops, Nat.add_left_cancel_iff] at hsteps
    subst hsteps
    exact ⟨hmachine, hstops⟩
  · obtain ⟨k, hstops, hmachine⟩ := exists_stopsAfter hrunning hending
    exact ⟨k, hending, hmachine ▸ steps_of_stopsAfter hstops⟩
  · obtain ⟨hending, hmachine⟩ := resume_of_stopsAfter hrunning hk hstops
    exact ⟨hending, hmachine ▸ steps_of_stopsAfter hstops⟩
  · constructor
    · intro hstops
      exact hstops.reason.resolve_left fun hreason => absurd hreason.1 (Nat.lt_irrefl 0)
    · intro hfault
      exact ⟨rfl, fun j _ hj => absurd hj (Nat.not_lt_zero j), Or.inr hfault⟩

/-- A session with empty memory, whose breakpoints are the address of the first instruction and that
of the third. -/
def idle : Session where
  machine := .initial
  symbols := []
  breakpoints := [0x3000, 0x3004]

/-- An empty memory holds instructions that do nothing. -/
theorem exists_step_of_zero {m : Machine} {a : Word} (hrunning : m.halted = false)
    (hmemory : m.memory = .zero) (ha : m.registers.pc = a)
    (hnext : a.toNat + wordSize < memorySize) :
    ∃ m', m.step = .ok m' ∧ m'.halted = false ∧ m'.memory = .zero ∧ m'.registers.pc = a + 2 := by
  subst ha
  have hread : m.memory.readWord m.registers.pc = .ok 0 := by
    rw [hmemory, Memory.readWord_of_lt (Nat.lt_of_succ_lt hnext), Memory.byte_zero,
      Memory.byte_zero]
    rfl
  refine ⟨_, Machine.step_of_decode? hrunning hread (i := .branch .empty 0) rfl hnext, ?_, ?_, rfl⟩
  · rw [Machine.halted_commit, hrunning]
    rfl
  · exact hmemory

/-- The breakpoint at the start does not count, and the one two steps on does. -/
theorem resume_stops_idle :
    idle.machine.halted = false ∧ idle.ResumesFor 3 2 ∧
      (idle.execute 3 .resume).session.machine.registers.pc = 0x3004 := by
  obtain ⟨m₁, hfirst, hrunning, hmemory, hpc₁⟩ :=
    exists_step_of_zero (m := idle.machine) (a := 0x3000) rfl rfl rfl (by decide)
  obtain ⟨m₂, hsecond, _, _, hpc₂⟩ := exists_step_of_zero hrunning hmemory hpc₁ (by decide)
  have hrun₁ : idle.machine.run 1 = (m₁, .ok 1) := by
    rw [Machine.run_of_step hfirst]
    rfl
  have hrun₂ : idle.machine.run 2 = (m₂, .ok 2) := by
    rw [Machine.run_of_step hfirst, Machine.run_of_step hsecond]
    rfl
  have hstops : idle.StopsAfter 2 := by
    refine ⟨by rw [hrun₂], fun j hpos hj => ?_, Or.inl ⟨by decide, Or.inr ?_⟩⟩
    · obtain rfl : j = 1 := by omega
      rw [hrun₁, hpc₁]
      exact ⟨hrunning, by decide⟩
    · rw [hrun₂, hpc₂]
      decide
  obtain ⟨hmachine, _, hresumes, _⟩ := resume_stops (s := idle) 3 rfl
  have hresumed := hresumes 2 (by decide) hstops
  refine ⟨rfl, hresumed, ?_⟩
  rw [(hmachine 2 hresumed).1, hrun₂, hpc₂]
  rfl

end Debugger.Session

end LittleComputer
