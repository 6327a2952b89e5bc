import LittleComputer.Proofs.Instruction.Inverse
import LittleComputer.Proofs.Machine.Atomicity
import LittleComputer.Proofs.Machine.Console
import LittleComputer.Proofs.Machine.Strings
import Mathlib

/-!
# Halting

There is one word that halts a machine, and nothing but a load gets it to go on after that. The
steps that were taken account for the count of steps and for the flag, whatever else was asked of
the machine in between.
-/

namespace LittleComputer

namespace Service

/-- No two routines have one vector. -/
theorem vector_injective : Function.Injective vector := by
  intro s t h
  have hroutine := congrArg ofVector? h
  rw [ofVector?_vector, ofVector?_vector] at hroutine
  exact Option.some.inj hroutine

end Service

namespace Request

/-- The machine that a request leaves if it is one to load something, and that fits. -/
def loaded? : Request → Option Machine
  | .load p => (Machine.ofProgram p).toOption
  | .loadWords base words => (Machine.ofWords base words).toOption
  | _ => none

/-- Whether a request is to execute instructions. -/
def executes : Request → Bool
  | .step | .run _ => true
  | _ => false

end Request

namespace Machine

variable {m m' n : Machine} {r : Registers} {e : Effect} {routine : Service} {q : Request}
  {i : Instruction}

/-- Whether the machine is about to execute the word of `HALT`. -/
def AtHalt (m : Machine) : Prop := m.memory.readWord m.registers.pc = .ok 0xF025

/-! ## Steps -/

/-- The routine that halts is the only one that does. -/
theorem halts_of_serve (h : m.serve r routine = .ok e) : e.halts = true ↔ routine = .halt := by
  have hread (echo : Bool) : (m.readByte r echo).halts = false := by
    unfold readByte
    cases m.input <;> rfl
  cases routine with
  | getc | read =>
    cases h
    rw [hread]
    exact iff_of_false nofun nofun
  | out =>
    cases h
    exact iff_of_false nofun nofun
  | puts | putsp =>
    obtain ⟨bytes, _, rfl⟩ := Except.map_eq_ok_iff.1 h
    exact iff_of_false nofun nofun
  | halt =>
    cases h
    exact iff_of_true rfl rfl

/-- The call of that routine is the only instruction that halts. -/
theorem halts_of_execute (h : m.execute r i = .ok e) :
    e.halts = true ↔ i = .trap Service.halt.vector := by
  by_cases htrap : ∃ vector, i = .trap vector
  · obtain ⟨vector, rfl⟩ := htrap
    rw [execute, trap] at h
    split at h
    · rename_i routine hroutine
      rw [halts_of_serve h, Service.ofVector?_eq_some_iff.1 hroutine, Instruction.trap.injEq,
        Service.vector_injective.eq_iff]
    · cases h
  · have hquiet (vector : Nat) : i ≠ .trap vector := fun hi => htrap ⟨vector, hi⟩
    rw [(quiet_execute hquiet h).2.2.2]
    exact iff_of_false Bool.false_ne_true (hquiet _)

/-- No other word encodes `HALT`, so it is the only one that halts a machine. -/
theorem halted_of_step_iff (h : m.step = .ok m') : m'.halted = true ↔ m.AtHalt := by
  obtain ⟨hrunning, i, pc, e, hi, _, he, rfl⟩ := step_eq_ok_iff.1 h
  obtain ⟨w, hw, hdecode⟩ := current_eq_ok_iff.1 hi
  have hencode : i.encode = .ok w := Instruction.encode_eq_ok_iff.2 hdecode
  have hhalt : Instruction.decode 0xF025 = .ok (.trap Service.halt.vector) := rfl
  rw [halted_commit, hrunning, Bool.false_or, halts_of_execute he, AtHalt, hw, Except.ok.injEq]
  constructor
  · rintro rfl
    exact Except.ok.inj (hencode.symm.trans (Instruction.encode_eq_ok_iff.2 hhalt))
  · rintro rfl
    exact Except.ok.inj (hdecode.symm.trans hhalt)

/-! ## What the steps account for -/

/-- Whether some steps account for what has become of the count and of the flag. -/
structure Accounts (m : Machine) (taken : List (Machine × Machine)) (m' : Machine) : Prop where
  steps : m'.steps = m.steps + taken.length
  halted : m'.halted = true ↔ m.halted = true ∨ ∃ e ∈ taken, e.1.AtHalt

namespace Accounts

variable {l k : List (Machine × Machine)}

/-- Where nothing is executed, count and flag stay as they are. -/
theorem nil (hsteps : m'.steps = m.steps) (hhalted : m'.halted = m.halted) : Accounts m [] m' where
  steps := hsteps
  halted := by simp [hhalted]

/-- Two rows of steps account for what becomes of the machine from first to last. -/
theorem append (h : Accounts m l m') (h' : Accounts m' k n) : Accounts m (l ++ k) n where
  steps := by rw [h'.steps, h.steps, List.length_append, Nat.add_assoc]
  halted := by
    rw [h'.halted, h.halted]
    simp only [List.mem_append, or_and_right, exists_or, or_assoc]

/-- A step is counted, and halts at the word of `HALT`. -/
theorem of_step (h : m.step = .ok m') : Accounts m [(m, m')] m' where
  steps := steps_of_step h
  halted := by
    rw [halted_of_step_iff h]
    simp [halted_of_step h]

end Accounts

/-- The steps of a run account for what it leaves. -/
theorem accounts_run (limit : Nat) (m : Machine) :
    Accounts m (m.executions limit) (m.run limit).1 :=
  executions_run (P := Accounts) (fun _ => .nil rfl rfl)
    (fun _ _ _ _ hstep hrest => (Accounts.of_step hstep).append hrest) limit m

/-! ## Loads and other requests -/

/-- What fails leaves the machine that there was. -/
theorem orSame_eq_getD (m : Machine) (x : Except Fault Machine) :
    m.orSame x = x.toOption.getD m := by
  cases x <;> rfl

/-- What is loaded does not depend on the machine that it is loaded into. -/
theorem after_of_loaded? (h : q.loaded? = some n) (m : Machine) : m.after q = n := by
  cases q with
  | load p => exact (orSame_eq_getD m _).trans (congrArg (Option.getD · m) h)
  | loadWords base words => exact (orSame_eq_getD m _).trans (congrArg (Option.getD · m) h)
  | step | run | pushInput | setRegister | setPc | writeWord | writeByte => cases h

/-- A load that succeeds starts the count over and clears the flag. -/
theorem fresh_of_loaded? (h : q.loaded? = some m) : m.steps = 0 ∧ m.halted = false := by
  have hfresh {base : Word} {words : List Word} (hwords : (ofWords base words).toOption = some m) :
      m.steps = 0 ∧ m.halted = false := by
    cases hload : ofWords base words with
    | error f =>
      rw [hload] at hwords
      cases hwords
    | ok n =>
      rw [hload] at hwords
      cases hwords
      obtain ⟨_, rfl⟩ := ofWords_eq_ok_iff.1 hload
      exact ⟨rfl, rfl⟩
  cases q with
  | load p => exact hfresh h
  | loadWords base words => exact hfresh h
  | step | run | pushInput | setRegister | setPc | writeWord | writeByte => cases h

/-- The steps of a request account for what it leaves. A load that does not fit leaves the machine
as it is. -/
theorem accounts_after (hq : q.loaded? = none) (m : Machine) :
    Accounts m (m.executions q.limit) (m.after q) := by
  have hsame {x : Except Fault Machine} (hx : x.toOption = none) : Accounts m [] (m.orSame x) := by
    rw [orSame_eq_getD, hx]
    exact .nil rfl rfl
  cases q with
  | load p => exact hsame hq
  | loadWords base words => exact hsame hq
  | step =>
    rw [after_step]
    exact accounts_run 1 m
  | run limit => exact accounts_run limit m
  | writeWord a w =>
    rw [after, Machine.writeWord]
    cases m.memory.writeWord a w <;> exact .nil rfl rfl
  | pushInput | setRegister | setPc | writeByte => exact .nil rfl rfl

/-- The steps of any requests without a load account for what they leave. -/
theorem accounts_afterAll {requests : List Request} (h : ∀ q ∈ requests, q.loaded? = none)
    (m : Machine) : Accounts m (m.executed requests) (m.afterAll requests) := by
  induction requests generalizing m with
  | nil => exact .nil rfl rfl
  | cons q rest ih =>
    obtain ⟨hq, hrest⟩ := List.forall_mem_cons.1 h
    exact (accounts_after hq m).append (ih hrest (m.after q))

/-- Nothing is executed once the machine is halted. -/
theorem after_of_halted (h : m.halted = true) (hq : q.executes = true) : m.after q = m := by
  cases q with
  | step =>
    rw [after, step_of_halted h]
    rfl
  | run limit => exact congrArg Prod.fst (run_of_halted h limit)
  | load | loadWords | pushInput | setRegister | setPc | writeWord | writeByte => cases hq

/-- Requests to execute do nothing to a machine that is halted. -/
theorem afterAll_of_halted {requests : List Request} (h : m.halted = true)
    (hrequests : ∀ q ∈ requests, q.executes = true) : m.afterAll requests = m := by
  induction requests with
  | nil => rfl
  | cons q rest ih =>
    obtain ⟨hq, hrest⟩ := List.forall_mem_cons.1 hrequests
    rw [afterAll_cons, after_of_halted h hq, ih hrest]

/-- Since a load, a machine has counted the steps that were taken, and is halted if and only if one
of them was by the word of `HALT`. From then on, up to the next load, every step is refused and
every run has no step to take. They leave the machine as it is, however many of them there are. -/
theorem halting_final (before : Machine) {load : Request} {requests : List Request}
    (hload : load.loaded?.isSome = true) (hrequests : ∀ q ∈ requests, q.loaded? = none) :
    let m := before.after load
    let n := m.afterAll requests
    (∀ e ∈ m.executed requests, stepInPlace.run e.1 = .ok () e.2) ∧
      n.steps = (m.executed requests).length ∧
      (n.halted = true ↔ ∃ e ∈ m.executed requests, e.1.AtHalt) ∧
      (n.halted = true → ∀ further : List Request, (∀ q ∈ further, q.loaded? = none) →
        let n' := n.afterAll further
        stepInPlace.run n' = .error .halted n' ∧ (∀ limit, n'.run limit = (n', .ok 0)) ∧
          ((∀ q ∈ further, q.executes = true) → n' = n)) := by
  intro m n
  obtain ⟨loaded, hloaded⟩ := Option.isSome_iff_exists.1 hload
  obtain ⟨hsteps, hrunning⟩ := fresh_of_loaded? hloaded
  rw [← after_of_loaded? hloaded before] at hsteps hrunning
  have haccounts := accounts_afterAll hrequests m
  refine ⟨fun e he => ?_, ?_, ?_, fun hhalted further hfurther => ?_⟩
  · exact stepInPlace_eq_ok_iff.2 (step_of_mem_executed he)
  · rw [haccounts.steps, hsteps, Nat.zero_add]
  · rw [haccounts.halted, hrunning]
    simp
  · intro n'
    have hstays : n'.halted = true := (accounts_afterAll hfurther n).halted.2 (Or.inl hhalted)
    exact ⟨stepInPlace_eq_fault_iff.2 (step_of_halted hstays), run_of_halted hstays,
      afterAll_of_halted hhalted⟩

/-- A program that is `HALT` alone halts at its first step, and is still halted after a load that
does not fit and a run. -/
theorem halting_final_first_step :
    let load := Request.loadWords programStart [0xF025]
    let requests := [.step, .loadWords 0xFFFF [0], .run 3]
    load.loaded?.isSome = true ∧ (∀ q ∈ requests, q.loaded? = none) ∧
      ∃ n, (initial.after load).afterAll requests = n ∧ n.steps = 1 ∧ n.halted = true ∧
        stepInPlace.run n = .error .halted n ∧ n.afterAll [.step, .run 9] = n := by
  intro load requests
  have hload : load.loaded?.isSome = true := rfl
  have hrequests : ∀ q ∈ requests, q.loaded? = none :=
    List.forall_mem_cons.2 ⟨rfl, List.forall_mem_cons.2 ⟨rfl, List.forall_mem_singleton.2 rfl⟩⟩
  let m := initial.after load
  have hfetch : m.AtHalt := Memory.readWord_setWords (n := 0) (by decide) rfl rfl
  obtain ⟨m', hstep, hhalted, _⟩ := exists_step_halt (m := m) rfl hfetch (by decide)
  have hexecuted : m.executed requests = [(m, m')] := by
    change m.executions 1 ++ ((m.after .step).executions 0 ++
      (((m.after .step).after (.loadWords 0xFFFF [0])).executions 3 ++ [])) = _
    have hrefused : m'.after (.loadWords 0xFFFF [0]) = m' := rfl
    rw [after_of_step hstep, hrefused, executions_of_step hstep,
      executions_of_fault (step_of_halted hhalted) 3]
    rfl
  have hmem : (m, m') ∈ m.executed requests := by
    rw [hexecuted]
    exact List.mem_singleton_self _
  obtain ⟨_, hsteps, hiff, hfinal⟩ := halting_final initial hload hrequests
  have hn := hiff.2 ⟨(m, m'), hmem, hfetch⟩
  obtain ⟨hfault, _, hsame⟩ := hfinal hn [.step, .run 9] (by simp [Request.loaded?])
  have hsame := hsame (by simp [Request.executes])
  rw [hsame] at hfault
  exact ⟨hload, hrequests, _, rfl, hsteps.trans (congrArg List.length hexecuted), hn, hfault, hsame⟩

end Machine

end LittleComputer
