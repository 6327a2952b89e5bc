import LittleComputer.Proofs.Machine.Refinement
import LittleComputer.Proofs.Machine.Requests
import Mathlib

/-!
# Exactly one condition code

Every result sets exactly one condition code. `RTI` is the only instruction that sets them from
something else, which is a word of the stack. So exactly one is set throughout, whatever is asked of
a machine, as long as each `RTI` that is executed finds such a word.
-/

namespace LittleComputer

/-! ## The codes -/

instance : DecidablePred Condition.Exclusive := fun _ => inferInstanceAs (Decidable (_ ∨ _))

/-- Exactly one code is set if its bit is the only one. -/
theorem Condition.exclusive_iff_bits (c : Condition) :
    c.Exclusive ↔ c.bits = 1 ∨ c.bits = 2 ∨ c.bits = 4 := by
  obtain ⟨n, z, p⟩ := c
  cases n <;> cases z <;> cases p <;> decide

/-- Of the bits of a word, the low three decide. -/
theorem Condition.exclusive_ofBits_iff (n : Nat) :
    (ofBits n).Exclusive ↔ n % 8 = 1 ∨ n % 8 = 2 ∨ n % 8 = 4 := by
  rw [exclusive_iff_bits, bits_ofBits]

/-- The sign of a number is exactly one code. -/
theorem Condition.exclusive_ofSign (n : Int) : (ofSign n).Exclusive := by
  unfold ofSign Exclusive
  rcases lt_trichotomy n 0 with h | rfl | h
  · exact Or.inl (by simp [h, h.ne, h.not_gt])
  · exact Or.inr (Or.inl rfl)
  · exact Or.inr (Or.inr (by simp [h, h.ne', h.not_gt]))

namespace Unbounded

variable (s : Unbounded)

/-- An instruction other than `RTI` sets one code or leaves them alone. -/
theorem condition_effect {i : Instruction} (hi : i ≠ .returnFromInterrupt) :
    (s.effect i).condition = s.condition ∨ ∃ n, (s.effect i).condition = .ofSign n := by
  cases i with
  | operate | not | load | loadAddress | shift => exact Or.inr ⟨_, rfl⟩
  | jump | ret | call | callRegister => exact Or.inl rfl
  | branch condition offset9 => exact Or.inl (s.kept_branch condition offset9).1
  | store access =>
    left
    cases access <;> rfl
  | returnFromInterrupt => exact absurd rfl hi
  | trap v => exact Or.inl (kept_served _ _).1

end Unbounded

namespace Machine

variable {m m' : Machine}

/-- If the machine is about to execute `RTI`, exactly one of the three low bits is set in the word
that the condition codes are taken from. -/
def RestoresOne (m : Machine) : Prop :=
  m.view.instruction? = some .returnFromInterrupt →
    let psr := (m.view.word (m.view.register .stack + 2)).toNat
    psr % 8 = 1 ∨ psr % 8 = 2 ∨ psr % 8 = 4

/-- What one instruction makes of the codes. -/
theorem exclusive_of_step_iff (h : m.step = .ok m') (hm : m.registers.condition.Exclusive) :
    m'.registers.condition.Exclusive ↔ m.RestoresOne := by
  obtain ⟨i, hi, hview⟩ := view_of_step h
  have hcondition : m'.registers.condition = (m.view.advanced.effect i).condition :=
    congrArg Unbounded.condition hview
  rw [hcondition]
  by_cases hrti : i = .returnFromInterrupt
  · subst hrti
    constructor
    · intro hexclusive _
      exact (Condition.exclusive_ofBits_iff _).1 hexclusive
    · intro hrestores
      exact (Condition.exclusive_ofBits_iff _).2 (hrestores hi)
  · refine iff_of_true ?_ fun hother => absurd (Option.some.inj (hi.symm.trans hother)) hrti
    rcases m.view.advanced.condition_effect hrti with hsame | ⟨n, hset⟩
    · rw [hsame]
      exact hm
    · rw [hset]
      exact Condition.exclusive_ofSign n

/-- What the instructions of a run make of the codes, by induction on their number. -/
theorem exclusive_of_executions_iff (limit : Nat) (hm : m.registers.condition.Exclusive) :
    (∀ e ∈ m.executions limit, e.2.registers.condition.Exclusive) ↔
      ∀ e ∈ m.executions limit, e.1.RestoresOne := by
  induction limit generalizing m with
  | zero => exact iff_of_true (List.forall_mem_nil _) (List.forall_mem_nil _)
  | succ limit ih =>
    rw [executions]
    cases h : m.step with
    | error f => exact iff_of_true (List.forall_mem_nil _) (List.forall_mem_nil _)
    | ok m' =>
      rw [List.forall_mem_cons, List.forall_mem_cons, ← exclusive_of_step_iff h hm]
      exact and_congr_right fun hm' => ih hm'

/-- Between instructions nothing touches the codes, and loading starts from one code. -/
theorem exclusive_after (q : Request) (hm : m.registers.condition.Exclusive)
    (hall : ∀ e ∈ m.executions q.limit, e.2.registers.condition.Exclusive) :
    (m.after q).registers.condition.Exclusive := by
  have hsame (x : Except Fault Machine)
      (hx : ∀ m', x = .ok m' → m'.registers.condition.Exclusive) :
      (m.orSame x).registers.condition.Exclusive := by
    cases x with
    | ok m' => exact hx m' rfl
    | error f => exact hm
  have hwords (base : Word) (words : List Word) (m' : Machine) (h : ofWords base words = .ok m') :
      m'.registers.condition.Exclusive := by
    obtain ⟨_, rfl⟩ := ofWords_eq_ok_iff.1 h
    exact Or.inr (Or.inl rfl)
  cases q with
  | load p => exact hsame _ (hwords p.origin p.words)
  | loadWords base words => exact hsame _ (hwords base words)
  | step =>
    refine hsame _ fun m' h => hall (m, m') ?_
    change _ ∈ m.executions 1
    rw [executions, h]
    exact List.mem_cons_self
  | run limit =>
    rcases run_eq_or_mem limit m with h | h
    · exact (congrArg (fun n : Machine => n.registers.condition.Exclusive) h).mpr hm
    · obtain ⟨e, he, hlast⟩ := List.mem_map.1 h
      exact (congrArg (fun n : Machine => n.registers.condition.Exclusive) hlast).mp (hall e he)
  | writeWord a w =>
    refine hsame _ fun m' h => ?_
    unfold writeWord at h
    split at h
    · cases h
      exact hm
    · cases h
  | pushInput | setRegister | setPc | writeByte => exact hm

/-- Exactly one code is set throughout if and only if every `RTI` finds a word that tells one. -/
theorem exclusive_of_history_iff (requests : List Request)
    (hm : m.registers.condition.Exclusive) :
    (∀ n ∈ m.history requests, n.registers.condition.Exclusive) ↔
      ∀ e ∈ m.executed requests, e.1.RestoresOne := by
  induction requests generalizing m with
  | nil => simp [history, executed, hm]
  | cons q rest ih =>
    rw [history, executed, List.cons_append, List.forall_mem_cons, List.forall_mem_append,
      List.forall_mem_append, List.forall_mem_map, and_iff_right hm,
      ← exclusive_of_executions_iff q.limit hm]
    exact and_congr_right fun hall => ih (exclusive_after q hm hall)

/-- Whatever is asked of a fresh machine, exactly one condition code is set all along if and only if
each `RTI` that is executed finds a word with one of the three bits set on the stack. -/
theorem exclusive_iff_restoresOne (requests : List Request) :
    initial.afterAll requests ∈ initial.history requests ∧
      ((∀ m ∈ initial.history requests, m.registers.condition.Exclusive) ↔
        ∀ e ∈ initial.executed requests, e.1.RestoresOne) :=
  ⟨afterAll_mem_history initial requests,
    exclusive_of_history_iff requests (Or.inr (Or.inl rfl))⟩

/-- `RTI` takes two words off the stack, the program counter and the codes. -/
theorem returnFromInterrupt_eq_ok {r : Registers} {pc sp psr top : Word}
    (hpc : m.memory.fetch (r.get .stack) = .ok pc) (hsp : (r.get .stack).offset 2 = .ok sp)
    (hpsr : m.memory.fetch sp = .ok psr) (htop : sp.offset 2 = .ok top) :
    m.returnFromInterrupt r = .ok {
      registers := { r.set .stack top with pc, condition := .ofBits psr.toNat }
      modified := some .stack } := by
  simp only [returnFromInterrupt, hpc, hsp, hpsr, htop, Except.ok_bind]
  rfl

/-- An `RTI` that takes a zero off the stack leaves no code set. -/
theorem not_exclusive_after_rti :
    ¬(initial.afterAll [.loadWords 0 [0x8000, 0x0000], .step]).registers.condition.Exclusive := by
  let loaded : Machine :=
    { initial with
      registers := { Registers.initial with pc := 0 }
      memory := Memory.zero.setWords 0 [0x8000, 0x0000] }
  have hload : initial.after (.loadWords 0 [0x8000, 0x0000]) = loaded := rfl
  let r : Registers := { loaded.registers with pc := 2 }
  have hfirst : loaded.memory.readWord 0 = .ok 0x8000 :=
    Memory.readWord_setWords (n := 0) (by decide) rfl rfl
  have hsecond : loaded.memory.readWord 2 = .ok 0x0000 :=
    Memory.readWord_setWords (n := 1) (by decide) rfl rfl
  have hstack : r.get .stack = 0 := by decide
  have hpc : loaded.memory.fetch (r.get .stack) = .ok 0x8000 :=
    hstack ▸ congrArg (Except.mapError _) hfirst
  have hsp : (r.get .stack).offset 2 = .ok 2 := hstack ▸ Word.offset_eq_ok_iff.2 (by decide)
  have hpsr : loaded.memory.fetch 2 = .ok 0x0000 := congrArg (Except.mapError _) hsecond
  have htop : Word.offset 2 2 = .ok 4 := Word.offset_eq_ok_iff.2 (by decide)
  have hstep : loaded.step = (loaded.returnFromInterrupt r).map loaded.commit :=
    step_of_decode? rfl hfirst rfl (by decide)
  rw [returnFromInterrupt_eq_ok hpc hsp hpsr htop] at hstep
  rw [afterAll, List.foldl_cons, List.foldl_cons, List.foldl_nil, hload, after, hstep]
  change ¬Condition.empty.Exclusive
  decide

end Machine

end LittleComputer
