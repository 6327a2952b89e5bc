import LittleComputer.Machine.InPlace
import LittleComputer.Proofs.Machine.Atomicity
import LittleComputer.Proofs.Machine.Checked
import LittleComputer.Proofs.Machine.Exclusive
import LittleComputer.Proofs.Machine.Frame
import Mathlib

/-!
# No step breaks an assertion

Instructions carried out in place, with all arithmetic and all accesses to memory checked, and with
what is asserted after each of them: a result leaves exactly one condition code, other instructions
leave the codes alone, and one that faults has taken no input. From whatever state a machine is in,
none of these checks fails. A step ends exactly as it does without them.
-/

namespace LittleComputer

/-- A computation that changes a machine, up to a fault or a breach. -/
abbrev Guarded := EStateM Failure Machine

namespace Guarded

variable {α β : Type}

/-- A computation in which nothing is to be checked. -/
def lift (x : Action α) : Guarded α := x.adaptExcept Failure.fault

/-- An answer is one without checks. -/
@[simp] theorem lift_pure (a : α) : lift (pure a) = pure a := rfl

/-- The machine can be looked at without checks. -/
@[simp] theorem lift_get : lift get = get := rfl

/-- Two steps without checks are one without checks. -/
@[simp] theorem lift_bind (x : Action α) (next : α → Action β) :
    lift (x >>= next) = lift x >>= fun a => lift (next a) := by
  funext m
  change EStateM.adaptExcept Failure.fault (EStateM.bind x next) m =
    EStateM.bind (EStateM.adaptExcept Failure.fault x) (fun a => lift (next a)) m
  simp only [EStateM.adaptExcept, EStateM.bind]
  cases x m <;> rfl

/-- What is made of an answer needs no check. -/
@[simp] theorem lift_map (g : α → β) (x : Action α) : lift (g <$> x) = g <$> lift x := by
  rw [← bind_pure_comp, ← bind_pure_comp]
  exact lift_bind x (pure ∘ g)

/-- A computation that changes nothing can be lifted before or after. -/
@[simp] theorem lift_ofExcept (x : Except Fault α) :
    lift (ofExcept x) = ofExcept (Checked.plain x) := by
  cases x <;> rfl

/-- Without checks there are the same answers and faults, and no breach. -/
theorem run_lift (x : Action α) (m : Machine) :
    (lift x).run m =
      match x.run m with
      | .ok a m' => .ok a m'
      | .error f m' => .error (.fault f) m' := by
  change EStateM.adaptExcept Failure.fault x m = _
  unfold EStateM.adaptExcept EStateM.run
  cases x m <;> rfl

/-! ## Instructions -/

def writeByte (a : Word) (b : Byte) : Guarded Unit := do
  let m ← get
  set { m with memory := ← ofExcept (Checked.setByte m.memory a.toNat b) }

/-- A byte is written without a breach. -/
theorem writeByte_eq (a : Word) (b : Byte) : writeByte a b = lift (Action.writeByte a b) := by
  simp only [writeByte, Checked.setByte_toNat]
  rfl

/-- Distances are counted in bytes or in words. -/
theorem unit_cases (access : Access) : access.unit = 1 ∨ access.unit = 2 := by
  cases access
  · exact Or.inl rfl
  · exact Or.inr rfl
  · exact Or.inr rfl

section Instructions

variable [IndexRange]

def writeWord (a w : Word) : Guarded Unit := do
  let m ← get
  set { m with memory := ← ofExcept (Checked.writeWord m.memory a w) }

/-- Carry out a store instruction, whose address is known. -/
def store (access : Access) (a w : Word) : Guarded Unit := do
  match access with
  | .byte => writeByte a w.low
  | .word => writeWord a w
  | .indirect =>
    let m ← get
    let pointer ← ofExcept (Checked.fetch m.memory a)
    writeWord pointer w

/-- Call a routine. -/
def serve (r : Registers) (routine : Service) : Guarded (Registers × Option Register) := do
  let m ← get
  let text ←
    match routine with
    | .puts => some <$> ofExcept (Checked.stringFrom false m.memory [] (r.get .io))
    | .putsp => some <$> ofExcept (Checked.stringFrom true m.memory [] (r.get .io))
    | _ => pure none
  let r := r.set .link r.pc
  let (r, modified) ←
    match routine with
    | .getc => lift (Machine.readInput r false)
    | .read => lift (Machine.readInput r true)
    | .out =>
      lift (Action.print (r.get .io).low.text)
      pure (r, none)
    | .halt =>
      lift Action.halt
      pure (r, none)
    | .puts | .putsp => pure (r, none)
  if let some bytes := text then lift (Action.print (Byte.string bytes))
  return (r, modified.or (some .link))

def trap (r : Registers) (vector : Nat) : Guarded (Registers × Option Register) :=
  match Service.ofVector? vector with
  | some routine => serve r routine
  | none => throw (.fault (.unknownTrap vector))

/-- Carry out an instruction, given a copy of the registers with the program counter at the next
one. -/
def execute (r : Registers) : Instruction → Guarded (Registers × Option Register)
  | .operate op dr sr1 argument =>
    pure (r.setResult dr (op.apply (r.get sr1) (argument.value r)), some dr)
  | .not dr sr => pure (r.setResult dr (~~~ r.get sr), some dr)
  | .branch condition offset9 => do
    if condition.intersects r.condition then
      let target ← ofExcept (Checked.offsetBy 2 r.pc offset9)
      return ({ r with pc := target }, none)
    else return (r, none)
  | .jump base => pure ({ r with pc := r.get base }, none)
  | .ret => pure ({ r with pc := r.get .link }, none)
  | .call offset11 => do
    let target ← ofExcept (Checked.offsetBy 2 r.pc offset11)
    return ({ r.set .link r.pc with pc := target }, some .link)
  | .callRegister base => pure ({ r.set .link r.pc with pc := r.get base }, some .link)
  | .load access dr base offset6 => do
    let a ← ofExcept (Checked.offsetBy access.unit (r.get base) offset6)
    let m ← get
    let w ← ofExcept (Checked.loaded m.memory access a)
    return (r.setResult dr w, some dr)
  | .store access sr base offset6 => do
    let a ← ofExcept (Checked.offsetBy access.unit (r.get base) offset6)
    store access a (r.get sr)
    return (r, none)
  | .loadAddress dr offset9 => do
    let a ← ofExcept (Checked.offsetBy 2 r.pc offset9)
    return (r.setResult dr a, some dr)
  | .shift direction dr sr amount4 => do
    let w ← ofExcept (Checked.shift direction (r.get sr) amount4)
    return (r.setResult dr w, some dr)
  | .returnFromInterrupt => do
    let m ← get
    let sp := r.get .stack
    let pc ← ofExcept (Checked.fetch m.memory sp)
    let sp ← ofExcept (Checked.offset sp 2)
    let psr ← ofExcept (Checked.fetch m.memory sp)
    let sp ← ofExcept (Checked.offset sp 2)
    return ({ r.set .stack sp with pc, condition := .ofBits psr.toNat }, some .stack)
  | .trap vector => trap r vector

/-- A word is written without a breach. -/
theorem writeWord_eq (a w : Word) : writeWord a w = lift (Action.writeWord a w) := by
  rw [writeWord, Action.writeWord, lift_bind, lift_get]
  refine bind_congr fun m => ?_
  rw [lift_bind, lift_ofExcept, Checked.writeWord_eq, Machine.writeWord]
  cases m.memory.writeWord a w <;> rfl

/-- A store is carried out without a breach. -/
theorem store_eq (access : Access) (a w : Word) :
    store access a w = lift (Machine.storeInPlace access a w) := by
  cases access with
  | byte => exact writeByte_eq a w.low
  | word => exact writeWord_eq a w
  | indirect =>
    simp only [store, Machine.storeInPlace, lift_bind, lift_get, lift_ofExcept, Checked.fetch_eq,
      writeWord_eq]

/-- A routine is carried out without a breach. -/
theorem serve_eq (r : Registers) (routine : Service) :
    serve r routine = lift (Machine.serveInPlace r routine) := by
  cases routine with
  | getc | read | out | halt =>
    simp only [serve, Machine.serveInPlace, lift_bind, lift_get, lift_pure, pure_bind]
  | puts | putsp =>
    simp only [serve, Machine.serveInPlace, lift_bind, lift_get, lift_pure, lift_ofExcept,
      Checked.stringFrom_word, Checked.stringFrom_byte, bind_map_left]
    rfl

/-- A call is carried out without a breach, and so is one of no routine. -/
theorem trap_eq (r : Registers) (vector : Nat) :
    trap r vector = lift (Machine.trapInPlace r vector) := by
  rw [trap, Machine.trapInPlace]
  cases Service.ofVector? vector with
  | none => rfl
  | some routine => exact serve_eq r routine

/-- Carrying out an instruction whose numbers fit into its word breaks no check. -/
theorem execute_eq (r : Registers) {i : Instruction} (hi : i.Fits) :
    execute r i = lift (Machine.executeInPlace r i) := by
  cases i with
  | operate | not | jump | ret | callRegister => rfl
  | branch condition offset9 =>
    have htarget := Checked.offsetBy_of_fits hi rfl (by decide) (Or.inr rfl) r.pc
    rw [execute, Machine.executeInPlace]
    split
    · simp only [lift_bind, lift_ofExcept, lift_pure, htarget]
    · rfl
  | call offset11 =>
    have htarget := Checked.offsetBy_of_fits hi rfl (by decide) (Or.inr rfl) r.pc
    simp only [execute, Machine.executeInPlace, lift_bind, lift_ofExcept, lift_pure, htarget]
  | loadAddress dr offset9 =>
    have ha := Checked.offsetBy_of_fits hi rfl (by decide) (Or.inr rfl) r.pc
    simp only [execute, Machine.executeInPlace, lift_bind, lift_ofExcept, lift_pure, ha]
  | load access dr base offset6 =>
    have ha := Checked.offsetBy_of_fits hi rfl (by decide) (unit_cases access) (r.get base)
    simp only [execute, Machine.executeInPlace, lift_bind, lift_get, lift_ofExcept, lift_pure, ha,
      Checked.loaded_eq]
  | store access sr base offset6 =>
    have ha := Checked.offsetBy_of_fits hi rfl (by decide) (unit_cases access) (r.get base)
    simp only [execute, Machine.executeInPlace, lift_bind, lift_ofExcept, lift_pure, ha, store_eq]
  | shift direction dr sr amount4 =>
    rw [execute, Checked.shift_of_lt (Checked.amount_lt hi)]
    rfl
  | returnFromInterrupt =>
    have hoffset (sp : Word) : Checked.offset sp 2 = _ := Checked.offset_eq sp (by decide)
    simp only [execute, Machine.executeInPlace, lift_bind, lift_get, lift_ofExcept, lift_pure,
      Checked.fetch_eq, hoffset]
  | trap vector => exact trap_eq r vector

end Instructions

/-! ## Steps -/

/-- A computation with its fault as an answer. -/
def attempt (x : Guarded α) : Guarded (Except Fault α) :=
  tryCatch (Except.ok <$> x) fun
    | .fault f => pure (.error f)
    | .breach b => throw (.breach b)

def require (p : Prop) [Decidable p] (b : Breach) : Guarded Unit := ofExcept (Checked.ensure p b)

/-- Cut the console off after a number of bytes, unless it is shorter. -/
def truncate (size : Nat) : Guarded Unit := do
  let m ← get
  if size ≤ Text.utf8Size m.console.toList then
    match Text.splitAtByte? size m.console.toList with
    | some (kept, _) => set { m with console := String.ofList kept }
    | none => throw (.breach (.cut size))

/-- What is asserted about the condition codes once an instruction is carried out. -/
def requireCodes (i : Instruction) (before after : Condition) : Guarded Unit :=
  if i.setsConditionCodes then require after.Exclusive (.notOneCode after)
  else if i ≠ .returnFromInterrupt then require (after = before) (.changedCodes before after)
  else pure ()

/-- An assertion that holds does nothing. -/
theorem require_of {p : Prop} [Decidable p] {b : Breach} (h : p) : require p b = pure () := by
  rw [require, Checked.ensure_of h]
  rfl

/-- A fault is an answer like another, and leaves the machine where it is by then. -/
theorem run_attempt_lift (x : Action α) (m : Machine) :
    (attempt (lift x)).run m =
      match x.run m with
      | .ok a m' => .ok (.ok a) m'
      | .error f m' => .ok (.error f) m' := by
  rw [attempt, ← lift_map]
  change EStateM.tryCatch (lift (Except.ok <$> x)) _ m = _
  unfold EStateM.tryCatch
  have hrun := run_lift (Except.ok (ε := Fault) <$> x) m
  rw [Action.run_map] at hrun
  unfold EStateM.run at hrun ⊢
  rw [hrun]
  cases x m <;> rfl

/-- Nothing is cut off a console that is not longer than that. -/
theorem run_truncate_self (m : Machine) :
    (truncate (Text.utf8Size m.console.toList)).run m = .ok () m := by
  simp only [truncate, EStateM.run_bind, EStateM.run_get, le_refl, if_true,
    Text.splitAtByte?_utf8Size, EStateM.run_set, String.ofList_toList]

/-- Every result sets exactly one condition code, and nothing else but `RTI` sets any. -/
theorem requireCodes_eq {m : Machine} {r : Registers} {i : Instruction} {e : Effect}
    (h : m.execute r i = .ok e) : requireCodes i r.condition e.registers.condition = pure () := by
  have hframed := Machine.framed_execute h
  rw [requireCodes, Instruction.setsConditionCodes]
  cases hresult : i.result? with
  | some dr =>
    obtain ⟨_, hcodes⟩ := hframed.result dr hresult
    exact require_of (hcodes ▸ Condition.exclusive_ofValue _)
  | none =>
    refine (if_neg Bool.false_ne_true).trans ?_
    split
    · rename_i hrti
      exact require_of (hframed.condition hresult hrti)
    · rfl

section Step

variable [IndexRange]

/-- Execute one instruction, and make sure of what is asserted about it. -/
def step : Guarded Unit := do
  let m ← get
  if m.halted then throw (.fault .halted)
  let i ← ofExcept (Checked.current m)
  let pc ← ofExcept (Checked.offset m.registers.pc wordSize)
  match ← attempt (execute { m.registers with pc } i) with
  | .ok (registers, modified) =>
    requireCodes i m.registers.condition registers.condition
    let steps ← ofExcept (Checked.index ((← get).steps + 1))
    modify fun m => { m with registers, lastModified := modified, steps }
  | .error f =>
    require ((← get).input.length = m.input.length) .takenInput
    truncate (Text.utf8Size m.console.toList)
    throw (.fault f)

/-- A step with all checks has the effect that is planned for it or faults and has none, and only
the count of steps can be too large. -/
theorem run_step (m : Machine) :
    step.run m =
      match m.plan with
      | .error f => .error (.fault f) m
      | .ok e =>
        match Checked.index (m.steps + 1) with
        | .ok _ => .ok () (m.commit e)
        | .error failure => .error failure (m.perform e) := by
  rw [step, EStateM.run_bind, EStateM.run_get, Machine.plan]
  by_cases hh : m.halted = true
  · simp only [hh, if_true]
    rfl
  simp only [hh, Bool.false_eq_true, if_false, EStateM.run_bind, EStateM.run_ofExcept,
    Checked.current_eq]
  cases hi : m.current with
  | error f => rfl
  | ok i =>
    have hpc : Checked.offset m.registers.pc wordSize = _ :=
      Checked.offset_eq m.registers.pc (by decide)
    simp only [Checked.plain_ok, hpc]
    cases m.registers.pc.offset wordSize with
    | error f => rfl
    | ok pc =>
      simp only [Checked.plain_ok, execute_eq _ (Checked.fits_of_current hi), run_attempt_lift,
        Machine.run_executeInPlace]
      cases he : m.execute { m.registers with pc } i with
      | error f =>
        have hinput : require (m.input.length = m.input.length) .takenInput = pure () :=
          require_of rfl
        simp only [Machine.outcome, EStateM.run_bind, EStateM.run_get, hinput, EStateM.run_pure,
          run_truncate_self, Except.ok_bind, he]
        rfl
      | ok e =>
        have hcodes : requireCodes i m.registers.condition e.registers.condition = pure () :=
          requireCodes_eq (r := { m.registers with pc }) he
        have hsteps : (m.perform e).steps = m.steps := rfl
        simp only [Machine.outcome, EStateM.run_bind, EStateM.run_get, hcodes, EStateM.run_pure,
          hsteps, EStateM.run_ofExcept, Except.ok_bind, he]
        rcases Nat.lt_or_ge IndexRange.largest (m.steps + 1) with hlt | hle
        · rw [Checked.index_of_lt hlt]
        · rw [Checked.index_of_le hle]
          rfl

/-- A step breaks a check only where it is one too many to be counted. -/
theorem breached_iff (m : Machine) :
    (∃ b m', step.run m = .error (.breach b) m') ↔
      IndexRange.largest ≤ m.steps ∧ ∃ m', m.step = .ok m' := by
  rw [run_step, Machine.step]
  cases m.plan with
  | error f =>
    refine iff_of_false ?_ ?_
    · rintro ⟨b, m', h⟩
      cases h
    · rintro ⟨-, m', h⟩
      cases h
  | ok e =>
    rcases Nat.lt_or_ge m.steps IndexRange.largest with hlt | hle
    · rw [Checked.index_of_le hlt]
      refine iff_of_false ?_ fun h => absurd h.1 (Nat.not_le_of_lt hlt)
      rintro ⟨b, m', h⟩
      cases h
    · rw [Checked.index_of_lt (Nat.lt_succ_of_le hle)]
      exact iff_of_true ⟨_, _, rfl⟩ ⟨hle, _, rfl⟩

/-- From whatever state a machine is in, a step breaks no check, as long as its number of steps can
still be counted: it ends as it does without checks. Shifts are by less than a word. -/
theorem step_unbreached (m : Machine) (hsteps : m.steps < IndexRange.largest) :
    (∀ b m', step.run m ≠ .error (.breach b) m') ∧
      step.run m = (lift Machine.stepInPlace).run m ∧
      ∀ w direction dr sr amount,
        Instruction.decode w = .ok (.shift direction dr sr amount) → amount ≤ 15 := by
  refine ⟨fun b m' h => ?_, ?_, fun w direction dr sr amount h => ?_⟩
  · exact absurd ((breached_iff m).1 ⟨b, m', h⟩).1 (Nat.not_le_of_lt hsteps)
  · rw [run_step, run_lift, Machine.run_stepInPlace, Machine.step, Checked.index_of_le hsteps]
    cases m.plan <;> rfl
  · exact Nat.le_of_lt_succ (Checked.amount_lt (Checked.fits_of_decode h))

end Step

/-- The numbers of 64 bits. -/
abbrev range64 : IndexRange := ⟨18446744073709551615, by decide⟩

/-- A machine at the last address, which has no whole word, with one step left to count. -/
def atEnd : Machine :=
  { Machine.initial with
    registers := { Registers.initial with pc := 0xFFFF }
    steps := 18446744073709551614 }

/-- At the last address a step faults and no check fails. -/
theorem step_unbreached_atEnd :
    atEnd.steps < range64.largest ∧
      (@step range64).run atEnd = .error (.fault (.addressOutOfRange 0x10000)) atEnd := by
  have hsteps : atEnd.steps < range64.largest := by decide
  have hstep : atEnd.step = .error (.addressOutOfRange 0x10000) := rfl
  obtain ⟨_, hrun, _⟩ := @step_unbreached range64 atEnd hsteps
  rw [run_lift, Machine.run_stepInPlace, hstep] at hrun
  exact ⟨hsteps, hrun⟩

end Guarded

end LittleComputer
