import LittleComputer.Proofs.Machine.Refinement
import LittleComputer.Proofs.Machine.Run
import Mathlib

/-!
# What a step leaves alone

A step changes the register that it reports as written, and a call of a routine changes `R7`
besides. The condition codes follow a result, `RTI` takes them from the stack, and no other
instruction touches them. Of memory, only the bytes that a store writes to can change. All of this
is told of the effect of an instruction, with one lemma for each kind of effect, and of bytes in
unbounded integers, where an address is just a sum.
-/

namespace LittleComputer

namespace Instruction

/-- Whether an instruction writes a general register. Branches, jumps and stores do not. -/
def writesRegister : Instruction → Bool
  | .branch .. | .jump _ | .ret | .store .. => false
  | _ => true

variable {i : Instruction}

/-- An instruction with a result writes a register. -/
theorem writesRegister_of_result? {dr : Register} (h : i.result? = some dr) :
    i.writesRegister = true := by
  cases i with
  | operate | not | load | loadAddress | shift => rfl
  | branch | jump | ret | call | callRegister | store | returnFromInterrupt | trap => cases h

end Instruction

/-! ## Registers -/

/-- How an effect is bounded by the instruction that has it, given the registers with the program
counter at the next instruction. -/
structure Effect.Framed (r : Registers) (i : Instruction) (e : Effect) : Prop where
  result : ∀ dr, i.result? = some dr →
    e.modified = some dr ∧ e.registers.condition = .ofValue (e.registers.get dr)
  condition : i.result? = none → i ≠ .returnFromInterrupt →
    e.registers.condition = r.condition
  registers : ∀ j, e.modified ≠ some j → (∀ v, i = .trap v → j ≠ .link) →
    e.registers.get j = r.get j
  modified : e.modified = none ↔ i.writesRegister = false

namespace Machine

variable {m m' : Machine} {r : Registers} {i : Instruction} {e : Effect}

/-- A result writes one register and sets the codes by it. -/
theorem framed_result {dr : Register} (w : Word) (hi : i.result? = some dr) :
    (result r dr w).Framed r i where
  result dr' hdr' := by
    cases hi.symm.trans hdr'
    refine ⟨rfl, congrArg Condition.ofValue ?_⟩
    exact ((Registers.get_setResult _ _ _ _).trans (if_pos rfl)).symm
  condition hnone _ := by
    rw [hi] at hnone
    cases hnone
  registers j hj _ := by
    refine (Registers.get_setResult _ _ _ _).trans (if_neg fun h => hj ?_)
    exact congrArg some h
  modified := by
    rw [Instruction.writesRegister_of_result? hi]
    exact iff_of_false nofun nofun

/-- An instruction that writes no register leaves all of them and the codes alone. -/
theorem framed_of_not_writesRegister (hi : i.writesRegister = false) (hmodified : e.modified = none)
    (hgeneral : e.registers.general = r.general)
    (hcondition : e.registers.condition = r.condition) : e.Framed r i where
  result dr hdr := by
    rw [Instruction.writesRegister_of_result? hdr] at hi
    cases hi
  condition _ _ := hcondition
  registers j _ _ := congrArg (fun general : Vector Word 8 => general[j]) hgeneral
  modified := iff_of_true hmodified hi

/-- A call writes `R7` and leaves the codes alone. -/
theorem framed_callTo (a : Word) (hi : i.result? = none) (hwrites : i.writesRegister = true) :
    (callTo r a).Framed r i where
  result dr hdr := by
    rw [hi] at hdr
    cases hdr
  condition _ _ := rfl
  registers j hj _ := (Registers.get_set _ _ _ _).trans (if_neg fun h => hj (congrArg some h))
  modified := by
    rw [hwrites]
    exact iff_of_false nofun nofun

/-- `RTI` writes the stack pointer and takes the codes from the stack. -/
theorem framed_returnFromInterrupt (h : m.returnFromInterrupt r = .ok e) :
    e.Framed r .returnFromInterrupt := by
  obtain ⟨pc, _, h⟩ := Except.bind_eq_ok_iff.1 h
  obtain ⟨_, _, h⟩ := Except.bind_eq_ok_iff.1 h
  obtain ⟨psr, _, h⟩ := Except.bind_eq_ok_iff.1 h
  obtain ⟨top, _, rfl⟩ := Except.map_eq_ok_iff.1 h
  exact {
    result := nofun
    condition := fun _ hne => absurd rfl hne
    registers := fun j hj _ =>
      (Registers.get_set _ _ _ _).trans (if_neg fun h => hj (congrArg some h))
    modified := iff_of_false nofun nofun }

/-- A routine leaves the codes alone, and changes no register but the one it reports. -/
theorem serve_frame {routine : Service} (h : m.serve r routine = .ok e) :
    e.registers.condition = r.condition ∧ e.modified ≠ none ∧
      ∀ j, e.modified ≠ some j → e.registers.get j = r.get j := by
  have hread (echo : Bool) :
      (m.readByte r echo).registers.condition = r.condition ∧ (m.readByte r echo).modified ≠ none ∧
        ∀ j, (m.readByte r echo).modified ≠ some j →
          (m.readByte r echo).registers.get j = r.get j := by
    unfold readByte
    cases m.input with
    | nil => exact ⟨rfl, nofun, fun _ _ => rfl⟩
    | cons b rest =>
      refine ⟨rfl, nofun, fun j hj => ?_⟩
      exact (Registers.get_set _ _ _ _).trans (if_neg fun h => hj (congrArg some h))
  cases routine with
  | getc =>
    cases h
    exact hread false
  | read =>
    cases h
    exact hread true
  | out | halt =>
    cases h
    exact ⟨rfl, nofun, fun _ _ => rfl⟩
  | puts | putsp =>
    obtain ⟨bytes, _, rfl⟩ := Except.map_eq_ok_iff.1 h
    exact ⟨rfl, nofun, fun _ _ => rfl⟩

/-- A call of a routine writes `R7`, and `R0` if it reads. -/
theorem framed_trap {v : Nat} (h : m.trap r v = .ok e) : e.Framed r (.trap v) := by
  unfold trap at h
  split at h
  · obtain ⟨hcondition, hmodified, hregisters⟩ := serve_frame h
    exact {
      result := nofun
      condition := fun _ _ => hcondition
      registers := fun j hj hlink => (hregisters j hj).trans
        ((Registers.get_set _ _ _ _).trans (if_neg fun h => hlink v rfl h.symm))
      modified := iff_of_false hmodified nofun }
  · cases h

/-- The effect of every instruction is bounded by it, by cases on the instruction. -/
theorem framed_execute (h : m.execute r i = .ok e) : e.Framed r i := by
  cases i with
  | operate | not | shift =>
    cases h
    exact framed_result _ rfl
  | load access dr base offset6 =>
    obtain ⟨a, _, h⟩ := Except.bind_eq_ok_iff.1 h
    obtain ⟨w, _, rfl⟩ := Except.map_eq_ok_iff.1 h
    exact framed_result w rfl
  | loadAddress dr offset9 =>
    obtain ⟨a, _, rfl⟩ := Except.map_eq_ok_iff.1 h
    exact framed_result a rfl
  | branch condition offset9 =>
    rw [execute] at h
    split at h
    · obtain ⟨target, _, rfl⟩ := Except.map_eq_ok_iff.1 h
      exact framed_of_not_writesRegister rfl rfl rfl rfl
    · cases h
      exact framed_of_not_writesRegister rfl rfl rfl rfl
  | jump | ret =>
    cases h
    exact framed_of_not_writesRegister rfl rfl rfl rfl
  | store access sr base offset6 =>
    obtain ⟨a, _, h⟩ := Except.bind_eq_ok_iff.1 h
    obtain ⟨store, _, rfl⟩ := Except.map_eq_ok_iff.1 h
    exact framed_of_not_writesRegister rfl rfl rfl rfl
  | call offset11 =>
    obtain ⟨target, _, rfl⟩ := Except.map_eq_ok_iff.1 h
    exact framed_callTo target rfl rfl
  | callRegister base =>
    cases h
    exact framed_callTo _ rfl rfl
  | returnFromInterrupt => exact framed_returnFromInterrupt h
  | trap v => exact framed_trap h

end Machine

/-! ## Memory -/

namespace Unbounded

variable (s : Unbounded)

/-- The addresses of the bytes that an instruction writes: one for a byte, and two in a row for a
word, of which an indirect store finds the first in memory. -/
def writes : Instruction → List Int
  | .store access _ base offset6 =>
    let a := s.register base + access.unit * offset6
    match access with
    | .byte => [a]
    | .word => [a, a + 1]
    | .indirect => [s.word a, s.word a + 1]
  | _ => []

variable {s} {a b n : Int}

/-- A byte that is written changes no other. -/
theorem byte_setByte_of_ne (h : b ≠ a) : (s.setByte a n).byte b = s.byte b :=
  Function.update_of_ne h _ _

/-- A word that is written changes no byte but its own two. -/
theorem byte_setWord_of_not_mem (h : b ∉ [a, a + 1]) : (s.setWord a n).byte b = s.byte b := by
  rw [List.mem_cons, List.mem_singleton, not_or] at h
  exact (byte_setByte_of_ne h.2).trans (byte_setByte_of_ne h.1)

/-- An instruction changes no byte but those that it writes. -/
theorem byte_effect {i : Instruction} (h : b ∉ s.writes i) : (s.effect i).byte b = s.byte b := by
  cases i with
  | operate | not | load | loadAddress | shift | jump | ret | call | callRegister
  | returnFromInterrupt => rfl
  | branch condition offset9 => exact congrFun (s.kept_branch condition offset9).2 b
  | store access sr base offset6 =>
    cases access with
    | byte => exact byte_setByte_of_ne (by simpa [writes] using h)
    | word | indirect => exact byte_setWord_of_not_mem h
  | trap v => exact congrFun (kept_served _ _).2 b

end Unbounded

/-! ## Steps -/

namespace Machine

variable {m m' : Machine} {i : Instruction}

/-- A word that is fetched is that of the unbounded memory. -/
theorem word_of_fetch {r : Registers} {a w : Word} (h : m.memory.fetch a = .ok w) :
    (w.toNat : Int) = (m.viewOf r).word a.toNat := by
  have hneeds := needs_fetch (m := m) (r := r) a
  cases hfirst : firstOutside? [(a.toNat : Int) + 1] with
  | some b =>
    rw [hneeds.fault b hfirst] at h
    cases h
  | none =>
    obtain ⟨w', hw', hword⟩ := hneeds.otherwise hfirst
    cases h.symm.trans hw'
    exact hword

/-- The instruction at the program counter is the one that is seen there in unbounded integers. -/
theorem instruction?_of_current (h : m.current = .ok i) : m.view.instruction? = some i := by
  obtain ⟨w, hw, hdecode⟩ := current_eq_ok_iff.1 h
  have hfetch : m.memory.fetch m.registers.pc = .ok w := congrArg (Except.mapError _) hw
  rw [instruction?_view (word_of_fetch hfetch)]
  exact Instruction.decode_eq_ok_iff.1 hdecode

/-- What a step by an instruction can change. -/
structure Frame (m : Machine) (i : Instruction) (m' : Machine) : Prop where
  /-- The condition codes tell the sign of a result. -/
  result : i.setsConditionCodes = true → ∃ dr, i.result? = some dr ∧
    m'.lastModified = some dr ∧ m'.registers.condition = .ofValue (m'.registers.get dr)
  /-- `RTI` takes them from the low three bits of the second word on the stack. -/
  restored : i = .returnFromInterrupt →
    m'.registers.condition = .ofBits (m.view.word (m.view.register .stack + 2)).toNat
  /-- Nothing else touches them. -/
  condition : i.setsConditionCodes = false → i ≠ .returnFromInterrupt →
    m'.registers.condition = m.registers.condition
  /-- A register that is not reported is kept, unless a routine is called and the register is
  `R7`. -/
  registers : ∀ j, m'.lastModified ≠ some j → (∀ v, i = .trap v → j ≠ .link) →
    m'.registers.get j = m.registers.get j
  modified : m'.lastModified = none ↔ i.writesRegister = false
  memory : ∀ a, (a.toNat : Int) ∉ m.view.writes i → m'.memory.byte a = m.memory.byte a

/-- A step that is taken is taken by the instruction at the program counter, and changes no more
than that instruction can change. -/
theorem frame_of_step (h : m.step = .ok m') : ∃ i, m.current = .ok i ∧ Frame m i m' := by
  obtain ⟨_, i, pc, e, hi, _, he, hcommit⟩ := step_eq_ok_iff.1 h
  obtain ⟨i', hi', hview⟩ := view_of_step h
  obtain rfl : i = i' := Option.some.inj ((instruction?_of_current hi).symm.trans hi')
  have hframed := framed_execute he
  have hregisters : m'.registers = e.registers := hcommit ▸ rfl
  have hmodified : m'.lastModified = e.modified := hcommit ▸ rfl
  refine ⟨i, hi, ?_, ?_, ?_, ?_, ?_, ?_⟩
  · intro hsets
    obtain ⟨dr, hdr⟩ := Option.isSome_iff_exists.1 hsets
    rw [hregisters, hmodified]
    exact ⟨dr, hdr, hframed.result dr hdr⟩
  · rintro rfl
    exact congrArg Unbounded.condition hview
  · intro hkeeps hne
    rw [hregisters]
    exact hframed.condition (Option.not_isSome_iff_eq_none.1 (Bool.not_eq_true _ ▸ hkeeps)) hne
  · intro j hj hlink
    rw [hregisters]
    exact hframed.registers j (hmodified ▸ hj) hlink
  · rw [hmodified]
    exact hframed.modified
  · intro a ha
    have hbyte : m'.memory.byteAt a.toNat = m.memory.byteAt a.toNat :=
      (congrFun (congrArg Unbounded.byte hview) a.toNat).trans (Unbounded.byte_effect ha)
    rw [Memory.byteAt_toNat, Memory.byteAt_toNat, Int.natCast_inj] at hbyte
    exact BitVec.eq_of_toNat_eq hbyte

/-- A machine that is about to store `R7` at the address in its first word, which is the word of
that very instruction. -/
def storing : Machine :=
  { initial with
    registers := { Registers.initial with pc := 0 }.set .link 0x1234
    memory := Memory.zero.setWords 0 [0xBE00] }

/-- The instruction overwrites itself and changes no other byte. -/
theorem frame_of_step_storing :
    ∃ m', storing.step = .ok m' ∧ m'.lastModified = none ∧
      m'.registers.condition = storing.registers.condition ∧
      (∀ j, m'.registers.get j = storing.registers.get j) ∧
      ∀ a, a ≠ 0xBE00 → a ≠ 0xBE01 → m'.memory.byte a = storing.memory.byte a := by
  have hread : storing.memory.readWord 0 = .ok 0xBE00 :=
    Memory.readWord_setWords (n := 0) (by decide) rfl rfl
  have hfetch : storing.memory.fetch 0 = .ok 0xBE00 := congrArg (Except.mapError _) hread
  have hdecode : Instruction.decode? 0xBE00 = some (.store .indirect .link 0 0) := rfl
  let r : Registers := { storing.registers with pc := 2 }
  have hstored : storing.stored .indirect 0 (r.get .link) = .ok (.word 0xBE00 (r.get .link)) := by
    rw [stored, hfetch]
    rfl
  have hexecute : storing.execute r (.store .indirect .link 0 0) =
      .ok { registers := r, modified := none, store := .word 0xBE00 (r.get .link) } := by
    rw [execute, show (r.get 0).offset _ = .ok 0 from rfl, Except.ok_bind, hstored]
    rfl
  have hstep := step_of_decode? (m := storing) rfl hread hdecode (by decide)
  rw [show ({ storing.registers with pc := storing.registers.pc + 2 } : Registers) = r from rfl,
    hexecute] at hstep
  obtain ⟨i, hi, hframe⟩ := frame_of_step hstep
  cases (current_of_decode? hread hdecode).symm.trans hi
  have hmodified := hframe.modified.2 rfl
  refine ⟨_, hstep, hmodified, hframe.condition rfl (by simp), fun j => ?_, fun a hlow hhigh => ?_⟩
  · exact hframe.registers j (hmodified.trans_ne (Option.some_ne_none j).symm) (by simp)
  · refine hframe.memory a fun ha => ?_
    have hpointer : storing.view.word 0 = 0xBE00 := (word_of_fetch hfetch).symm
    change (a.toNat : Int) ∈ [storing.view.word 0, storing.view.word 0 + 1] at ha
    rw [hpointer, List.mem_cons, List.mem_singleton] at ha
    rcases ha with ha | ha
    · exact hlow (BitVec.eq_of_toNat_eq (Int.natCast_inj.1 ha))
    · exact hhigh (BitVec.eq_of_toNat_eq (Int.natCast_inj.1 ha))

end Machine

end LittleComputer
