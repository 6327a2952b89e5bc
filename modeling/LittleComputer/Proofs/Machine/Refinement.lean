import LittleComputer.Proofs.Machine.Needs
import LittleComputer.Proofs.Machine.Strings
import Mathlib

/-!
# Steps do what they do in unbounded integers

A step faults at the first of the addresses it needs that is not one of memory, where addresses are
added up in unbounded integers. If there is none, the machine becomes what it becomes in unbounded
integers. There is one lemma for each function that a step is made of, about `Needs`.
-/

namespace LittleComputer

namespace Machine

variable (m : Machine) (r : Registers)

/-! ## What is seen of an effect -/

/-- A register that is set is seen to be. -/
theorem viewOf_set (i : Register) (w : Word) :
    m.viewOf (r.set i w) = (m.viewOf r).set i w.toNat := by
  have hregister : (m.viewOf (r.set i w)).register =
      Function.update (m.viewOf r).register i (w.toNat : Int) := by
    funext j
    change (((r.set i w).get j).toNat : Int) = _
    rw [Registers.get_set, Function.update_apply]
    by_cases h : i = j
    · rw [if_pos h, if_pos h.symm]
    · rw [if_neg h, if_neg (Ne.symm h)]
      rfl
  exact Unbounded.ext hregister rfl rfl rfl rfl

/-- A result is seen with the codes of its sign. -/
theorem viewOf_setResult (i : Register) (w : Word) :
    m.viewOf (r.setResult i w) = (m.viewOf r).setResult i w.toNat := by
  rw [Unbounded.setResult, ← viewOf_set, ← Condition.ofValue_eq_ofSign]
  rfl

/-- A byte that is written is seen at its address. -/
theorem viewOf_setByte (a : Word) (b : Byte) :
    (m.setByte a b).viewOf r = (m.viewOf r).setByte a.toNat b.toNat :=
  Unbounded.ext rfl rfl rfl (m.memory.byteAt_setByte a b) rfl

/-- A word that is stored is seen at its address. -/
theorem view_commit_word {a : Word} (w : Word) (h : a.toNat + 1 < memorySize) :
    (m.commit { registers := r, modified := none, store := .word a w }).view =
      (m.viewOf r).setWord a.toNat w.toNat := by
  have hnext : ((a + 1).toNat : Int) = (a.toNat : Int) + 1 := by
    rw [Word.toNat_add_one h]
    rfl
  change ((m.setByte a w.low).setByte (a + 1) w.high).viewOf r = _
  rw [viewOf_setByte, viewOf_setByte, hnext, Word.toNat_low, Word.toNat_high]
  rfl

/-- An effect that is a result is seen as one. -/
theorem view_result (dr : Register) (w : Word) :
    (m.commit (result r dr w)).view = (m.viewOf r).setResult dr w.toNat :=
  viewOf_setResult m r dr w

/-- An effect that is a call is seen as one. -/
theorem view_callTo (a : Word) :
    (m.commit (callTo r a)).view =
      { (m.viewOf r).set .link (m.viewOf r).pc with pc := a.toNat } := by
  change m.viewOf { r.set .link r.pc with pc := a } = _
  rw [show (m.viewOf r).pc = r.pc.toNat from rfl, ← viewOf_set]
  rfl

/-! ## Loads and stores -/

variable {m r}

/-- A load needs the bytes of its word, and for an indirect one those of the pointer first. -/
theorem needs_loaded (access : Access) {a : Word} {n : Int} (ha : (a.toNat : Int) = n) :
    Needs ((m.viewOf r).further access n) (m.loaded access a)
      (Answers fun w => (w.toNat : Int) = (m.viewOf r).loaded access n) := by
  subst ha
  cases access with
  | byte =>
    refine Needs.ok ?_
    rw [Byte.toNat_signExtend, ← Memory.byteAt_toNat]
    rfl
  | word => exact needs_fetch a
  | indirect =>
    refine Needs.bind (needs_fetch (r := r) a) fun pointer hpointer => ?_
    rw [Unbounded.loaded, ← hpointer]
    exact needs_fetch_both pointer

/-- A store needs the bytes of its word, and for an indirect one those of the pointer first. -/
theorem needs_stored (access : Access) {a w : Word} {n : Int} (ha : (a.toNat : Int) = n) :
    Needs ((m.viewOf r).further access n) (m.stored access a w)
      (Answers fun store => (m.commit { registers := r, modified := none, store }).view =
        (m.viewOf r).stored access n w.toNat) := by
  subst ha
  have hstoreWord (b : Word) : Needs [(b.toNat : Int) + 1] (storeWord b w)
      (Answers fun store => (m.commit { registers := r, modified := none, store }).view =
        (m.viewOf r).setWord b.toNat w.toNat) := by
    refine (needs_storeWord b w).imp ?_
    rintro ⟨store, hstore, rfl, hb⟩
    exact ⟨_, hstore, view_commit_word m r w hb⟩
  cases access with
  | byte =>
    refine Needs.ok ?_
    change (m.setByte a w.low).viewOf r = _
    rw [viewOf_setByte, Word.toNat_low]
    rfl
  | word => exact hstoreWord a
  | indirect =>
    refine Needs.bind (needs_fetch (r := r) a) fun pointer hpointer => ?_
    rw [Unbounded.stored, ← hpointer]
    exact Needs.cons (inMemory_toNat pointer) (hstoreWord pointer)

/-- `RTI` needs two words in a row and the address after them, all told from the first address. -/
theorem needs_returnFromInterrupt :
    Needs ((m.viewOf r).needs .returnFromInterrupt) (m.returnFromInterrupt r)
      (Answers fun e => (m.commit e).view = (m.viewOf r).effect .returnFromInterrupt) := by
  let sp := r.get .stack
  refine Needs.bind (l := [(sp.toNat : Int), sp.toNat + 1]) (needs_fetch_both (r := r) sp)
    fun pc hpc => ?_
  refine Needs.bind (l := [(sp.toNat : Int) + 2]) (needs_offset sp 2) fun next hnext => ?_
  refine Needs.bind (l := [(sp.toNat : Int) + 3]) (P := fun psr : Word =>
    (psr.toNat : Int) = (m.viewOf r).word (sp.toNat + 2)) ?_ fun psr hpsr => ?_
  · have hfetch := needs_fetch (m := m) (r := r) next
    rw [hnext, add_assoc] at hfetch
    exact hfetch
  refine Needs.map (P := fun top : Word => (top.toNat : Int) = sp.toNat + 4) ?_ fun top htop => ?_
  · have hoffset := needs_offset next 2
    rw [hnext, add_assoc] at hoffset
    exact hoffset
  change m.viewOf { r.set .stack top with pc, condition := .ofBits psr.toNat } =
    { (m.viewOf r).set .stack ((sp.toNat : Int) + 4) with
      pc := (m.viewOf r).word sp.toNat
      condition := .ofBits ((m.viewOf r).word (sp.toNat + 2)).toNat }
  rw [← hpc, ← hpsr, ← htop, ← viewOf_set]
  rfl

end Machine

/-! ## Strings -/

namespace Machine

variable {m : Machine} {r : Registers}

/-- Reading a string goes on with the next word, unless the string ends. The address of that word is
checked before the word is read, and is needed once for both. -/
theorem needs_string {ends : Int → Bool} (ended : Word → Prop) [DecidablePred ended] {a : Word}
    {last : Word → List Byte} {next : Word → Word → Except Fault (List Byte)}
    (hends : ∀ w : Word, ends w.toNat = true ↔ ended w)
    (hnext : ∀ w b : Word, (b.toNat : Int) = a.toNat + 2 →
      Needs ((m.viewOf r).stringBytes ends b.toNat) (next w b) (Answers fun _ => True)) :
    Needs ((m.viewOf r).stringBytes ends a.toNat)
      (m.memory.fetch a >>= fun w =>
        if ended w then .ok (last w) else a.offset 2 >>= next w) (Answers fun _ => True) := by
  have hinside : ¬(0xFFFF : Int) < a.toNat := not_lt.2 (inMemory_toNat a).2
  have hfetch := needs_fetch_both (m := m) (r := r) a
  rw [Unbounded.stringBytes]
  by_cases h : ends ((m.viewOf r).word a.toNat) = true
  · rw [if_pos (Or.inl h)]
    refine Needs.bind (k := []) hfetch fun w hw => ?_
    rw [if_pos ((hends w).1 (hw ▸ h))]
    exact Needs.ok trivial
  · rw [if_neg (not_or.2 ⟨h, hinside⟩)]
    refine Needs.bind (l := [(a.toNat : Int), a.toNat + 1]) hfetch fun w hw => ?_
    rw [if_neg fun hended => h (hw ▸ (hends w).2 hended)]
    obtain ⟨rest, hrest⟩ := (m.viewOf r).exists_stringBytes_eq_cons ends (a.toNat + 2)
    rw [hrest]
    refine needs_offset_bind fun b hb => ?_
    have hstring := hnext w b hb
    rw [hb, hrest, ← hb] at hstring
    exact hstring

/-- By recursion on the memory that is left, which is how a string is read. -/
theorem needs_wordStringFrom (before : List Byte) (a : Word) :
    Needs ((m.viewOf r).stringBytes (fun w => w = 0) a.toNat) (m.memory.wordStringFrom before a)
      (Answers fun _ => True) := by
  rw [Memory.wordStringFrom_eq]
  refine needs_string (fun w => w = 0) (fun w => ?_) fun w b hb => ?_
  · rw [decide_eq_true_iff, Int.natCast_eq_zero]
    exact BitVec.toNat_inj (x := w) (y := 0)
  · exact needs_wordStringFrom (w.low :: before) b
termination_by 0x10000 - a.toNat
decreasing_by
  have := b.isLt
  omega

/-- By the same recursion, for two bytes a word. -/
theorem needs_byteStringFrom (before : List Byte) (a : Word) :
    Needs ((m.viewOf r).stringBytes (fun w => w % 256 = 0 ∨ w / 256 = 0) a.toNat)
      (m.memory.byteStringFrom before a) (Answers fun _ => True) := by
  rw [Memory.byteStringFrom_eq]
  refine needs_string (fun w => w.low = 0 ∨ w.high = 0) (fun w => ?_) fun w b hb => ?_
  · rw [decide_eq_true_iff, ← BitVec.toNat_inj, ← BitVec.toNat_inj, Word.toNat_low, Word.toNat_high]
    norm_cast
  · exact needs_byteStringFrom (w.high :: w.low :: before) b
termination_by 0x10000 - a.toNat
decreasing_by
  have := b.isLt
  omega

/-! ## Instructions -/

/-- A byte that is read is seen in `R0`. -/
theorem view_readByte (echo : Bool) :
    (m.commit (m.readByte r echo)).view = (m.viewOf r).takeByte := by
  unfold readByte Unbounded.takeByte
  rw [show (m.viewOf r).input = m.input from rfl]
  cases hinput : m.input with
  | nil => rfl
  | cons b rest =>
    have hbyte : (BitVec.ofNat 16 b.toNat).toNat = b.toNat := by
      rw [BitVec.toNat_ofNat]
      exact Nat.mod_eq_of_lt (b.isLt.trans (by decide))
    have hregister := congrArg Unbounded.register (viewOf_set m r .io (BitVec.ofNat 16 b.toNat))
    rw [hbyte] at hregister
    have htail : m.input.tail = rest := by
      rw [hinput]
      rfl
    exact Unbounded.ext hregister rfl rfl rfl htail

/-- A routine needs the addresses of the string that it writes, if it writes one. -/
theorem needs_serve (routine : Service) :
    Needs ((m.viewOf r).needs (.trap routine.vector)) (m.serve (r.set .link r.pc) routine)
      (Answers fun e =>
        (m.commit e).view = ((m.viewOf r).set .link r.pc.toNat).served (some routine)) := by
  have hio : (r.set .link r.pc).get .io = r.get .io := Registers.get_set _ _ _ _
  rw [← viewOf_set]
  cases routine with
  | getc => exact Needs.ok (view_readByte false)
  | read => exact Needs.ok (view_readByte true)
  | out => exact Needs.ok rfl
  | halt => exact Needs.ok rfl
  | puts =>
    rw [serve, hio]
    exact Needs.map (needs_wordStringFrom [] (r.get .io)) fun bytes _ => rfl
  | putsp =>
    rw [serve, hio]
    exact Needs.map (needs_byteStringFrom [] (r.get .io)) fun bytes _ => rfl

/-- An instruction needs the addresses that are listed for it, and does what is said of it. -/
theorem needs_execute (i : Instruction) (hknown : ∀ v, i = .trap v → Service.ofVector? v ≠ none) :
    Needs ((m.viewOf r).needs i) (m.execute r i)
      (Answers fun e => (m.commit e).view = (m.viewOf r).effect i) := by
  cases i with
  | operate op dr sr1 argument =>
    refine Needs.ok ?_
    rw [view_result, Operation.toNat_apply op (Argument.value_toNat_mod m r argument)]
    rfl
  | not dr sr =>
    refine Needs.ok ?_
    have hlt := (r.get sr).isLt
    have hnot : ((~~~r.get sr).toNat : Int) = 65535 - (r.get sr).toNat := by
      rw [BitVec.toNat_not]
      omega
    rw [view_result, hnot]
    rfl
  | branch condition offset9 =>
    rw [execute, Unbounded.needs, Unbounded.effect,
      show (m.viewOf r).condition = r.condition from rfl]
    by_cases htaken : condition.intersects r.condition = true
    · rw [if_pos htaken, if_pos htaken, if_pos htaken]
      refine Needs.map (needs_offset r.pc _) fun target htarget => ?_
      change { m.viewOf r with pc := (target.toNat : Int) } = _
      rw [htarget]
      rfl
    · rw [if_neg htaken, if_neg htaken, if_neg htaken]
      exact Needs.ok rfl
  | jump base => exact Needs.ok rfl
  | ret => exact Needs.ok rfl
  | call offset11 =>
    refine Needs.map (needs_offset r.pc _) fun target htarget => ?_
    rw [view_callTo, htarget]
    rfl
  | callRegister base => exact Needs.ok (view_callTo m r (r.get base))
  | load access dr base offset6 =>
    refine Needs.bind (l := [_]) (needs_offset (r.get base) _) fun a ha => ?_
    refine Needs.map (needs_loaded access ha) fun w hw => ?_
    rw [view_result, hw]
    rfl
  | store access sr base offset6 =>
    refine Needs.bind (l := [_]) (needs_offset (r.get base) _) fun a ha => ?_
    exact Needs.map (needs_stored access ha) fun store hstore => hstore
  | loadAddress dr offset9 =>
    refine Needs.map (needs_offset r.pc _) fun a ha => ?_
    rw [view_result, ha]
    rfl
  | shift direction dr sr amount4 =>
    refine Needs.ok ?_
    rw [view_result, Shift.toNat_apply]
    rfl
  | returnFromInterrupt => exact needs_returnFromInterrupt
  | trap v =>
    cases hv : Service.ofVector? v with
    | none => exact absurd hv (hknown v rfl)
    | some routine =>
      rw [execute, trap, hv, Unbounded.effect, hv, Service.ofVector?_eq_some_iff.1 hv]
      exact needs_serve routine

/-! ## Steps -/

/-- A step fetches, decodes, moves the program counter and executes, in that order. -/
theorem plan_eq (hrunning : m.halted = false) :
    m.plan = m.memory.fetch m.registers.pc >>= fun w =>
      (Instruction.decode w).mapError (Fault.undecodable m.registers.pc) >>= fun i =>
        m.registers.pc.offset 2 >>= fun pc => m.execute { m.registers with pc } i := by
  unfold plan current Memory.fetch
  rw [hrunning]
  cases m.memory.readWord m.registers.pc <;> rfl

/-- The instruction that is seen is the one that is decoded. -/
theorem instruction?_view {w : Word} (hw : (w.toNat : Int) = m.view.word m.registers.pc.toNat) :
    m.view.instruction? = Instruction.decode? w :=
  congrArg Instruction.decode? (Word.ofInt_eq hw)

/-- An instruction is executed with the program counter at the next one. -/
theorem viewOf_advanced {pc : Word} (hpc : (pc.toNat : Int) = m.registers.pc.toNat + 2) :
    m.viewOf { m.registers with pc } = m.view.advanced :=
  Unbounded.ext rfl hpc rfl rfl rfl

/-- How a step comes out that has all the addresses it needs. -/
def Planned (m : Machine) (x : Except Fault Effect) : Prop :=
  match m.view.instruction? with
  | none => x = .error (.undecodable m.registers.pc ⟨BitVec.ofInt 16 (m.view.word m.view.pc)⟩)
  | some i =>
    (∃ v, i = .trap v ∧ Service.ofVector? v = none ∧ x = .error (.unknownTrap v)) ∨
      Answers (fun e => (m.commit e).view = m.view.advanced.effect i) x

/-- A step needs the word at the program counter, the next address and those of its instruction. An
unknown routine needs no address of its own, so its fault comes last. -/
theorem needs_plan (hrunning : m.halted = false) : Needs m.view.addresses m.plan m.Planned := by
  rw [plan_eq hrunning]
  unfold Unbounded.addresses Planned
  refine Needs.bind (l := [(m.registers.pc.toNat : Int), m.registers.pc.toNat + 1])
    (needs_fetch_both (r := m.registers) m.registers.pc) fun w hw => ?_
  rw [instruction?_view hw, Instruction.decode]
  cases Instruction.decode? w with
  | none =>
    have hword : BitVec.ofInt 16 (m.view.word m.view.pc) = w := Word.ofInt_eq hw
    rw [hword]
    exact Needs.nil rfl
  | some i =>
    change Needs _ (m.registers.pc.offset 2 >>= _) _
    refine Needs.bind (l := [_]) (k := m.view.advanced.needs i) (needs_offset m.registers.pc 2)
      fun pc hpc => ?_
    by_cases hunknown : ∃ v, i = .trap v ∧ Service.ofVector? v = none
    · obtain ⟨v, rfl, hv⟩ := hunknown
      have hneeds : m.view.advanced.needs (.trap v) = [] := by rw [Unbounded.needs, hv]
      rw [hneeds]
      refine Needs.nil (Or.inl ⟨v, rfl, hv, ?_⟩)
      rw [execute, trap, hv]
    · have hexecute := needs_execute (m := m) (r := { m.registers with pc }) i
        fun v hi hv => hunknown ⟨v, hi, hv⟩
      rw [viewOf_advanced hpc] at hexecute
      exact hexecute.imp Or.inr

/-- A step that has all its addresses does not fault for want of one. -/
theorem Planned.ne_outside {x : Except Fault Effect} (h : m.Planned x) (a : Int) :
    x ≠ .error (.addressOutOfRange a) := by
  rintro rfl
  unfold Planned at h
  split at h
  · cases h
  · rcases h with ⟨_, _, _, hfault⟩ | ⟨_, hanswer, _⟩
    · cases hfault
    · cases hanswer

/-- A step that is done is done as in unbounded integers. -/
theorem view_of_step {m' : Machine} (h : m.step = .ok m') :
    ∃ i, m.view.instruction? = some i ∧ m'.view = m.view.advanced.effect i := by
  obtain ⟨e, he, rfl⟩ := Except.map_eq_ok_iff.1 h
  have hrunning : m.halted = false := by
    by_contra hhalted
    rw [plan, if_pos (Bool.not_eq_false _ ▸ hhalted)] at he
    cases he
  have hplan := needs_plan hrunning
  cases hfirst : firstOutside? m.view.addresses with
  | some a =>
    rw [hplan.fault a hfirst] at he
    cases he
  | none =>
    have hplanned := hplan.otherwise hfirst
    rw [he] at hplanned
    unfold Planned at hplanned
    split at hplanned
    · cases hplanned
    · rename_i i hi
      rcases hplanned with ⟨_, _, _, hfault⟩ | ⟨_, hanswer, hview⟩
      · cases hfault
      · cases hanswer
        exact ⟨i, hi, hview⟩

/-- Nothing wraps in a step. A machine that runs faults with an address exactly where one of those
that it needs is not one of memory, and the address is then the first of them. Otherwise it becomes
what it becomes in unbounded integers, unless the word at the program counter is no instruction or
calls a routine that there is not. -/
theorem step_unbounded (hrunning : m.halted = false) :
    (∀ a, m.step = .error (.addressOutOfRange a) ↔
      ∃ before after, m.view.addresses = before ++ a :: after ∧
        (∀ b ∈ before, InMemory b) ∧ ¬InMemory a) ∧
    ((∀ a ∈ m.view.addresses, InMemory a) →
      match m.view.instruction? with
      | none =>
        m.step =
          .error (.undecodable m.registers.pc ⟨BitVec.ofInt 16 (m.view.word m.view.pc)⟩)
      | some i =>
        (∃ v, i = .trap v ∧ Service.ofVector? v = none ∧ m.step = .error (.unknownTrap v)) ∨
          ∃ m', m.step = .ok m' ∧ m'.view = m.view.advanced.effect i) := by
  have hplan := needs_plan hrunning
  unfold step
  constructor
  · intro a
    rw [← firstOutside?_eq_some_iff]
    constructor
    · intro hstep
      cases hfirst : firstOutside? m.view.addresses with
      | some b =>
        rw [hplan.fault b hfirst] at hstep
        cases hstep
        rfl
      | none =>
        have hne := (hplan.otherwise hfirst).ne_outside a
        exact absurd (Except.map_eq_error_iff.1 hstep) hne
    · intro hfirst
      rw [hplan.fault a hfirst]
      rfl
  · intro hall
    have hplanned := hplan.otherwise (firstOutside?_eq_none_iff.2 hall)
    unfold Planned at hplanned
    cases hi : m.view.instruction? with
    | none =>
      rw [hi] at hplanned
      exact congrArg (Except.map m.commit) hplanned
    | some i =>
      rw [hi] at hplanned
      rcases hplanned with ⟨v, hv, hunknown, hfault⟩ | ⟨e, he, hview⟩
      · exact Or.inl ⟨v, hv, hunknown, congrArg (Except.map m.commit) hfault⟩
      · exact Or.inr ⟨m.commit e, congrArg (Except.map m.commit) he, hview⟩

/-- The last word of memory is an instruction that cannot be executed, as there is none after it. -/
theorem step_unbounded_last_word :
    (initial.setPc 0xFFFE).halted = false ∧
      (initial.setPc 0xFFFE).step = .error (.addressOutOfRange 0x10000) := by
  have hbyte (a : Word) : (initial.setPc 0xFFFE).view.byte a.toNat = 0 := by
    change Memory.zero.byteAt a.toNat = 0
    rw [Memory.byteAt_toNat, Memory.byte_zero]
    rfl
  have hword : (initial.setPc 0xFFFE).view.word 0xFFFE = 0 := by
    rw [Unbounded.word]
    exact congrArg₂ (fun low high : Int => low + 256 * high) (hbyte 0xFFFE) (hbyte 0xFFFF)
  have hinstruction : (initial.setPc 0xFFFE).view.instruction? = some (.branch .empty 0) := by
    change Instruction.decode? (BitVec.ofInt 16 ((initial.setPc 0xFFFE).view.word 0xFFFE)) = _
    rw [hword]
    rfl
  have haddresses : (initial.setPc 0xFFFE).view.addresses = [0xFFFE, 0xFFFF] ++ [0x10000] := by
    rw [Unbounded.addresses, hinstruction]
    rfl
  refine ⟨rfl, ((step_unbounded rfl).1 0x10000).2 ⟨_, [], haddresses, ?_, ?_⟩⟩
  · decide
  · decide

end Machine

end LittleComputer
