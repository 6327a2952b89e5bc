import LittleComputer.Proofs.Assembly.Emission
import LittleComputer.Proofs.Assembly.Resolve
import LittleComputer.Proofs.Instruction.Encoding
import LittleComputer.Proofs.Machine.Fresh
import Mathlib

/-!
# References to labels

An instruction refers to a label by the distance to it. The assembler counts the distance from the
next instruction and the machine adds it to the program counter, so the machine arrives at the
address that the label has. It does not where the program has not been loaded, as one with a string
that is too long to be counted.
-/

namespace LittleComputer

open Assembly Source

variable {options : Options} {source : String} {p : Program} {l : Layout}

section Placed

variable {line : Nat} {a : Word} {item : Item} {w : Word} {m₀ : Machine}

/-- The word of an item is in memory at the address of the item. -/
theorem Machine.readWord_of_placed (h : assemble options source = .ok p)
    (hl : Layout.ofLines options (Text.lines source.toList) = .ok l)
    (hplaced : ⟨line, a, item⟩ ∈ l.placements) (hload : Machine.ofProgram p = .ok m₀)
    (hw : (Scope.mk p.symbols a).words item = .ok [w]) : m₀.memory.readWord a = .ok w := by
  obtain ⟨_, chunks, hl', hemits, rfl⟩ := assemble_eq_ok_iff.1 h
  cases hl.symm.trans hl'
  obtain ⟨read, _, hconsistent⟩ := Layout.consistent_of_ofLines hl
  obtain ⟨hfits, rfl⟩ := Machine.ofProgram_eq_ok_iff.1 hload
  have hlt : chunks.flatten.length < 2 ^ 32 := by
    simp only [Program.endAddress, wordSize, memorySize] at hfits
    omega
  have hsize := hemits.size_eq_of_lt hconsistent.placed hlt
  obtain ⟨n, hn, ha⟩ := hemits.getElem?_flatten hconsistent.tiled hsize hplaced hw
  exact Memory.readWord_setWords hfits hn ha

/-- An instruction line is executed as the instruction that its operands resolve to. -/
theorem Machine.step_of_placed {name : String} {operands : List Operand} {m : Machine}
    (h : assemble options source = .ok p)
    (hl : Layout.ofLines options (Text.lines source.toList) = .ok l)
    (hplaced : ⟨line, a, .instruction name operands⟩ ∈ l.placements)
    (hload : Machine.ofProgram p = .ok m₀) (hmemory : m.memory = m₀.memory)
    (hrunning : m.halted = false) (hpc : m.registers.pc = a)
    (ha : a.toNat + wordSize < memorySize) :
    ∃ mnemonic i, Mnemonic.ofName? name = some mnemonic ∧
      (Scope.mk p.symbols a).resolve name operands mnemonic = .ok i ∧
      m.step = (m.execute { m.registers with pc := a + 2 } i).map m.commit := by
  obtain ⟨_, chunks, hl', hemits, rfl⟩ := assemble_eq_ok_iff.1 h
  cases hl.symm.trans hl'
  obtain ⟨i, hi⟩ := List.getElem?_of_mem hplaced
  obtain ⟨_, _, hwords⟩ := hemits.getElem? hi
  obtain ⟨w, hw, rfl⟩ := Except.map_eq_ok_iff.1 hwords
  obtain ⟨mnemonic, i, hname, hresolve, hencode⟩ := Scope.instructionWord_eq_ok_iff.1 hw
  have hread := Machine.readWord_of_placed h hl hplaced hload hwords
  refine ⟨mnemonic, i, hname, hresolve, ?_⟩
  rw [← hpc, ← hmemory] at hread
  rw [step_of_decode? hrunning hread (Instruction.decode?_of_encode hencode) (hpc ▸ ha), hpc]

end Placed

/-- The address that is added up by the machine is the one of the label. -/
theorem Scope.offset_of_offset_label {s : Scope} {field : Field} {label : String} {n : Int}
    (h : s.offset field (.label label) = .ok n) (ha : s.address.toNat + wordSize < memorySize) :
    ∃ target, s.symbols.address? label = some target ∧
      (s.address + 2).offset (2 * n) = .ok target := by
  obtain ⟨target, htarget, hn⟩ := Scope.exists_target_of_offset h
  refine ⟨target, htarget, Word.offset_eq_ok_iff.2 ?_⟩
  rw [Word.toNat_add_two ha, ← hn, Nat.cast_add]

/-- In a program that has been loaded, a branch or call to a label goes to the address of the label,
and `LEA` puts it into a register, wherever they stand. A program is loaded if and only if it has
less than 2³² words, as it has if its source is shorter than that. -/
theorem Machine.step_reference {line : Nat} {a : Word} {name : String} {operands : List Operand}
    {label : String} (h : assemble options source = .ok p)
    (hl : Layout.ofLines options (Text.lines source.toList) = .ok l)
    (hplaced : ⟨line, a, .instruction name operands⟩ ∈ l.placements)
    (hlabel : .label label ∈ operands) (ha : a.toNat + 2 ≤ 0xFFFF) :
    (Text.utf8Size source.toList < 2 ^ 32 - 1 → p.words.length < 2 ^ 32) ∧
      ((∃ m₀, Machine.ofProgram p = .ok m₀) ↔ p.words.length < 2 ^ 32) ∧
      (p.words.length < 2 ^ 32 →
        ∀ before m : Machine, m.memory = (before.after (.load p)).memory →
        m.halted = false → m.registers.pc = a →
        (∀ condition : Condition, Mnemonic.ofName? name = some (.branch condition) →
          condition.intersects m.registers.condition = true →
          ∃ target m', p.symbols.address? label = some target ∧ m.step = .ok m' ∧
            m'.registers.pc = target) ∧
        (Mnemonic.ofName? name = some .call →
          ∃ target m', p.symbols.address? label = some target ∧ m.step = .ok m' ∧
            m'.registers.pc = target ∧ m'.registers.get 7 = a + 2) ∧
        (Mnemonic.ofName? name = some .loadAddress →
          ∃ dr target m', operands = [.register dr, .label label] ∧
            p.symbols.address? label = some target ∧ m.step = .ok m' ∧
            m'.registers.get dr = target)) := by
  have hnext : a.toNat + wordSize < memorySize := Nat.lt_succ_of_le ha
  refine ⟨fun hsource => length_words_lt hsource h, exists_ofProgram_iff h, ?_⟩
  intro hlt before m hmemory hrunning hpc
  have hload := Machine.ofProgram_of_lt h hlt before
  obtain ⟨mnemonic, i, hname, hresolve, hstep⟩ :=
    Machine.step_of_placed h hl hplaced hload hmemory hrunning hpc hnext
  let r : Registers := { m.registers with pc := a + 2 }
  refine ⟨fun condition hbranch htaken => ?_, fun hcall => ?_, fun hlea => ?_⟩
  · cases hname.symm.trans hbranch
    obtain ⟨operand, n, rfl, hoffset, rfl⟩ := Scope.resolve_branch_eq_ok_iff.1 hresolve
    cases List.mem_singleton.1 hlabel
    obtain ⟨target, htarget, hsum⟩ := Scope.offset_of_offset_label hoffset hnext
    refine ⟨target, m.commit (goTo r target), htarget, ?_, rfl⟩
    rw [hstep, execute, if_pos htaken, hsum]
    rfl
  · cases hname.symm.trans hcall
    obtain ⟨operand, n, rfl, hoffset, rfl⟩ := Scope.resolve_call_eq_ok_iff.1 hresolve
    cases List.mem_singleton.1 hlabel
    obtain ⟨target, htarget, hsum⟩ := Scope.offset_of_offset_label hoffset hnext
    refine ⟨target, m.commit (callTo r target), htarget, ?_, rfl, ?_⟩
    · rw [hstep, execute, hsum]
      rfl
    · rw [registers_commit]
      exact (Registers.get_set _ _ _ _).trans (if_pos rfl)
  · cases hname.symm.trans hlea
    obtain ⟨dr, operand, n, rfl, hoffset, rfl⟩ := Scope.resolve_loadAddress_eq_ok_iff.1 hresolve
    obtain rfl : operand = .label label := by simpa [eq_comm] using hlabel
    obtain ⟨target, htarget, hsum⟩ := Scope.offset_of_offset_label hoffset hnext
    refine ⟨dr, target, m.commit (result r dr target), rfl, htarget, ?_, ?_⟩
    · rw [hstep, execute, hsum]
      rfl
    · rw [registers_commit]
      exact (Registers.get_setResult _ _ _ _).trans (if_pos rfl)

/-- A source that refers to labels ahead and behind, to be placed at an odd address. -/
def Machine.referring : String := "top LEA R3, top\n BRz far\n JSR top\nfar HALT"

/-- The branch ahead goes to the address of its label, after a load into a machine that was used. -/
theorem Machine.step_reference_referring :
    ∃ (p : Program) (m' : Machine),
      assemble { defaultOrigin := 0x3001 } Machine.referring = .ok p ∧
        ((Machine.used.after (.load p)).setPc 0x3003).step = .ok m' ∧
        m'.registers.pc = 0x3007 := by
  let p : Program := ⟨0x3001, [0xE7FF, 0x0401, 0x4FFD, 0xF025], [("top", 0x3001), ("far", 0x3007)]⟩
  let l : Layout :=
    { origin := 0x3001, address := 0x3009, started := true, ended := false, symbols := p.symbols
      placements := [⟨1, 0x3001, .instruction "LEA" [.register 3, .label "top"]⟩,
        ⟨2, 0x3003, .instruction "BRz" [.label "far"]⟩,
        ⟨3, 0x3005, .instruction "JSR" [.label "top"]⟩, ⟨4, 0x3007, .instruction "HALT" []⟩] }
  have h : assemble { defaultOrigin := 0x3001 } Machine.referring = .ok p := by decide +kernel
  obtain ⟨hsize, _, hstep⟩ :=
    @Machine.step_reference { defaultOrigin := 0x3001 } Machine.referring p l 2 0x3003 "BRz"
      [.label "far"] "far" h (by decide +kernel) (by decide +kernel) (by decide) (by decide)
  have hlt := hsize (by decide +kernel)
  obtain ⟨_, hloaded⟩ := Machine.ofProgram_eq_ok_iff.1 (Machine.ofProgram_of_lt h hlt Machine.used)
  obtain ⟨hbranch, _, _⟩ := hstep hlt Machine.used
    ((Machine.used.after (.load p)).setPc 0x3003) rfl (by rw [hloaded]; rfl) rfl
  obtain ⟨target, m', htarget, hm', hpc⟩ :=
    hbranch ⟨false, true, false⟩ (by decide) (by rw [hloaded]; rfl)
  cases (show p.symbols.address? "far" = some 0x3007 by decide).symm.trans htarget
  exact ⟨p, m', h, hm', hpc⟩

/-! ## Strings that are too long to be counted -/

section Looping

variable {n : Nat}

/-- A source with a branch to itself, before a line that stores a string of as many characters. -/
def loopingSource (n : Nat) : String := "loop BR loop\n" ++ storingSource n

/-- What is laid out for that source if the string is not counted. -/
def loopingLayout (n : Nat) : Layout where
  origin := 0x3000
  address := 0x3004
  started := true
  ended := false
  symbols := [("loop", 0x3000)]
  placements := [⟨1, 0x3000, .instruction "BR" [.label "loop"]⟩, ⟨2, 0x3002, .string (repeated n)⟩]

/-- The program of that layout. -/
def loopingProgram (n : Nat) : Program :=
  ⟨0x3000, 0x0FFF :: (List.replicate n 0x61 ++ [0]), [("loop", 0x3000)]⟩

/-- The source has two lines. -/
theorem lines_loopingSource :
    Text.lines (loopingSource n).toList = ["loop BR loop".toList, storingLine n] := by
  have hsplit : (loopingSource n).toList =
      "loop BR loop".toList ++ '\n' :: (storingSource n).toList := String.toList_append
  have hline : ∀ c ∈ "loop BR loop".toList, Text.isLineEnd c = false := by
    simp [Text.isLineEnd]
  rw [hsplit, Text.lines_append_newline _ hline, lines_storingSource]

/-- The branch and the string are placed one after the other. -/
theorem ofLines_loopingSource (h : n % 2 ^ 32 = 0) :
    Layout.ofLines {} (Text.lines (loopingSource n).toList) = .ok (loopingLayout n) := by
  have hbranch : (Layout.initial {}).addText false 1 "loop BR loop".toList =
      .ok ⟨0x3000, 0x3002, true, false, [("loop", 0x3000)],
        [⟨1, 0x3000, .instruction "BR" [.label "loop"]⟩]⟩ := by
    decide +kernel
  rw [lines_loopingSource, Layout.ofLines, Layout.addTexts_cons rfl, hbranch, Except.ok_bind,
    Layout.addTexts_cons rfl, addText_storingLine (a := 0x3002) h 2 rfl (by decide)]
  rfl

/-- The branch is assembled with the distance to its label, which is one instruction back. -/
theorem assemble_loopingSource (h : n % 2 ^ 32 = 0) :
    assemble {} (loopingSource n) = .ok (loopingProgram n) := by
  have hbranch : (Scope.mk [("loop", 0x3000)] 0x3000).words (.instruction "BR" [.label "loop"]) =
      .ok [0x0FFF] := by
    decide +kernel
  refine assemble_eq_ok_iff.2 ⟨_, [[0x0FFF], _], ofLines_loopingSource h,
    .cons hbranch (.cons (words_repeated _) .nil), ?_⟩
  rw [List.flatten_cons, List.flatten_singleton]
  rfl

/-- There is one word more than those of the string. -/
theorem le_length_loopingProgram (h : n % 2 ^ 32 = 0) (hn : n ≠ 0) :
    2 ^ 32 ≤ (loopingProgram n).words.length :=
  Nat.le_succ_of_le (le_length_repeated h hn)

/-- Over zeros, the machine goes from one word to the next. -/
theorem Machine.step_of_zero {m : Machine} (hrunning : m.halted = false)
    (hmemory : m.memory = .zero) (hpc : m.registers.pc.toNat + wordSize < memorySize) :
    ∃ m', m.step = .ok m' ∧ m'.registers.pc = m.registers.pc + 2 := by
  have hread : m.memory.readWord m.registers.pc = .ok 0 := by
    rw [hmemory, Memory.readWord_of_lt (Nat.lt_of_succ_lt hpc), Memory.byte_zero,
      Memory.byte_zero]
    rfl
  refine ⟨m.commit (goTo { m.registers with pc := m.registers.pc + 2 } (m.registers.pc + 2)), ?_,
    rfl⟩
  rw [step_of_decode? (i := .branch ⟨false, false, false⟩ 0) hrunning hread (by decide) hpc,
    execute, if_neg (by simp [Condition.intersects])]
  rfl

/-- A string of 2³² characters keeps the branch before it from going to its label: the program is
not loaded, so the machine finds a zero in place of the branch. -/
theorem Machine.branch_misses_of_uncounted :
    ∃ (p : Program) (l : Layout) (m m' : Machine),
      assemble {} (loopingSource 4294967296) = .ok p ∧
        Layout.ofLines {} (Text.lines (loopingSource 4294967296).toList) = .ok l ∧
        ⟨1, 0x3000, .instruction "BR" [.label "loop"]⟩ ∈ l.placements ∧
        Mnemonic.ofName? "BR" = some (.branch .all) ∧
        p.symbols.address? "loop" = some 0x3000 ∧
        (∀ loaded, Machine.ofProgram p ≠ .ok loaded) ∧
        m = (Machine.initial.after (.load p)).setPc 0x3000 ∧
        Condition.all.intersects m.registers.condition = true ∧
        m.step = .ok m' ∧ m'.registers.pc = 0x3002 := by
  have hcount : 4294967296 % 2 ^ 32 = 0 := by norm_num
  have hassemble := assemble_loopingSource hcount
  have hlength := le_length_loopingProgram hcount (by norm_num)
  have hsame := Machine.after_load_of_le hassemble hlength Machine.initial
  obtain ⟨m', hstep, hpc⟩ :=
    Machine.step_of_zero (m := Machine.initial.setPc 0x3000) rfl rfl (by decide)
  refine ⟨_, _, _, m', hassemble, ofLines_loopingSource hcount, List.mem_cons_self, by decide, rfl,
    fun loaded hloaded => ?_, rfl, ?_, ?_, hpc⟩
  · exact Nat.not_lt.2 hlength ((exists_ofProgram_iff hassemble).1 ⟨loaded, hloaded⟩)
  · rw [hsame]
    rfl
  · rw [hsame]
    exact hstep

end Looping

end LittleComputer
