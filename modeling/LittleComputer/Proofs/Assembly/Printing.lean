import LittleComputer.Proofs.Assembly.Relisting
import LittleComputer.Proofs.Machine.Run
import LittleComputer.Proofs.Machine.Strings
import LittleComputer.Proofs.Source.Rendering
import Mathlib

/-!
# A string from source to console

The program that writes a string and halts, for any string. Between the quotes of the source and the
console the string is escaped, read, measured, stored one character a word, addressed by an offset,
loaded, and gone through by a routine, and what arrives is the string up to its first zero.
-/

namespace LittleComputer

namespace Assembly

open Source

variable {text : String} {options : Options} {origin a : Word} {head : List (List Char)}

/-! ## The source -/

/-- Ways to set the address of a program: by its first line, or else by the options. -/
inductive Heads (options : Options) (origin : Word) : List (List Char) → Prop
  | line {digits : String} (hne : digits ≠ "")
    (hdigits : ∀ c ∈ digits.toList, Text.Hex.isDigit c = true)
    (hvalue : Text.Hex.ofDigits digits.toList = origin.toNat) (heven : origin.toNat % 2 = 0) :
    Heads options origin [originLine digits]
  | default (horigin : options.defaultOrigin = origin) (hrequire : options.requireOrigin = false) :
    Heads options origin []

/-- The first line, if it sets the address, is one line. -/
theorem Heads.onLine (h : Heads options origin head) :
    ∀ line ∈ head, ∀ c ∈ line, Text.isLineEnd c = false := by
  cases h with
  | line hne hdigits hvalue heven =>
    rintro _ hline
    obtain rfl := List.mem_singleton.1 hline
    exact onLine_dot_append_operandText (isWord_directive .orig)
      (.cons (spells_origin hne hdigits hvalue) .nil)
  | default => exact List.forall_mem_nil _

/-- The lines before a program do no more than set its address. -/
theorem Heads.exists_layout (h : Heads options origin head) :
    ∃ l : Layout, (l.started = true ∨ options.requireOrigin = false) ∧ l.ended = false ∧
      l.origin = origin ∧ l.address = origin.toNat ∧ l.symbols = [] ∧ l.placements = [] ∧
      ∀ texts, Layout.addTexts options.requireOrigin 1 (head ++ texts) (.initial options) =
        Layout.addTexts options.requireOrigin (head.length + 1) texts l := by
  cases h with
  | line hne hdigits hvalue heven =>
    let l : Layout :=
      { Layout.initial options with origin, address := origin.toNat, started := true }
    have horigin : (Layout.initial options).addText options.requireOrigin 1 (originLine _) =
        .ok l := Layout.addText_of_orig _ _ (parse_originLine hne hdigits hvalue) rfl heven
    refine ⟨l, Or.inl rfl, rfl, rfl, rfl, rfl, rfl, fun texts => ?_⟩
    rw [List.singleton_append, Layout.addTexts_cons rfl, horigin]
    rfl
  | default horigin hrequire =>
    subst horigin
    exact ⟨.initial options, Or.inr hrequire, rfl, rfl, rfl, rfl, rfl, fun texts => rfl⟩

/-- The operands of the instruction that puts the address of the string into `R0`. -/
def loadingOperands : List Operand := [.register .io, .label "MSG"]

def loading : Content := .instruction "LEA" loadingOperands

/-- The instruction that calls a routine. -/
def calling (routine : Service) : Content := .instruction routine.name []

/-- The directive that stores the string. -/
def storing (text : String) : Content := .directive "STRINGZ" [.string text]

/-- The line with the string, which has a label. -/
def messageLine (text : String) : List Char := "MSG".toList ++ ' ' :: (storing text).render

/-- The lines of the program that writes a string and halts. -/
def printingLines (text : String) : List (List Char) :=
  loading.render :: ([(calling .puts).render, (calling .halt).render] ++ [messageLine text])

/-- The first instruction can be written in a source. -/
theorem spellable_loading : loading.Spellable := by
  refine ⟨isWord_mnemonic .loadAddress, by decide, ?_⟩
  rw [loadingOperands, List.forall_mem_cons, List.forall_mem_singleton]
  exact ⟨trivial, by decide +kernel, by decide +kernel, by decide +kernel⟩

/-- The call of any routine can be written in a source. -/
theorem spellable_calling (routine : Service) : (calling routine).Spellable := by
  refine ⟨isWord_mnemonic (.service routine), ?_, List.forall_mem_nil _⟩
  cases routine <;> rfl

/-- Every string can be written in a source. -/
theorem spellable_storing (text : String) : (storing text).Spellable :=
  ⟨isWord_directive .string, List.forall_mem_singleton.2 trivial⟩

/-- The label of the string is a word. -/
theorem isWord_message : IsWord "MSG".toList := by decide +kernel

/-- The line with the string is read as its label and its directive. -/
theorem parse_messageLine (text : String) :
    Line.parse (messageLine text) = .ok ⟨some "MSG", some (storing text), none⟩ :=
  (spellable_storing text).parse_labelled isWord_message (by decide +kernel)

/-- Whatever the string, each of the lines is one line. -/
theorem onLine_printingLines (text : String) :
    ∀ line ∈ printingLines text, ∀ c ∈ line, Text.isLineEnd c = false := by
  have hmessage : ∀ c ∈ messageLine text, Text.isLineEnd c = false := by
    rw [messageLine, List.forall_mem_append, List.forall_mem_cons]
    exact ⟨isWord_message.onLine, rfl, (spellable_storing text).onLine⟩
  rw [printingLines, List.forall_mem_cons, List.forall_mem_append, List.forall_mem_cons,
    List.forall_mem_singleton, List.forall_mem_singleton]
  exact ⟨spellable_loading.onLine,
    ⟨(spellable_calling .puts).onLine, (spellable_calling .halt).onLine⟩, hmessage⟩

/-! ## The program -/

/-- The words of a string, with the zero after them. -/
def stringWords (text : String) : List Word :=
  text.toList.map (fun c => BitVec.ofNat 16 c.toNat) ++ [0]

/-- The call of a routine is one word. -/
theorem stores_calling {routine : Service} {w : Word}
    (h : (Instruction.trap routine.vector).encode = .ok w) : Stores (calling routine).render w :=
  ⟨(spellable_calling routine).onLine, _, _, (spellable_calling routine).parse_render,
    .instruction _ _, rfl, fun s => congrArg (Except.map _) (Scope.instructionWord_eq_ok_iff.2
      ⟨.service routine, _, Mnemonic.ofName?_name (by simp), rfl, h⟩)⟩

/-- The string begins two words after the instruction that follows `LEA`. -/
theorem words_loading (hroom : a.toNat + 6 < memorySize) :
    (Scope.mk [("MSG", a + 6)] a).words (.instruction "LEA" loadingOperands) = .ok [0xE002] := by
  have hdistance : (Scope.mk [("MSG", a + 6)] a).distance .pcOffset9 "MSG" = .ok 2 := by
    refine Scope.distance_eq_ok_iff.2 ⟨a + 6, rfl, ?_⟩
    show (a.toNat : Int) + 2 + 2 * 2 = (a + 6).toNat
    rw [BitVec.toNat_add_of_lt hroom]
    rfl
  have hresolve : (Scope.mk [("MSG", a + 6)] a).resolve "LEA" loadingOperands .loadAddress =
      .ok (.loadAddress .io 2) := Scope.resolve_loadAddress_eq_ok_iff.2
    ⟨.io, .label "MSG", 2, rfl, Scope.offset_label_eq_ok_iff.2 ⟨hdistance, by decide⟩, rfl⟩
  have hword := Scope.instructionWord_eq_ok_iff.2
    ⟨.loadAddress, _, Mnemonic.ofName?_name (by simp), hresolve, rfl⟩
  exact congrArg (Except.map _) hword

section Lines

variable {l : Layout} {requireOrigin : Bool} (number : Nat)

/-- The first instruction takes one word. -/
theorem addText_loading (hbegun : l.started = true ∨ requireOrigin = false)
    (ha : l.address = a.toNat) (hfits : a.toNat + 2 ≤ memorySize) :
    l.addText requireOrigin number loading.render = .ok { l with
      started := true
      address := a.toNat + 2
      placements := l.placements ++ [⟨number, a, .instruction "LEA" loadingOperands⟩] } := by
  have hnext : l.address + wordSize * (Item.instruction "LEA" loadingOperands).size =
      a.toNat + 2 := congrArg (· + 2) ha
  rw [Layout.addText_of_item spellable_loading.parse_render (.instruction _ _) hbegun nofun ha
    (hnext ▸ hfits), hnext]
  simp

/-- The string takes a word for each character and one more, from its label on. -/
theorem addText_messageLine (hstarted : l.started = true) (hsymbols : l.symbols = [])
    (ha : l.address = a.toNat) (hascii : isAscii text = true)
    (hfits : a.toNat + 2 * (text.length + 1) ≤ memorySize) :
    l.addText requireOrigin number (messageLine text) = .ok { l with
      address := a.toNat + 2 * (text.length + 1)
      symbols := [("MSG", a)]
      placements := l.placements ++ [⟨number, a, .string text⟩] } := by
  have hsize : (Item.string text).size = text.length + 1 := by
    refine Item.size_string hascii ?_
    unfold memorySize at hfits
    omega
  have hnext : l.address + wordSize * (Item.string text).size =
      a.toNat + 2 * (text.length + 1) := by
    rw [ha, hsize]
    rfl
  have hfresh : ∀ name ∈ some "MSG", l.symbols.address? name = none := by
    intro name _
    rw [hsymbols]
    rfl
  rw [Layout.addText_of_item (parse_messageLine text) (.string (by decide) hascii) (Or.inl hstarted)
    hfresh ha (hnext ▸ hfits), hnext, hsymbols, ← hstarted]
  rfl

/-- The program that writes a string takes one word for each instruction and for each character, and
one more. -/
theorem exists_addTexts_printingLines (hbegun : l.started = true ∨ requireOrigin = false)
    (hended : l.ended = false) (hsymbols : l.symbols = []) (ha : l.address = a.toNat)
    (hascii : isAscii text = true) (hfits : a.toNat + 2 * (text.length + 4) ≤ memorySize) :
    ∃ ps, Emits [("MSG", a + 6)] ps [[0xE002], [0xF022], [0xF025], stringWords text] ∧
      Layout.addTexts requireOrigin number (printingLines text) l = .ok { l with
        started := true
        address := a.toNat + 2 * (text.length + 4)
        symbols := [("MSG", a + 6)]
        placements := l.placements ++ ps } := by
  have hroom : a.toNat + 6 < memorySize := by
    unfold memorySize at hfits ⊢
    omega
  have ha₂ : (a + 6).toNat = a.toNat + 6 := BitVec.toNat_add_of_lt hroom
  let load : Placement := ⟨number, a, .instruction "LEA" loadingOperands⟩
  let l₁ : Layout :=
    { l with
      started := true
      address := a.toNat + 2
      placements := l.placements ++ [load] }
  have hload : l.addText requireOrigin number loading.render = .ok l₁ :=
    addText_loading number hbegun ha (by omega)
  have hstores : List.Forall₂ Stores [(calling .puts).render, (calling .halt).render]
      [0xF022, 0xF025] := .cons (stores_calling rfl) (.cons (stores_calling rfl) .nil)
  obtain ⟨ps, hemits, hcalls⟩ := Layout.addTexts_of_stores requireOrigin (number + 1) hstores
    (l := l₁) rfl hended (Nat.le_of_lt hroom)
  let l₂ : Layout := { l₁ with address := a.toNat + 6, placements := l₁.placements ++ ps }
  have hcalls : Layout.addTexts requireOrigin (number + 1)
      [(calling .puts).render, (calling .halt).render] l₁ = .ok l₂ := hcalls
  let l₃ : Layout :=
    { l₂ with
      address := a.toNat + 2 * (text.length + 4)
      symbols := [("MSG", a + 6)]
      placements := l₂.placements ++ [⟨number + 3, a + 6, .string text⟩] }
  have hend : (a + 6).toNat + 2 * (text.length + 1) = a.toNat + 2 * (text.length + 4) := by omega
  have hstring : l₂.addText requireOrigin (number + 3) (messageLine text) = .ok l₃ := by
    rw [addText_messageLine (l := l₂) (number + 3) rfl hsymbols ha₂.symm hascii (hend ▸ hfits),
      hend]
  refine ⟨load :: (ps ++ [⟨number + 3, a + 6, .string text⟩]), ?_, ?_⟩
  · exact .cons (words_loading hroom) (List.rel_append (hemits _) (.cons rfl .nil))
  · rw [printingLines, Layout.addTexts_cons hended, hload, Except.ok_bind, Layout.addTexts_append,
      hcalls, Except.bind, List.length_cons, List.length_singleton, Nat.add_assoc,
      Layout.addTexts_cons (l := l₂) hended, hstring, Except.ok_bind, Layout.addTexts]
    simp only [l₃, l₂, l₁, List.append_assoc, List.cons_append, List.nil_append]

end Lines

/-- The program that writes a string, assembled. -/
theorem assemble_printingLines (h : Heads options origin head) (hascii : isAscii text = true)
    (hfits : origin.toNat + 2 * (text.length + 4) ≤ memorySize) :
    assemble options (sourceOf (head ++ printingLines text)) =
      .ok ⟨origin, 0xE002 :: 0xF022 :: 0xF025 :: stringWords text, [("MSG", origin + 6)]⟩ := by
  have honLine : ∀ line ∈ head ++ printingLines text, ∀ c ∈ line, Text.isLineEnd c = false :=
    List.forall_mem_append.2 ⟨h.onLine, onLine_printingLines text⟩
  obtain ⟨l, hbegun, hended, horigin, ha, hsymbols, hplacements, hhead⟩ := h.exists_layout
  obtain ⟨ps, hemits, hlines⟩ := exists_addTexts_printingLines (head.length + 1) hbegun hended
    hsymbols ha hascii hfits
  rw [horigin, hplacements, List.nil_append] at hlines
  let l' : Layout :=
    { l with
      origin
      started := true
      address := origin.toNat + 2 * (text.length + 4)
      symbols := [("MSG", origin + 6)]
      placements := ps }
  have hl : Layout.ofLines options (head ++ printingLines text) = .ok l' := by
    rw [Layout.ofLines, hhead, hlines]
    rfl
  rw [← lines_sourceOf honLine] at hl
  exact assemble_eq_ok_iff.2 ⟨l', _, hl, hemits, by simp [l']⟩

end Assembly

/-! ## The run -/

namespace Machine

variable {m : Machine} {ws : List Word}

/-- `LEA` puts the address two words after the next instruction into `R0`. -/
theorem exists_step_load (hrunning : m.halted = false)
    (hfetch : m.memory.readWord m.registers.pc = .ok 0xE002)
    (hroom : m.registers.pc.toNat + 6 < memorySize) :
    ∃ m', m.step = .ok m' ∧ m'.halted = false ∧ m'.memory = m.memory ∧ m'.console = m.console ∧
      m'.registers.pc = m.registers.pc + 2 ∧
      m'.registers.get .io = m.registers.pc + 2 + 2 + 2 := by
  let r : Registers := { m.registers with pc := m.registers.pc + 2 }
  have hpc : m.registers.pc.toNat + wordSize < memorySize := by
    unfold wordSize
    omega
  have haddress : r.pc.offset (2 * 2) = .ok (m.registers.pc + 6) := by
    rw [Word.offset_eq_ok_iff, Word.toNat_add_two hpc, BitVec.toNat_add_of_lt hroom]
    rfl
  have hload : m.execute r (.loadAddress .io 2) = .ok (result r .io (m.registers.pc + 6)) := by
    rw [execute, haddress]
    rfl
  refine ⟨m.commit (result r .io (m.registers.pc + 6)), ?_, (Bool.or_false _).trans hrunning, rfl,
    String.append_empty, rfl, ?_⟩
  · rw [step_of_decode? (i := .loadAddress .io 2) hrunning hfetch rfl hpc, hload]
    rfl
  · rw [BitVec.add_assoc, BitVec.add_assoc]
    exact Registers.get_setResult _ _ _ _

/-- Three instructions write the string that stands after them, and halt. -/
theorem exists_run_printing (hrunning : m.halted = false)
    (h : m.memory.Holds m.registers.pc (0xE002 :: 0xF022 :: 0xF025 :: (ws ++ [0]))) :
    ∃ m', m.run 3 = (m', .ok 3) ∧ m'.halted = true ∧
      m'.console = m.console ++ Byte.string ((ws.takeWhile (· ≠ 0)).map Word.low) := by
  have hne : ws ++ [0] ≠ [] := List.append_ne_nil_of_right_ne_nil _ (List.cons_ne_nil _ _)
  have hcalls := h.tail (List.cons_ne_nil _ _)
  have hhalt := hcalls.tail (List.cons_ne_nil _ _)
  have hroom : m.registers.pc.toNat + 6 < memorySize := by
    have hfits := h.fits
    simp only [List.length_cons, List.length_append, wordSize] at hfits
    omega
  obtain ⟨m₁, hload, hrunning₁, hmemory₁, hconsole₁, hpc₁, hio⟩ :=
    exists_step_load hrunning h.head hroom
  rw [← hmemory₁, ← hpc₁] at hcalls hhalt
  obtain ⟨m₂, hputs, hrunning₂, hmemory₂, hpc₂, hconsole₂⟩ := exists_step_puts hrunning₁ hcalls.head
    (hcalls.lt (List.cons_ne_nil _ _)) (by rw [hio, ← hpc₁]; exact hhalt.tail hne)
  rw [← hmemory₂, ← hpc₂] at hhalt
  obtain ⟨m₃, hend, hhalted, hconsole₃⟩ := exists_step_halt hrunning₂ hhalt.head (hhalt.lt hne)
  refine ⟨m₃, ?_, hhalted, ?_⟩
  · rw [run_of_step hload, run_of_step hputs, run_of_step hend]
    rfl
  · rw [hconsole₃, hconsole₂, hconsole₁]

end Machine

/-! ## From source to console -/

namespace Assembly

open Source

variable {text : String} {options : Options} {origin : Word} {head : List (List Char)}

/-- An ASCII character comes back from its word, and only the zero is stored as a zero. -/
theorem char_low_of_ascii {c : Char} (h : c.toNat < 128) :
    Byte.char (Word.low (BitVec.ofNat 16 c.toNat)) = c := by
  have hbyte : (Word.low (BitVec.ofNat 16 c.toNat)).toNat = c.toNat := by
    rw [Word.toNat_low, BitVec.toNat_ofNat]
    omega
  rw [Byte.char, hbyte, Char.ofNat_toNat]

/-- The word of a character is zero for the character that ends a string, and for no other. -/
theorem ofNat_eq_zero_iff_of_ascii {c : Char} (h : c.toNat < 128) :
    BitVec.ofNat 16 c.toNat = 0 ↔ c = '\x00' := by
  constructor
  · intro hzero
    have hchar := char_low_of_ascii h
    rw [hzero] at hchar
    exact hchar.symm
  · rintro rfl
    rfl

/-- What a routine reads of the words of ASCII characters. -/
theorem chars_takeWhile {s : List Char} (h : ∀ c ∈ s, c.toNat < 128) :
    (((s.map fun c => BitVec.ofNat 16 c.toNat).takeWhile (· ≠ 0)).map Word.low).map Byte.char =
      s.takeWhile (· ≠ '\x00') := by
  induction s with
  | nil => rfl
  | cons c s ih =>
    obtain ⟨hc, hs⟩ := List.forall_mem_cons.1 h
    have hzero := ofNat_eq_zero_iff_of_ascii hc
    by_cases hnul : c = '\x00'
    · rw [List.map_cons, List.takeWhile_cons_of_neg (by simpa using hzero.2 hnul),
        List.takeWhile_cons_of_neg (by simpa using hnul)]
      rfl
    · rw [List.map_cons, List.takeWhile_cons_of_pos (by simpa using mt hzero.1 hnul),
        List.takeWhile_cons_of_pos (by simpa using hnul), List.map_cons, List.map_cons,
        char_low_of_ascii hc, ih hs]

/-- A string of ASCII characters, written between quotes with its escapes, is what the program that
writes it leaves on the console after three instructions, up to the first zero in it. -/
theorem console_run_printingLines (hhead : Heads options origin head) (hascii : isAscii text = true)
    (hfits : origin.toNat + 2 * (text.length + 4) ≤ 0x10000) :
    ∃ p m m', assemble options (sourceOf (head ++ printingLines text)) = .ok p ∧
      p.origin = origin ∧ Machine.ofProgram p = .ok m ∧ m.run 3 = (m', .ok 3) ∧
      m'.halted = true ∧ m'.console = String.ofList (text.toList.takeWhile (· ≠ '\x00')) := by
  let p : Program :=
    ⟨origin, 0xE002 :: 0xF022 :: 0xF025 :: stringWords text, [("MSG", origin + 6)]⟩
  let m : Machine :=
    { Machine.initial with
      registers := { Registers.initial with pc := origin }
      memory := Memory.zero.setWords origin p.words }
  have hassemble := assemble_printingLines hhead hascii hfits
  have hlength : p.words.length = text.length + 4 := by
    simp [p, stringWords, String.length_toList]
  have hroom : origin.toNat + wordSize * p.words.length ≤ memorySize := by
    rw [hlength]
    exact hfits
  have hload : Machine.ofProgram p = .ok m := Machine.ofProgram_eq_ok_iff.2 ⟨hroom, rfl⟩
  obtain ⟨m', hrun, hhalted, hconsole⟩ :=
    Machine.exists_run_printing (m := m) rfl (Memory.holds_setWords hroom)
  refine ⟨p, m, m', hassemble, rfl, hload, hrun, hhalted, ?_⟩
  have hchars : ∀ c ∈ text.toList, c.toNat < 128 := fun c hc =>
    of_decide_eq_true (List.all_eq_true.1 hascii c hc)
  rw [hconsole, Byte.string, chars_takeWhile hchars]
  exact String.empty_append

/-- A string with each kind of character that is escaped or ends something. -/
def quotation : String := "\"\\\t\r\n;\x00\""

/-- The last word of the string is the last of memory. -/
theorem console_run_printingLines_quotation :
    sourceOf ([originLine "fFe8"] ++ printingLines quotation) =
        ".ORIG xfFe8\nLEA R0, MSG\nPUTS\nHALT\nMSG .STRINGZ \"\\\"\\\\\\t\\r\\n;\\0\\\"\"\n" ∧
      Heads { requireOrigin := true } 0xFFE8 [originLine "fFe8"] ∧ isAscii quotation = true ∧
      (0xFFE8#16).toNat + 2 * (quotation.length + 4) = 0x10000 ∧
      ∃ p m m', assemble { requireOrigin := true }
          (sourceOf ([originLine "fFe8"] ++ printingLines quotation)) = .ok p ∧
        Machine.ofProgram p = .ok m ∧ m.run 3 = (m', .ok 3) ∧ m'.halted = true ∧
        m'.console = "\"\\\t\r\n;" := by
  have hhead : Heads { requireOrigin := true } 0xFFE8 [originLine "fFe8"] :=
    .line (by decide) (List.all_eq_true.1 (by decide)) (by decide) (by decide)
  have hascii : isAscii quotation = true := by decide +kernel
  have hfits : (0xFFE8#16).toNat + 2 * (quotation.length + 4) = 0x10000 := by decide +kernel
  obtain ⟨p, m, m', hassemble, _, hload, hrun, hhalted, hconsole⟩ :=
    console_run_printingLines hhead hascii (Nat.le_of_eq hfits)
  have hwritten : String.ofList (quotation.toList.takeWhile (· ≠ '\x00')) = "\"\\\t\r\n;" := by
    decide +kernel
  exact ⟨by decide +kernel, hhead, hascii, hfits, p, m, m', hassemble, hload, hrun, hhalted,
    hconsole.trans hwritten⟩

end Assembly

end LittleComputer
