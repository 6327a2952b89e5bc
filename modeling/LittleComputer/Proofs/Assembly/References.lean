import LittleComputer.Proofs.Assembly.Emission
import LittleComputer.Proofs.Assembly.Resolve
import LittleComputer.Proofs.Instruction.Encoding
import LittleComputer.Proofs.Source.Reading
import Mathlib

/-!
# Operands that name a label

A label that is not a hexadecimal literal as well is a reference wherever it stands as an operand:
it is read as that label, and the word that is emitted leads to the address of the label.
-/

namespace LittleComputer.Assembly

open Source

/-! ## Items that refer -/

namespace Item

/-- The operands that an item is resolved with. -/
def operands : Item → List Operand
  | .instruction _ operands => operands
  | .fill value => [value]
  | .block _ | .string _ => []

/-- The items that can have a label as an operand. -/
def TakesLabel : Item → Prop
  | .instruction name _ =>
    (∃ condition, Mnemonic.ofName? name = some (.branch condition)) ∨
      Mnemonic.ofName? name = some .call ∨ Mnemonic.ofName? name = some .loadAddress
  | .fill _ => True
  | .block _ | .string _ => False

/-- Whether the word of an item at an address refers to a target. An instruction has the distance
from the next instruction in words. -/
inductive RefersTo (target a w : Word) : Item → Prop
  | branch {name : String} {operands : List Operand} {condition : Condition} {n : Int}
    (hname : Mnemonic.ofName? name = some (.branch condition))
    (hword : Instruction.decode? w = some (.branch condition n))
    (htarget : (a.toNat : Int) + wordSize + 2 * n = target.toNat) :
    RefersTo target a w (.instruction name operands)
  | call {name : String} {operands : List Operand} {n : Int}
    (hname : Mnemonic.ofName? name = some .call)
    (hword : Instruction.decode? w = some (.call n))
    (htarget : (a.toNat : Int) + wordSize + 2 * n = target.toNat) :
    RefersTo target a w (.instruction name operands)
  | loadAddress {name : String} {operands : List Operand} {dr : Register} {n : Int}
    (hname : Mnemonic.ofName? name = some .loadAddress)
    (hword : Instruction.decode? w = some (.loadAddress dr n))
    (htarget : (a.toNat : Int) + wordSize + 2 * n = target.toNat) :
    RefersTo target a w (.instruction name operands)
  | fill {value : Operand} (hword : w = target) : RefersTo target a w (.fill value)

end Item

/-- An item that can refer to a label has the operands of its line. -/
theorem ItemOf.operands_eq {content : Content} {item : Item} (h : ItemOf content item)
    (hitem : item.TakesLabel) : item.operands = content.operands := by
  cases h with
  | instruction => rfl
  | fill => rfl
  | block | string => exact hitem.elim

namespace Scope

variable {s : Scope} {label : String}

/-- Where a label is resolved, the word of the item refers to the address of the label. -/
theorem refersTo_of_words {item : Item} {ws : List Word} (hitem : item.TakesLabel)
    (hlabel : .label label ∈ item.operands) (h : s.words item = .ok ws) :
    ∃ target w, s.symbols.address? label = some target ∧ ws = [w] ∧
      item.RefersTo target s.address w := by
  cases item with
  | instruction name operands =>
    obtain ⟨w, hw, rfl⟩ := Except.map_eq_ok_iff.1 h
    obtain ⟨mnemonic, i, hname, hresolve, hencode⟩ := instructionWord_eq_ok_iff.1 hw
    have hdecode := Instruction.decode?_of_encode hencode
    rcases hitem with ⟨condition, hbranch⟩ | hcall | hlea
    · cases hname.symm.trans hbranch
      obtain ⟨operand, n, rfl, hoffset, rfl⟩ := resolve_branch_eq_ok_iff.1 hresolve
      cases List.mem_singleton.1 hlabel
      obtain ⟨target, htarget, hsum⟩ := exists_target_of_offset hoffset
      exact ⟨target, w, htarget, rfl, .branch hname hdecode hsum⟩
    · cases hname.symm.trans hcall
      obtain ⟨operand, n, rfl, hoffset, rfl⟩ := resolve_call_eq_ok_iff.1 hresolve
      cases List.mem_singleton.1 hlabel
      obtain ⟨target, htarget, hsum⟩ := exists_target_of_offset hoffset
      exact ⟨target, w, htarget, rfl, .call hname hdecode hsum⟩
    · cases hname.symm.trans hlea
      obtain ⟨dr, operand, n, rfl, hoffset, rfl⟩ := resolve_loadAddress_eq_ok_iff.1 hresolve
      obtain rfl : operand = .label label := by simpa [Item.operands, eq_comm] using hlabel
      obtain ⟨target, htarget, hsum⟩ := exists_target_of_offset hoffset
      exact ⟨target, w, htarget, rfl, .loadAddress hname hdecode hsum⟩
  | fill value =>
    obtain ⟨w, hw, rfl⟩ := Except.map_eq_ok_iff.1 h
    cases List.mem_singleton.1 hlabel
    exact ⟨w, w, labelAddress_eq_ok_iff.1 hw, rfl, .fill rfl⟩
  | block | string => exact hitem.elim

end Scope

/-! ## Labels of a source -/

variable {options : Options} {source label : String} {text t r : List Char} {operand : Operand}

/-- What defines a label is the name of one. -/
theorem isLabelName_of_labelOf? (h : labelOf? text = some label) : isLabelName label = true := by
  obtain ⟨line, hparse, hlabel⟩ := exists_parse_of_labelOf? h
  exact Line.isLabelName_of_parse hparse hlabel

/-- The operands of a line are what its words are read as. -/
theorem map_snd_readings_of_contentOf? {content : Content} (h : contentOf? text = some content) :
    (Line.readings text).map Prod.snd = content.operands := by
  obtain ⟨line, hparse, hcontent⟩ := exists_parse_of_contentOf? h
  exact Line.map_snd_readings hparse hcontent

/-- What a label is read as where it stands as an operand. -/
theorem operand_of_mem_readings (hname : isLabelName label = true)
    (h : (t, operand) ∈ Line.readings text) (hword : word t = some (label, r)) :
    operand = .ofWord label := by
  obtain ⟨q, hscan⟩ := scan_of_mem_readings h
  cases (scan_of_word hword hname).symm.trans hscan
  rfl

/-- The line that an item comes from is the one with its number. -/
theorem ComesFrom.content_of_line {read texts : List (List Char)} {p : Placement}
    (h : ComesFrom read p) (hread : read <+: texts) (htext : texts[p.line - 1]? = some text) :
    ∃ content, contentOf? text = some content ∧ ItemOf content p.item := by
  obtain ⟨i, text', content, hline, htext', hcontent, hitem⟩ := h
  obtain ⟨rest, rfl⟩ := hread
  have hlt := (List.getElem?_eq_some_iff.1 htext').1
  rw [hline, Nat.add_sub_cancel, List.getElem?_append_left hlt, htext'] at htext
  cases htext
  exact ⟨content, hcontent, hitem⟩

/-- Wherever a label of a source stands as an operand, it is read as a number if it is a hexadecimal
literal, and as that label if not. Then the word that is emitted for the operand refers to the
address of the label. -/
theorem label_operand (hlabel : ∃ text ∈ Text.lines source.toList, labelOf? text = some label) :
    (∀ text ∈ Text.lines source.toList, ∀ content, contentOf? text = some content →
      (Line.readings text).map Prod.snd = content.operands ∧
      ∀ t r operand, (t, operand) ∈ Line.readings text → word t = some (label, r) →
        operand =
          match hexLiteral? label with
          | some n => .number n
          | none => .label label) ∧
    (hexLiteral? label = none → ∀ p, assemble options source = .ok p →
      ∃ (l : Layout) (chunks : List (List Word)),
        Layout.ofLines options (Text.lines source.toList) = .ok l ∧
        p.words = chunks.flatten ∧ chunks.length = l.placements.length ∧
        ∀ (i : Nat) (placement : Placement) text, l.placements[i]? = some placement →
          (Text.lines source.toList)[placement.line - 1]? = some text →
          ∀ t r operand, (t, operand) ∈ Line.readings text → word t = some (label, r) →
            placement.item.TakesLabel →
            ∃ target w, p.symbols.address? label = some target ∧ chunks[i]? = some [w] ∧
              placement.item.RefersTo target placement.address w) := by
  obtain ⟨defining, _, hdefining⟩ := hlabel
  have hname := isLabelName_of_labelOf? hdefining
  constructor
  · intro text _ content hcontent
    refine ⟨map_snd_readings_of_contentOf? hcontent, ?_⟩
    intro t r operand hreading hword
    exact operand_of_mem_readings hname hreading hword
  · intro hliteral p hp
    obtain ⟨l, chunks, hl, hemits, rfl⟩ := assemble_eq_ok_iff.1 hp
    obtain ⟨read, hread, hconsistent⟩ := Layout.consistent_of_ofLines hl
    refine ⟨l, chunks, hl, rfl, hemits.length_eq.symm, ?_⟩
    intro i placement text hplacement htext t r operand hreading hword hitem
    have hplaced := hconsistent.placed placement (List.mem_of_getElem? hplacement)
    obtain ⟨content, hcontent, hof⟩ := hplaced.content_of_line hread htext
    have hoperand : operand = .label label := by
      rw [operand_of_mem_readings hname hreading hword, Operand.ofWord, hliteral]
    have hmem : .label label ∈ placement.item.operands := by
      rw [hof.operands_eq hitem, ← map_snd_readings_of_contentOf? hcontent]
      exact List.mem_map.2 ⟨(t, operand), hreading, hoperand⟩
    obtain ⟨chunk, hchunk, hwords⟩ := hemits.getElem? hplacement
    obtain ⟨target, w, htarget, rfl, hrefers⟩ := Scope.refersTo_of_words hitem hmem hwords
    exact ⟨target, w, htarget, hchunk, hrefers⟩

/-- A source that refers to its label in a branch and in data. -/
def looping : String := "loop BRp loop\n.FILL loop"

/-- The branch and the data both refer to the label of their source. -/
theorem label_operand_looping :
    (∃ text ∈ Text.lines looping.toList, labelOf? text = some "loop") ∧
      ∃ w, Item.RefersTo 0x3000 0x3000 w (.instruction "BRp" [.label "loop"]) := by
  have hlabel : ∃ text ∈ Text.lines looping.toList, labelOf? text = some "loop" :=
    ⟨"loop BRp loop".toList, by decide +kernel, by decide +kernel⟩
  let p : Program := ⟨0x3000, [0x03FF, 0x3000], [("loop", 0x3000)]⟩
  let l : Layout :=
    { origin := 0x3000, address := 0x3004, started := true, ended := false, symbols := p.symbols
      placements := [⟨1, 0x3000, .instruction "BRp" [.label "loop"]⟩,
        ⟨2, 0x3002, .fill (.label "loop")⟩] }
  obtain ⟨_, hresolved⟩ := @label_operand {} looping "loop" hlabel
  obtain ⟨l', chunks, hl, _, _, hrefers⟩ := hresolved (by decide +kernel) p (by decide +kernel)
  obtain rfl : l' = l := by
    have : Layout.ofLines {} (Text.lines looping.toList) = .ok l := by decide +kernel
    exact Except.ok.inj (hl.symm.trans this)
  obtain ⟨target, w, htarget, _, hw⟩ := hrefers 0 _ "loop BRp loop".toList rfl (by decide +kernel)
    "loop".toList [] (.label "loop") (by decide +kernel) (by decide +kernel)
    (Or.inl ⟨⟨false, false, true⟩, by decide +kernel⟩)
  cases htarget
  exact ⟨hlabel, w, hw⟩

/-- The label of a line can be a number where it stands as an operand of the same line. -/
theorem label_read_as_number :
    labelOf? "x1 BRp x1".toList = some "x1" ∧
      contentOf? "x1 BRp x1".toList = some (.instruction "BRp" [.number 1]) ∧
      assemble {} "x1 BRp x1" = .ok ⟨0x3000, [0x0201], [("x1", 0x3000)]⟩ ∧
      Instruction.decode? 0x0201 = some (.branch ⟨false, false, true⟩ 1) := by
  decide +kernel

end LittleComputer.Assembly
