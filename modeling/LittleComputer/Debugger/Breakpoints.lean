import LittleComputer.Word

/-!
# Breakpoints

A set of addresses, kept in ascending order: `sorted_insert` and `sorted_remove`.
-/

namespace LittleComputer.Debugger

/-- Addresses in ascending order. -/
abbrev Breakpoints := List Word

namespace Breakpoints

/-- Add an address, if it is not there. -/
def insert (a : Word) : Breakpoints → Breakpoints
  | [] => [a]
  | b :: bs =>
    if a.toNat < b.toNat then a :: b :: bs
    else if a = b then b :: bs
    else b :: insert a bs

/-- Take out an address. -/
def remove (a : Word) (bs : Breakpoints) : Breakpoints := List.filter (· != a) bs

/-- To insert an address adds that one. -/
@[simp] theorem mem_insert {a b : Word} {bs : Breakpoints} : b ∈ insert a bs ↔ b = a ∨ b ∈ bs := by
  induction bs with
  | nil => simp [insert]
  | cons c cs ih =>
    unfold insert
    split
    · simp
    · split
      · next h => simp [h]
      · simp only [List.mem_cons, ih]
        exact or_left_comm

/-- To remove an address takes away that one. -/
@[simp] theorem mem_remove {a b : Word} {bs : Breakpoints} : b ∈ remove a bs ↔ b ∈ bs ∧ b ≠ a := by
  simp [remove]

/-- Addresses in ascending order, each of them once. -/
def Sorted (bs : Breakpoints) : Prop := List.Pairwise (fun a b : Word => a.toNat < b.toNat) bs

/-- To insert an address keeps the order. -/
theorem sorted_insert {a : Word} {bs : Breakpoints} (h : Sorted bs) : Sorted (insert a bs) := by
  induction bs with
  | nil => simp [insert, Sorted]
  | cons b bs ih =>
    obtain ⟨hb, hbs⟩ := List.pairwise_cons.1 h
    unfold insert
    split
    · next hab =>
      refine List.pairwise_cons.2 ⟨fun c hc => ?_, h⟩
      rcases List.mem_cons.1 hc with rfl | hc
      · exact hab
      · exact Nat.lt_trans hab (hb c hc)
    · split
      · exact h
      · next hab hne =>
        refine List.pairwise_cons.2 ⟨fun c hc => ?_, ih hbs⟩
        rcases mem_insert.1 hc with rfl | hc
        · have : b.toNat ≠ c.toNat := fun e => hne (BitVec.eq_of_toNat_eq e.symm)
          omega
        · exact hb c hc

/-- To remove an address keeps the order. -/
theorem sorted_remove {a : Word} {bs : Breakpoints} (h : Sorted bs) : Sorted (remove a bs) :=
  List.Pairwise.filter _ h

end Breakpoints

end LittleComputer.Debugger
