import LittleComputer.Debugger.Session
import LittleComputer.Proofs.Machine.Checked
import LittleComputer.Proofs.Machine.Unbounded
import Mathlib

/-!
# Words of memory shown

Words are shown one after the other from an address on, or backwards from it, until there are as
many as asked for or memory ends. How many fit into memory is known from the address alone
(`room`), so the addresses that are shown are as many of the ones asked for as there is room for.

The loop that goes through them multiplies and adds numbers of 32 bits, and can be asked for as many
as 2147483648 words. It ends at the first address outside of memory, before any of its numbers gets
too large.
-/

namespace LittleComputer

namespace Memory

/-- What is shown of an address: the word there, or the byte alone at the last address. -/
theorem toNat_peek (m : Memory) (a : Word) :
    (m.peek a).toNat =
      (m.byte a).toNat + if a.toNat < 0xFFFF then 256 * (m.byte (a + 1)).toNat else 0 := by
  by_cases h : a.toNat + 1 < memorySize
  · rw [peek, readWord_of_lt h, if_pos (Nat.lt_of_succ_lt_succ h)]
    exact Word.toNat_ofBytes _ _
  · have hread : m.readWord a = .error ⟨a.toNat + 1⟩ := by
      rw [readWord, checkWord, if_neg h]
      rfl
    rw [peek, hread, if_neg fun hlast => h (Nat.succ_lt_succ hlast)]
    exact Word.toNat_ofBytes _ _

end Memory

namespace Debugger

variable {start : Word} {count : Int} {i : Nat}

/-! ## Addresses -/

/-- The distance from each word to the next one. -/
def stride (count : Int) : Int := if count < 0 then -2 else 2

/-- The address of a word that is asked for, without regard to the bounds of memory. -/
def askedAt (start : Word) (count : Int) (i : Nat) : Int := start.toNat + i * stride count

/-- The addresses of the words that are asked for, up to the first that is not one of memory. -/
def askedAddresses (start : Word) (count : Int) : List Int :=
  ((List.range count.natAbs).map (askedAt start count)).takeWhile fun a => InMemory a

/-- How many words there are in the direction of a count. -/
def room (start : Word) (count : Int) : Nat :=
  (if count < 0 then start.toNat else 0xFFFF - start.toNat) / 2 + 1

/-- No more words fit into memory than half its size. -/
theorem room_le (start : Word) (count : Int) : room start count ≤ 32768 := by
  have hstart : start.toNat < 65536 := start.isLt
  unfold room
  split <;> omega

/-- A word that is asked for is in memory as long as there is room for it. -/
theorem inMemory_askedAt_iff : InMemory (askedAt start count i) ↔ i < room start count := by
  have hstart : start.toNat < 65536 := start.isLt
  unfold InMemory askedAt stride room
  split <;> omega

/-- A word that is asked for has an address as long as there is room for it. -/
theorem address?_askedAt :
    Word.address? (askedAt start count i) =
      if i < room start count then some (BitVec.ofInt 16 (askedAt start count i)) else none := by
  by_cases h : i < room start count
  · obtain ⟨hmin, hmax⟩ := inMemory_askedAt_iff.2 h
    rw [if_pos h, Word.address?_eq_some_iff, BitVec.toNat_ofInt]
    omega
  · rw [if_neg h, Option.eq_none_iff_forall_ne_some]
    exact fun a ha => h (inMemory_askedAt_iff.1 (inMemory_iff.2 ⟨a, ha⟩))

/-- The numbers below a bound are the first ones. -/
theorem takeWhile_range (n k : Nat) :
    (List.range n).takeWhile (fun i => i < k) = List.range (min n k) := by
  induction n generalizing k with
  | zero => rw [Nat.zero_min, List.range_zero, List.takeWhile_nil]
  | succ n ih =>
    cases k with
    | zero =>
      rw [Nat.min_zero, List.range_succ_eq_map]
      rfl
    | succ k =>
      have hsucc : (fun i => decide (i < k + 1)) ∘ Nat.succ = fun i => decide (i < k) := by
        simp [Function.comp_def]
      rw [List.range_succ_eq_map, List.takeWhile_cons, if_pos (by simp), List.takeWhile_map, hsucc,
        ih, Nat.add_min_add_right, List.range_succ_eq_map]

/-- What is kept of the numbers below a bound are the values of the first ones. -/
theorem filterMap_range {α : Type} {f : Nat → Option α} {g : Nat → α} {k : Nat}
    (hf : ∀ i, f i = if i < k then some (g i) else none) (n : Nat) :
    (List.range n).filterMap f = (List.range (min n k)).map g := by
  induction n with
  | zero => rw [Nat.zero_min, List.range_zero, List.filterMap_nil, List.map_nil]
  | succ n ih =>
    rw [List.range_succ, List.filterMap_append, ih]
    by_cases h : n < k
    · have hn : f n = some (g n) := (hf n).trans (if_pos h)
      rw [Nat.min_eq_left h.le, Nat.min_eq_left h, List.range_succ, List.map_append,
        List.filterMap_cons_some hn, List.filterMap_nil, List.map_singleton]
    · have hn : f n = none := (hf n).trans (if_neg h)
      rw [Nat.min_eq_right (Nat.le_of_not_lt h), Nat.min_eq_right (by omega),
        List.filterMap_cons_none hn, List.filterMap_nil, List.append_nil]

/-- The addresses in memory are the first ones, as many as there is room for. -/
theorem askedAddresses_eq (start : Word) (count : Int) :
    askedAddresses start count =
      (List.range (min count.natAbs (room start count))).map (askedAt start count) := by
  rw [askedAddresses, List.takeWhile_map, ← takeWhile_range]
  simp only [Function.comp_def, inMemory_askedAt_iff]

/-- As many words are shown as are asked for and there is room for. -/
theorem cellAddresses_eq (start : Word) (count : Int) :
    cellAddresses start count = (List.range (min count.natAbs (room start count))).map
      fun i => BitVec.ofInt 16 (askedAt start count i) := by
  have hroom : min memorySize (room start count) = room start count := by
    have hle := room_le start count
    unfold memorySize
    omega
  rw [cellAddresses, ← hroom, ← Nat.min_assoc]
  exact filterMap_range (fun i => address?_askedAt) _

end Debugger

/-! ## Addresses under checks -/

namespace Checked

open Debugger

/-- An unsigned number of 32 bits. -/
def natural (n : Nat) : Checked Nat := do
  ensure (n < 4294967296) (.overflow n)
  return n

/-- A number that 32 bits can hold is computed as it is. -/
theorem natural_of_lt {n : Nat} (h : n < 4294967296) : natural n = .ok n := by
  rw [natural, ensure_of h]
  rfl

/-- The addresses of words to show, from one of them on and with as many to come. They end before
the first that is not in memory. -/
def cellsFrom (start : Word) (step : Int) : Nat → Nat → Checked (List Word)
  | _, 0 => return []
  | i, left + 1 =>
    if Source.maxNumber < i then return []
    else do
      let distance ← int (i * step)
      let n ← int (start.toNat + distance)
      match Word.address? n with
      | none => return []
      | some a =>
        let rest ← cellsFrom start step (i + 1) left
        return a :: rest

/-- The addresses of the words to show. -/
def cells (start : Word) (count : Int) : Checked (List Word) := do
  let step ← int (if count < 0 then -wordSize else wordSize)
  let number ← natural count.natAbs
  cellsFrom start step 0 number

/-- Up to the first address outside of memory, all numbers are small. By induction on how many words
are still to come. -/
theorem cellsFrom_eq (start : Word) (count : Int) {i : Nat} (hi : i ≤ room start count)
    (left : Nat) :
    cellsFrom start (stride count) i left =
      .ok ((List.range' i (min left (room start count - i))).map
        fun j => BitVec.ofInt 16 (askedAt start count j)) := by
  have hstart : start.toNat < 65536 := start.isLt
  have hroom := room_le start count
  have hstride : stride count = -2 ∨ stride count = 2 := by
    unfold stride
    split <;> simp
  induction left generalizing i with
  | zero =>
    rw [Nat.zero_min]
    rfl
  | succ left ih =>
    have hsmall : ¬Source.maxNumber < i := by
      unfold Source.maxNumber
      omega
    have hdistance : int (i * stride count) = .ok (i * stride count) :=
      int_of_le (by rcases hstride with h | h <;> rw [h] <;> omega)
    have hsum : int (start.toNat + i * stride count) = .ok (askedAt start count i) :=
      int_of_le (by rcases hstride with h | h <;> rw [h] <;> omega)
    rw [cellsFrom, if_neg hsmall, hdistance, Except.ok_bind, hsum, Except.ok_bind, address?_askedAt]
    by_cases hmem : i < room start count
    · have hmin : min (left + 1) (room start count - i) =
          min left (room start count - (i + 1)) + 1 := by omega
      rw [if_pos hmem, hmin, List.range'_succ, List.map_cons]
      dsimp only
      rw [ih hmem]
      rfl
    · have hmin : min (left + 1) (room start count - i) = 0 := by omega
      rw [if_neg hmem, hmin]
      rfl

/-- The loop over any count of 32 bits ends without a breach, with the addresses that there are. -/
theorem cells_eq (start : Word) {count : Int} (hmin : -2 ^ 31 ≤ count) (hmax : count < 2 ^ 31) :
    cells start count = .ok (cellAddresses start count) := by
  have hstep : int (if count < 0 then -wordSize else wordSize) = .ok (stride count) := by
    unfold stride
    split <;> exact int_of_le (by decide)
  rw [cells, hstep, Except.ok_bind, natural_of_lt (by omega), Except.ok_bind,
    cellsFrom_eq start count (Nat.zero_le _), cellAddresses_eq, List.range_eq_range', Nat.sub_zero]

end Checked

/-! ## The words shown -/

namespace Debugger

/-- Whether an event shows the word at an unbounded address, of which there is only the low byte at
the last address. -/
def ShowsWord (m : Memory) (a : Int) (e : Event) : Prop :=
  ∃ address value : Word, e = .cell address value ∧ (address.toNat : Int) = a ∧
    value.toNat =
      (m.byte address).toNat + if a < 0xFFFF then 256 * (m.byte (address + 1)).toNat else 0

/-- A word is shown as it is looked up. -/
theorem showsWord_cell (m : Memory) (address : Word) :
    ShowsWord m address.toNat (.cell address (m.peek address)) := by
  refine ⟨address, _, rfl, rfl, ?_⟩
  rw [Memory.toNat_peek]
  norm_cast

namespace Session

variable {s : Session} {location : Location} {start : Word} {count : Int}

/-- The words at the addresses are shown one after the other. -/
theorem execute_memory (fuel : Nat)
    (hstart : location.evaluate s.machine.registers s.symbols = .ok start) :
    s.execute fuel (.memory location count) =
      ⟨s, (cellAddresses start count).map fun a => .cell a (s.machine.memory.peek a), none⟩ := by
  rw [execute, withAddress, hstart]

/-- The words that are asked for are shown in order, up to the first whose address is not in memory.
No number on the way is too large for its 32 bits, not even for the smallest count. -/
theorem memory_shows (fuel : Nat)
    (hstart : location.evaluate s.machine.registers s.symbols = .ok start)
    (hmin : -2 ^ 31 ≤ count) (hmax : count < 2 ^ 31) :
    let reply := s.execute fuel (.memory location count)
    reply.session = s ∧ reply.ending = none ∧ reply.events.length ≤ 32768 ∧
      List.Forall₂ (ShowsWord s.machine.memory) (askedAddresses start count) reply.events ∧
      ∃ addresses, Checked.cells start count = .ok addresses ∧
        reply.events = addresses.map fun a => .cell a (s.machine.memory.peek a) := by
  rw [execute_memory fuel hstart]
  refine ⟨rfl, rfl, ?_, ?_, _, Checked.cells_eq start hmin hmax, rfl⟩
  · rw [List.length_map, cellAddresses_eq, List.length_map, List.length_range]
    exact (Nat.min_le_right _ _).trans (room_le start count)
  · rw [askedAddresses_eq, cellAddresses_eq, List.map_map, List.forall₂_map_left_iff,
      List.forall₂_map_right_iff, List.forall₂_same]
    intro i hi
    have hmem := (List.mem_range.1 hi).trans_le (Nat.min_le_right _ _)
    have hshown := showsWord_cell s.machine.memory (BitVec.ofInt 16 (askedAt start count i))
    rwa [← Word.address?_eq_some_iff.1 (address?_askedAt.trans (if_pos hmem))] at hshown

/-- A session with empty memory and a label near the bottom of it. -/
def low : Session where
  machine := .initial
  symbols := [("LOW", 3)]

/-- Asked for as many words backwards as a count can say, it shows the two that there are. -/
theorem memory_shows_smallest :
    (Location.label "LOW").evaluate low.machine.registers low.symbols = .ok 3 ∧
      -2 ^ 31 ≤ (-2147483648 : Int) ∧ (-2147483648 : Int) < 2 ^ 31 ∧
      List.Forall₂ (ShowsWord low.machine.memory) [3, 1]
        (low.execute 0 (.memory (.label "LOW") (-2147483648))).events := by
  have hstart : (Location.label "LOW").evaluate low.machine.registers low.symbols = .ok 3 := rfl
  have hmin : -2 ^ 31 ≤ (-2147483648 : Int) := by decide
  have hmax : (-2147483648 : Int) < 2 ^ 31 := by decide
  have hasked : askedAddresses 3 (-2147483648) = [3, 1] := (askedAddresses_eq _ _).trans rfl
  obtain ⟨_, _, _, hshows, _⟩ := memory_shows 0 hstart hmin hmax
  rw [hasked] at hshows
  exact ⟨hstart, hmin, hmax, hshows⟩

end Session

end Debugger

end LittleComputer
