import LittleComputer.Proofs.Debugger.Effects
import Mathlib

/-!
# Consecutive lists

A list stops at the end of memory, but the place that it leaves for the next one is a sum of words,
which wraps. So two lists show what one list of both counts shows, as long as the first does not
reach the end of memory. If it does, the second starts again near the bottom.
-/

namespace LittleComputer.Debugger

variable {start : Word} {a b : Nat}

/-! ## Addresses -/

/-- Where the next list starts. -/
def nextStart (start : Word) (count : Nat) : Word := start + BitVec.ofNat 16 (wordSize * count)

/-- The addresses of two lists, if the first ends within memory. -/
theorem listAddresses_add (h : start.toNat + wordSize * a < memorySize) (b : Nat) :
    listAddresses start (a + b) = listAddresses start a ++ listAddresses (nextStart start a) b := by
  have hnext : (nextStart start a).toNat = start.toNat + wordSize * a := by
    unfold memorySize at h
    rw [nextStart, BitVec.toNat_add, BitVec.toNat_ofNat]
    omega
  rw [listAddresses, List.range_add, List.filterMap_append, List.filterMap_map]
  congr 1
  refine List.filterMap_congr fun i _ => ?_
  rw [Function.comp_apply, hnext]
  congr 1
  push_cast
  ring

/-- Nothing is listed past the end of memory. -/
theorem listAddresses_past (h : memorySize ≤ start.toNat + wordSize * a) (b : Nat) :
    listAddresses start (a + b) = listAddresses start a := by
  have hpast : (List.range b).filterMap
      ((fun i : Nat => Word.address? (start.toNat + wordSize * i)) ∘ (a + ·)) = [] := by
    refine List.filterMap_eq_nil_iff.2 fun i _ => if_neg fun hi => ?_
    have hend := hi.2
    simp only [wordSize, memorySize] at h hend
    omega
  rw [listAddresses, List.range_add, List.filterMap_append, List.filterMap_map, hpast,
    List.append_nil, listAddresses]

/-- The first address is that of the start. -/
theorem listAddresses_ne_nil (hb : b ≠ 0) : listAddresses start b ≠ [] := by
  obtain ⟨n, rfl⟩ := Nat.exists_eq_succ_of_ne_zero hb
  rw [listAddresses, List.range_succ_eq_map, List.filterMap_cons]
  simp

/-- What is shown at the addresses of two lists is what is shown at those of one, if and only if the
first list ends within memory or the second is empty. -/
theorem flatMap_listAddresses_iff {α : Type} {f : Word → List α} (hf : ∀ address, f address ≠ []) :
    (listAddresses start a).flatMap f ++ (listAddresses (nextStart start a) b).flatMap f =
        (listAddresses start (a + b)).flatMap f ↔
      b = 0 ∨ start.toNat + wordSize * a < memorySize := by
  by_cases hnext : start.toNat + wordSize * a < memorySize
  · rw [listAddresses_add hnext, List.flatMap_append]
    exact iff_of_true rfl (Or.inr hnext)
  · rw [listAddresses_past (Nat.not_lt.1 hnext), List.append_right_eq_self, or_iff_left hnext]
    refine ⟨fun hnil => by_contra fun hb => ?_, ?_⟩
    · obtain ⟨address, hmem⟩ := List.exists_mem_of_ne_nil _ (listAddresses_ne_nil hb)
      exact hf address (List.flatMap_eq_nil_iff.1 hnil address hmem)
    · rintro rfl
      rfl

namespace Session

/-! ## The place of a session -/

/-- Whether two sessions are at the same place of the same program. -/
structure SamePlace (s t : Session) : Prop where
  machine : t.machine = s.machine
  symbols : t.symbols = s.symbols
  listAt : t.listAt = s.listAt

/-- A session is at its own place. -/
theorem SamePlace.refl (s : Session) : SamePlace s s := ⟨rfl, rfl, rfl⟩

/-- Sessions at the place of a third are at the same place. -/
theorem SamePlace.trans {s t u : Session} (h : SamePlace s t) (h' : SamePlace t u) :
    SamePlace s u :=
  ⟨h'.machine.trans h.machine, h'.symbols.trans h.symbols, h'.listAt.trans h.listAt⟩

end Session

/-- Whether a command neither runs the machine nor lists anything. -/
def Command.KeepsPlace : Command → Prop
  | .step _ | .resume | .list _ => False
  | _ => True

namespace Session

/-- A command that neither runs nor lists keeps the place. -/
theorem Becomes.samePlace {s t : Session} {c : Command} (h : s.Becomes c t) (hc : c.KeepsPlace) :
    SamePlace s t := by
  cases h with
  | same => exact .refl s
  | stepped | resumed | listed => exact hc.elim
  | broken | unbroken => exact ⟨rfl, rfl, rfl⟩

/-- The session after some commands. -/
def after (fuel : Nat) (s : Session) (commands : List Command) : Session :=
  commands.foldl (fun s c => (s.execute fuel c).session) s

/-- Any number of such commands keep the place. -/
theorem samePlace_after (fuel : Nat) (s : Session) {commands : List Command}
    (h : ∀ c ∈ commands, c.KeepsPlace) : SamePlace s (s.after fuel commands) := by
  induction commands generalizing s with
  | nil => exact .refl s
  | cons c rest ih =>
    obtain ⟨hc, hrest⟩ := List.forall_mem_cons.1 h
    exact ((answered_execute fuel s c).session.samePlace hc).trans (ih _ hrest)

end Session

/-! ## Lists -/

/-- An event without the mark of a breakpoint. -/
def Event.unmarked : Event → Event
  | .instruction _ current address word => .instruction false current address word
  | e => e

/-- What a reply shows, but for the marks of breakpoints. -/
def Reply.shown (reply : Reply) : List Event := reply.events.map Event.unmarked

namespace Session

/-- Where the next list starts. -/
def listStart (s : Session) : Word := s.listAt.getD s.machine.registers.pc

/-- An instruction with its labels, but without the mark of a breakpoint. -/
def shownAt (s : Session) (address : Word) : List Event :=
  (s.instructionAt address).map Event.unmarked

/-- An instruction is shown by one event at least. -/
theorem instructionAt_ne_nil (s : Session) (address : Word) : s.instructionAt address ≠ [] := by
  simp [instructionAt]

/-- The same without the marks of breakpoints. -/
theorem shownAt_ne_nil (s : Session) (address : Word) : s.shownAt address ≠ [] := by
  simp [shownAt, instructionAt_ne_nil]

/-- A list shows the instructions at its addresses. -/
theorem shown_list (fuel : Nat) (s : Session) (count : Nat) :
    (s.execute fuel (.list count)).shown = (listAddresses s.listStart count).flatMap s.shownAt :=
  List.map_flatMap

/-- At the same place the same instructions are shown. -/
theorem SamePlace.shownAt {s t : Session} (h : SamePlace s t) : t.shownAt = s.shownAt := by
  funext address
  simp [Session.shownAt, instructionAt, Event.unmarked, h.machine, h.symbols]

/-- At the same place lists start at the same address. -/
theorem SamePlace.listStart {s t : Session} (h : SamePlace s t) : t.listStart = s.listStart := by
  rw [Session.listStart, Session.listStart, h.listAt, h.machine]

/-- A list and another one after it show what one list of both counts does, if and only if the first
ends within memory or the second is empty. Commands between them that leave the place alone can only
change the marks of breakpoints. -/
theorem list_tiles (fuel : Nat) (s : Session) (a b : Nat) {between : List Command}
    (h : ∀ c ∈ between, c.KeepsPlace) :
    let first := s.execute fuel (.list a)
    let whole := s.execute fuel (.list (a + b))
    let endsWithin := b = 0 ∨ s.listStart.toNat + wordSize * a < memorySize
    (first.shown ++ ((first.session.after fuel between).execute fuel (.list b)).shown =
        whole.shown ↔ endsWithin) ∧
      (first.events ++ (first.session.execute fuel (.list b)).events = whole.events ↔
        endsWithin) := by
  intro first whole endsWithin
  constructor
  · have hplace := samePlace_after fuel first.session h
    rw [shown_list, shown_list, shown_list, hplace.shownAt, hplace.listStart]
    exact flatMap_listAddresses_iff s.shownAt_ne_nil
  · exact flatMap_listAddresses_iff s.instructionAt_ne_nil

/-- A session with empty memory, which has listed everything but the last three words. -/
def nearEnd : Session where
  machine := .initial
  symbols := []
  listAt := some 0xFFFA

/-- A list that stops short of the end of memory, and the one after it. -/
theorem list_tiles_nearEnd :
    let first := nearEnd.execute 0 (.list 2)
    let between := [.setBreakpoint (.literal 0xFFFE), .info none]
    first.shown ++ ((first.session.after 0 between).execute 0 (.list 5)).shown =
      (nearEnd.execute 0 (.list 7)).shown := by
  intro first between
  have hbetween : ∀ c ∈ between, c.KeepsPlace := by simp [between, Command.KeepsPlace]
  exact (list_tiles 0 nearEnd 2 5 hbetween).1.2 (Or.inr (by decide))

/-- After a list up to the last word of memory, the next one starts again at the bottom. -/
theorem not_tiles_nearEnd :
    let first := nearEnd.execute 0 (.list 3)
    first.session.listStart = 0 ∧
      first.events ++ (first.session.execute 0 (.list 1)).events ≠
        (nearEnd.execute 0 (.list 4)).events := by
  refine ⟨rfl, fun h => ?_⟩
  have hend := (flatMap_listAddresses_iff nearEnd.instructionAt_ne_nil).1 h
  revert hend
  decide

end Session

end LittleComputer.Debugger
