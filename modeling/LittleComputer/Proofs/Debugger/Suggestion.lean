import LittleComputer.Debugger.Completion
import Mathlib

/-!
# What a word can be completed to

The words before the last lead from one command to the next, for as long as they name one. If all of
them do, the last word is completed to what can come right after the command that they lead to. If
one does not, it is an argument, and nothing is suggested after it, not even where a location comes
next.
-/

namespace LittleComputer.Debugger

/-! ## Sets of texts -/

/-- A set has the texts that it is made of. -/
theorem mem_sortedSet {texts : List String} {text : String} :
    text ∈ sortedSet texts ↔ text ∈ texts := by
  rw [sortedSet, List.mem_mergeSort, List.mem_eraseDups]

/-- By recursion on a list that loses its first text and all like it. -/
theorem nodup_eraseDups (texts : List String) : texts.eraseDups.Nodup := by
  cases texts with
  | nil => exact List.nodup_nil
  | cons text rest =>
    rw [List.eraseDups_cons, List.nodup_cons]
    refine ⟨fun hmem => ?_, nodup_eraseDups _⟩
    have hkept := (List.mem_filter.1 (List.mem_eraseDups.1 hmem)).2
    rw [beq_self_eq_true] at hkept
    cases hkept
termination_by texts.length
decreasing_by exact Nat.lt_succ_of_le (List.length_filter_le _ _)

/-- Each text is there once, in the order of characters. -/
theorem pairwise_sortedSet (texts : List String) : (sortedSet texts).Pairwise (· < ·) := by
  have htrans (a b c : String) (hab : decide (a ≤ b) = true) (hbc : decide (b ≤ c) = true) :
      decide (a ≤ c) = true :=
    decide_eq_true (String.le_trans (of_decide_eq_true hab) (of_decide_eq_true hbc))
  have htotal (a b : String) : (decide (a ≤ b) || decide (b ≤ a)) = true := by
    simp [String.le_total a b]
  have hle := List.pairwise_mergeSort htrans htotal texts.eraseDups
  have hnodup : (sortedSet texts).Nodup :=
    (List.mergeSort_perm _ _).nodup_iff.2 (nodup_eraseDups texts)
  exact hle.imp₂ (fun a b hab hne => lt_of_le_of_ne (of_decide_eq_true hab) hne) hnodup

/-! ## The command that words lead to -/

namespace CommandTree

/-- A text starts with another if that is the first part of it. -/
theorem startsWith_iff {text start : String} :
    startsWith text start = true ↔ start.toList <+: text.toList :=
  List.isPrefixOf_iff_prefix

/-- The command that words lead to, each of them a name of a command under the one before, and the
words from the first one on that is no such name. -/
def follow : CommandTree → List String → CommandTree × List String
  | t, [] => (t, [])
  | t, word :: rest =>
    match t.find? word with
    | some s => s.follow rest
    | none => (t, word :: rest)

/-- The last word is completed if all words before it are names of commands. -/
theorem suggest_concat (locations : List String) (t : CommandTree) (leading : List String)
    (last : String) :
    t.suggest locations (leading ++ [last]) =
      if (t.follow leading).2 = [] then
        ⟨Text.utf8Size last.toList,
          ((t.follow leading).1.nextWords locations).filter (startsWith · last)⟩
      else ⟨0, []⟩ := by
  induction leading generalizing t with
  | nil => rfl
  | cons word rest ih =>
    have hrest : rest ++ [last] ≠ [] := List.append_ne_nil_of_right_ne_nil rest nofun
    rw [List.cons_append, suggest, follow]
    · cases t.find? word with
      | none => exact (if_neg nofun).symm
      | some s => exact ih s
    · exact hrest

end CommandTree

/-- What can be given for an argument of a command, by the number of the argument. In the place of
the first one, it can also be the name of a command under it. -/
inductive Offered (labels : List String) (t : CommandTree) : Nat → String → Prop
  | name {s : CommandTree} (hs : s ∈ t.subcommands) : Offered labels t 0 s.name
  | otherName {s : CommandTree} {text : String} (hs : s ∈ t.subcommands)
    (htext : text ∈ s.aliases) : Offered labels t 0 text
  | help (ht : t.subcommands ≠ []) : Offered labels t 0 "help"
  | register {k : Nat} (r : Register) (hk : t.arguments[k]? = some "location") :
    Offered labels t k r.name
  | label {k : Nat} {text : String} (hk : t.arguments[k]? = some "location")
    (htext : text ∈ labels) : Offered labels t k text

variable {labels leading : List String} {t : CommandTree} {text last : String} {k : Nat}

/-- What can be a location is a register or a label. -/
theorem mem_locationWords : text ∈ locationWords labels ↔
    (∃ r : Register, r.name = text) ∨ text ∈ labels := by
  rw [locationWords, List.mem_append, List.mem_map]
  exact or_congr_left ⟨fun ⟨r, _, h⟩ => ⟨r, h⟩, fun ⟨r, h⟩ => ⟨r, r.mem_all, h⟩⟩

/-- There is help for a command that has commands under it. -/
theorem mem_help {s : CommandTree} :
    s ∈ t.help ↔ t.subcommands ≠ [] ∧ s = .leaf "help" [] := by
  unfold CommandTree.help CommandTree.hasHelp
  cases t.subcommands with
  | nil => simp
  | cons => simp

/-- What can come right after a command is what is offered for its first argument. -/
theorem mem_nextWords :
    text ∈ t.nextWords (locationWords labels) ↔ Offered labels t 0 text := by
  unfold CommandTree.nextWords
  rw [List.mem_append, List.mem_append, List.mem_flatMap, List.mem_map, List.head?_eq_getElem?]
  constructor
  · rintro ((⟨s, hs, htext⟩ | ⟨s, hs, rfl⟩) | htext)
    · rcases List.mem_cons.1 htext with rfl | htext
      · exact .name hs
      · exact .otherName hs htext
    · obtain ⟨hsome, rfl⟩ := mem_help.1 hs
      exact .help hsome
    · split at htext
      · rename_i hlocation
        rcases mem_locationWords.1 htext with ⟨r, rfl⟩ | htext
        · exact .register r hlocation
        · exact .label hlocation htext
      · cases htext
  · intro h
    cases h with
    | name hs => exact Or.inl (Or.inl ⟨_, hs, List.mem_cons_self⟩)
    | otherName hs htext => exact Or.inl (Or.inl ⟨_, hs, List.mem_cons_of_mem _ htext⟩)
    | help hsome => exact Or.inl (Or.inr ⟨_, mem_help.2 ⟨hsome, rfl⟩, rfl⟩)
    | register r hlocation =>
      rw [if_pos hlocation]
      exact Or.inr (mem_locationWords.2 (Or.inl ⟨r, rfl⟩))
    | label hlocation htext =>
      rw [if_pos hlocation]
      exact Or.inr (mem_locationWords.2 (Or.inr htext))

/-- For an argument after the first, only locations are offered. -/
theorem offered_of_pos (hk : k ≠ 0) :
    Offered labels t k text ↔
      t.arguments[k]? = some "location" ∧ text ∈ locationWords labels := by
  rw [mem_locationWords]
  constructor
  · intro h
    cases h with
    | name | otherName | help => exact absurd rfl hk
    | register r hk => exact ⟨hk, Or.inl ⟨r, rfl⟩⟩
    | label hk htext => exact ⟨hk, Or.inr htext⟩
  · rintro ⟨hk, ⟨r, rfl⟩ | htext⟩
    · exact .register r hk
    · exact .label hk htext

/-- What the last word is completed to. -/
theorem mem_suggest_concat :
    text ∈ (t.suggest (locationWords labels) (leading ++ [last])).candidates ↔
      (t.follow leading).2 = [] ∧ last.toList <+: text.toList ∧
        Offered labels (t.follow leading).1 0 text := by
  rw [CommandTree.suggest_concat]
  split
  · rename_i hnone
    rw [List.mem_filter, mem_nextWords, CommandTree.startsWith_iff, and_iff_right hnone, and_comm]
  · rename_i hsome
    exact iff_of_false List.not_mem_nil fun h => hsome h.1

/-- If all words before the last one name commands, the last is completed to what can come after the
command that they lead to, and to nothing else. If one of them does not, nothing is suggested. So
the argument that the last word stands for is what decides, unless it is a location and not the
first argument. -/
theorem suggested_iff (labels : List String) (t : CommandTree) (leading : List String)
    (last : String) :
    let reached := (t.follow leading).1
    let k := (t.follow leading).2.length
    let candidates := sortedSet (t.suggest (locationWords labels) (leading ++ [last])).candidates
    candidates.Pairwise (· < ·) ∧
      (∀ text, text ∈ candidates ↔
        k = 0 ∧ last.toList <+: text.toList ∧ Offered labels reached 0 text) ∧
      ((∀ text, text ∈ candidates ↔ last.toList <+: text.toList ∧ Offered labels reached k text) ↔
        k = 0 ∨ ¬(reached.arguments[k]? = some "location" ∧
          ∃ text ∈ locationWords labels, last.toList <+: text.toList)) := by
  intro reached k candidates
  have hmem (text : String) : text ∈ candidates ↔
      k = 0 ∧ last.toList <+: text.toList ∧ Offered labels reached 0 text := by
    rw [mem_sortedSet, mem_suggest_concat, List.length_eq_zero_iff]
  refine ⟨pairwise_sortedSet _, hmem, ?_⟩
  by_cases hk : k = 0
  · refine iff_of_true (fun text => ?_) (Or.inl hk)
    rw [hmem, and_iff_right hk, hk]
  · rw [or_iff_right hk]
    have hnone (text : String) : text ∉ candidates := fun h => hk ((hmem text).1 h).1
    constructor
    · rintro h ⟨hlocation, text, htext, hstart⟩
      exact hnone text ((h text).2 ⟨hstart, (offered_of_pos hk).2 ⟨hlocation, htext⟩⟩)
    · intro h text
      refine iff_of_false (hnone text) fun ⟨hstart, hoffered⟩ => h ?_
      obtain ⟨hlocation, htext⟩ := (offered_of_pos hk).1 hoffered
      exact ⟨hlocation, text, htext, hstart⟩

/-- A command that takes a number and then a location. -/
def pokeTree : CommandTree :=
  ⟨"debugger", [], [], [], [.leaf "poke" ["number", "location"]]⟩

/-- No register is suggested for a location that is the second argument. -/
theorem not_suggested_second :
    (pokeTree.follow ["poke", "5"]).2 = ["5"] ∧
      Offered [] (pokeTree.follow ["poke", "5"]).1 1 "R0" ∧
      "R0" ∉ sortedSet
        (pokeTree.suggest (locationWords []) (["poke", "5"] ++ ["R"])).candidates := by
  refine ⟨by decide +kernel, .register 0 (by decide +kernel), ?_⟩
  rw [mem_sortedSet]
  decide +kernel

end LittleComputer.Debugger
