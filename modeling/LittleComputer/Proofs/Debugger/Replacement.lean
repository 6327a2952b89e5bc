import LittleComputer.Debugger.Completion
import LittleComputer.Proofs.Debugger.Splitting
import LittleComputer.Proofs.Debugger.Suggestion
import Mathlib

/-!
# What a completion replaces

A completion starts as many bytes before the cursor as the last word has. It therefore replaces that
word if the word stands in the line as it is, not in quotes and not in a comment, and then what
comes out has the completed word in its place. In every other line, nothing that is longer than the
word itself fits.
-/

namespace LittleComputer.Debugger

/-! ## Words that are suggested -/

/-- Whether a command is somewhere under another. -/
inductive CommandTree.Under (s : CommandTree) : CommandTree → Prop
  | child {t : CommandTree} (h : s ∈ t.subcommands) : Under s t
  | deeper {u t : CommandTree} (hu : u ∈ t.subcommands) (h : Under s u) : Under s t

variable {labels words leading : List String} {t s : CommandTree} {candidate last : String}
  {before after front w : List Char}

namespace CommandTree

/-- A command that words lead to is under the one that they start from. -/
theorem under_of_mem_follow (h : s ∈ (t.follow leading).1.subcommands) : s.Under t := by
  induction leading generalizing t with
  | nil => exact .child h
  | cons word rest ih =>
    rw [follow] at h
    split at h
    · rename_i u hfind
      exact .deeper (List.mem_of_find?_eq_some hfind) (ih h)
    · exact .child h

end CommandTree

/-- Whether all names of commands and all labels stand for themselves. -/
structure OrdinaryNames (labels : List String) (t : CommandTree) : Prop where
  name : ∀ s : CommandTree, s.Under t → ∀ name ∈ s.name :: s.aliases, Ordinary name
  label : ∀ label ∈ labels, Ordinary label

/-- The names of registers stand for themselves. -/
theorem ordinary_register : ∀ r : Register, Ordinary r.name := by
  decide +kernel

/-- All that is offered stands for itself if all names do. -/
theorem ordinary_of_offered (leading : List String) {k : Nat} (h : OrdinaryNames labels t)
    (hoffered : Offered labels (t.follow leading).1 k candidate) : Ordinary candidate := by
  cases hoffered with
  | name hs => exact h.name _ (CommandTree.under_of_mem_follow hs) _ List.mem_cons_self
  | otherName hs htext =>
    exact h.name _ (CommandTree.under_of_mem_follow hs) _ (List.mem_cons_of_mem _ htext)
  | help => decide +kernel
  | register r => exact ordinary_register r
  | label _ htext => exact h.label _ htext

/-- The last word, which is empty if there is none yet. -/
def lastWord (words : List String) : String := words.getLastD ""

/-- The last word is the one at the end. -/
@[simp] theorem lastWord_concat : lastWord (leading ++ [last]) = last := List.getLastD_concat

/-- A suggestion is for all bytes of the last word, and every candidate begins with that word. -/
theorem suggest_spec (h : OrdinaryNames labels t)
    (hmem : candidate ∈ (t.suggest (locationWords labels) words).candidates) :
    (t.suggest (locationWords labels) words).size = Text.utf8Size (lastWord words).toList ∧
      (lastWord words).toList <+: candidate.toList ∧ Ordinary candidate := by
  rcases List.eq_nil_or_concat' words with rfl | ⟨leading, last, rfl⟩
  · exact ⟨rfl, List.nil_prefix, ordinary_of_offered [] h (mem_nextWords.1 hmem)⟩
  · obtain ⟨hfollow, hstart, hoffered⟩ := mem_suggest_concat.1 hmem
    rw [CommandTree.suggest_concat, if_pos hfollow, lastWord_concat]
    exact ⟨rfl, hstart, ordinary_of_offered leading h hoffered⟩

/-- A suggestion replaces as many bytes as the last word has, or none. -/
theorem suggest_size (labels : List String) (t : CommandTree) (words : List String) :
    (t.suggest (locationWords labels) words).size = Text.utf8Size (lastWord words).toList ∨
      (t.suggest (locationWords labels) words).size = 0 := by
  rcases List.eq_nil_or_concat' words with rfl | ⟨leading, last, rfl⟩
  · exact Or.inr rfl
  · rw [CommandTree.suggest_concat, lastWord_concat]
    split
    · exact Or.inl rfl
    · exact Or.inr rfl

/-- A suggestion replaces no more bytes than the last word has. -/
theorem suggest_size_le (labels : List String) (t : CommandTree) (words : List String) :
    (t.suggest (locationWords labels) words).size ≤ Text.utf8Size (lastWord words).toList := by
  rcases suggest_size labels t words with h | h <;> omega

/-! ## The word in front of the cursor -/

/-- After a blank there is one more word, which is empty. -/
theorem typedWords_of_blank {c : Char} (hlast : before.getLast? = some c) (hc : IsBlank c) :
    typedWords before = (splitWords before).map (· ++ [""]) := by
  rw [typedWords, hlast]
  rcases hc with rfl | rfl <;> rfl

/-- Without a blank at the end the words are those of the line. -/
theorem typedWords_of_not_blank (h : ∀ c, before.getLast? = some c → ¬IsBlank c) :
    typedWords before = splitWords before := by
  rw [typedWords]
  split
  · rename_i hlast
    exact absurd (Or.inl rfl) (h _ hlast)
  · rename_i hlast
    exact absurd (Or.inr rfl) (h _ hlast)
  · exact Option.map_id'

/-- The words in front of the cursor are those of the line so far, or an empty one after them. -/
theorem typedWords_cases (h : typedWords before = some words) :
    splitWords before = some words ∨
      ∃ split, splitWords before = some split ∧ words = split ++ [""] := by
  by_cases hblank : ∃ c, before.getLast? = some c ∧ IsBlank c
  · obtain ⟨c, hlast, hc⟩ := hblank
    rw [typedWords_of_blank hlast hc] at h
    obtain ⟨split, hsplit, rfl⟩ := Option.map_eq_some_iff.1 h
    exact Or.inr ⟨split, hsplit, rfl⟩
  · rw [typedWords_of_not_blank fun c hlast hc => hblank ⟨c, hlast, hc⟩] at h
    exact Or.inl h

/-- A last word that is not empty is one of the words. -/
theorem dropLast_append_lastWord (h : lastWord words ≠ "") :
    words.dropLast ++ [lastWord words] = words := by
  rcases List.eq_nil_or_concat' words with rfl | ⟨leading, last, rfl⟩
  · exact absurd rfl h
  · rw [lastWord_concat, List.dropLast_concat]

/-- The last word is not longer than the line in front of the cursor. -/
theorem utf8Size_lastWord_le (h : typedWords before = some words) :
    Text.utf8Size (lastWord words).toList ≤ Text.utf8Size before := by
  by_cases hempty : lastWord words = ""
  · rw [hempty]
    exact Nat.zero_le _
  · rcases typedWords_cases h with h | ⟨split, _, rfl⟩
    · refine utf8Size_le_of_mem_splitWords h ?_
      rw [← dropLast_append_lastWord hempty]
      exact List.mem_append_right _ (List.mem_singleton.2 (by simp))
    · exact absurd lastWord_concat hempty

/-- Whether the last word stands in the line as it is, where a text that stands for itself comes
into a word. -/
def TypedPlainly (before : List Char) (words : List String) : Prop :=
  ∃ front mode, before = front ++ (lastWord words).toList ∧ mode.isOpen = true ∧
    Reaches front words.dropLast mode []

/-- A word at the end that is not quoted stands in the line as it is. -/
theorem typedPlainly_concat {mode : Mode} (hbefore : before = front ++ last.toList)
    (hopen : mode.isOpen = true) (h : Reaches front leading mode []) :
    TypedPlainly before (leading ++ [last]) := by
  refine ⟨front, mode, ?_, hopen, ?_⟩
  · rw [hbefore, lastWord_concat]
  · rw [List.dropLast_concat]
    exact h

/-- In a line without marks, the last word stands as it is. -/
theorem typedPlainly_of_unmarked (hbefore : ∀ c ∈ before, Unmarked c)
    (h : typedWords before = some words) : TypedPlainly before words := by
  rcases List.eq_nil_or_concat' before with rfl | ⟨front, c, rfl⟩
  · cases h
    exact ⟨[], .between, rfl, rfl, reaches_nil⟩
  rw [List.forall_mem_append, List.forall_mem_singleton] at hbefore
  obtain ⟨s, w, ws, rfl, hw, hreaches⟩ := exists_reaches_between hbefore.1
  rcases hbefore.2 with hblank | hc
  · obtain ⟨ws', hreaches'⟩ := hreaches.exists_append_blank hw hblank
    rw [typedWords_of_blank List.getLast?_concat hblank, hreaches'.splitWords_eq, splitFrom,
      Option.map_some, Option.map_some, List.append_nil, Option.some.injEq] at h
    rw [← h]
    exact typedPlainly_concat (List.append_nil _).symm rfl hreaches'
  · have hliteral : ∀ d ∈ w ++ [c], Literal d ∧ d ≠ '#' := by
      rw [List.forall_mem_append, List.forall_mem_singleton]
      exact ⟨hw, hc⟩
    have hlast : ∀ d, (s ++ w ++ [c]).getLast? = some d → ¬IsBlank d := by
      rw [List.getLast?_concat]
      rintro d ⟨⟩ hblank
      cases hc.1.1.symm.trans hblank.isSeparator
    have hne : w ++ [c] ≠ [] := List.append_ne_nil_of_right_ne_nil w (List.cons_ne_nil c [])
    rw [typedWords_of_not_blank hlast, List.append_assoc, hreaches,
      splitFrom_literal hliteral hne] at h
    cases h
    refine typedPlainly_concat ?_ rfl hreaches
    rw [if_pos rfl, String.toList_ofList, List.append_assoc]

/-! ## Replacing the word -/

/-- Whether a candidate fits in a line after some characters of it: what it replaces is a beginning
of it, and the line then has the candidate in place of the last word. -/
structure Fits (before front : List Char) (words : List String) (candidate : String) : Prop where
  typed : ∃ w, before = front ++ w ∧ w <+: candidate.toList
  replaced : splitWords (front ++ candidate.toList) = some (words.dropLast ++ [candidate])

/-- Two beginnings of a text of the same number of bytes are the same. -/
theorem isPrefix_unique {x y text : List Char} (hx : x <+: text) (hy : y <+: text)
    (hsize : Text.utf8Size x = Text.utf8Size y) : x = y := by
  obtain ⟨u, hu⟩ := hx
  obtain ⟨v, hv⟩ := hy
  have hxu := Text.splitAtByte?_eq_some_iff.2 ⟨hu.symm, hsize⟩
  have hyv := Text.splitAtByte?_eq_some_iff.2 ⟨hv.symm, rfl⟩
  rw [hxu] at hyv
  cases hyv
  rfl

/-- What is replaced can only be the last word, as it stands. -/
theorem eq_append_lastWord (htyped : ∃ w, before = front ++ w ∧ w <+: candidate.toList)
    (hsize : Text.utf8Size front + Text.utf8Size (lastWord words).toList = Text.utf8Size before)
    (hstart : (lastWord words).toList <+: candidate.toList) :
    before = front ++ (lastWord words).toList := by
  obtain ⟨w, rfl, hw⟩ := htyped
  rw [Text.utf8Size_append] at hsize
  rw [isPrefix_unique hw hstart (by omega)]

/-- After the last word in a comment, the splitter has left it out. -/
theorem eq_lastWord_of_comment (hwords : typedWords before = some words)
    (h : splitWords before = some (words.dropLast ++ [candidate])) :
    candidate = lastWord words := by
  rcases typedWords_cases hwords with hsplit | ⟨split, hsplit, rfl⟩
  · rw [hsplit, Option.some.injEq] at h
    rw [h, lastWord_concat]
  · rw [List.dropLast_concat, hsplit, Option.some.injEq] at h
    exact absurd (congrArg List.length h) (by simp)

/-- A candidate fits if the last word stands in the line as it is, and else only if it is that word
already. -/
theorem fits_iff (hwords : typedWords before = some words) (hcandidate : Ordinary candidate)
    (hne : candidate ≠ "") (hstart : (lastWord words).toList <+: candidate.toList) :
    (∃ front, Text.utf8Size front + Text.utf8Size (lastWord words).toList = Text.utf8Size before ∧
        Fits before front words candidate) ↔
      TypedPlainly before words ∨
        candidate = lastWord words ∧ (lastWord words).toList <:+ before := by
  have hne' : candidate.toList ≠ [] := by simpa using hne
  constructor
  · rintro ⟨front, hsize, hfits⟩
    have hbefore := eq_append_lastWord hfits.typed hsize hstart
    obtain ⟨ws, mode, w, hreaches, _⟩ := exists_reaches front
    have hreplaced := hfits.replaced
    rw [hreaches, splitFrom_literal hcandidate hne'] at hreplaced
    split_ifs at hreplaced with hopen hbetween hcomment
    · obtain ⟨rfl, _⟩ := List.append_inj' (Option.some.inj hreplaced) rfl
      rw [hbetween] at hreaches
      exact Or.inl ⟨front, .between, hbefore, rfl, hreaches.between⟩
    · obtain ⟨rfl, hword⟩ := List.append_inj' (Option.some.inj hreplaced) rfl
      have hw : w.reverse ++ candidate.toList = candidate.toList := by
        rw [← String.toList_ofList (l := _ ++ _), List.singleton_inj.1 hword]
      rw [List.append_left_eq_self, List.reverse_eq_nil_iff] at hw
      rw [hw] at hreaches
      exact Or.inl ⟨front, mode, hbefore, hopen, hreaches⟩
    · have hlast : ∀ c ∈ (lastWord words).toList, Literal c ∧ c ≠ '#' := fun c hc =>
        hcandidate c (hstart.subset hc)
      rw [Option.map_some, List.append_nil, Option.some.injEq] at hreplaced
      refine Or.inr ⟨eq_lastWord_of_comment hwords ?_, front, hbefore.symm⟩
      rw [hbefore, hreaches, hcomment, splitFrom_comment_literal hlast, Option.map_some,
        List.append_nil, hreplaced]
    · cases hreplaced
  · rintro (⟨front, mode, hbefore, hopen, hreaches⟩ | ⟨rfl, front, hbefore⟩)
    · refine ⟨front, by rw [hbefore, Text.utf8Size_append], ⟨_, hbefore, hstart⟩, ?_⟩
      rw [hreaches, splitFrom_literal hcandidate hne', if_pos hopen]
      simp
    · refine ⟨front, by rw [← hbefore, Text.utf8Size_append], ⟨_, hbefore.symm, hstart⟩, ?_⟩
      rw [hbefore, dropLast_append_lastWord hne]
      rcases typedWords_cases hwords with hsplit | ⟨split, _, rfl⟩
      · exact hsplit
      · exact absurd lastWord_concat hne

/-- What is left to type of the only candidate is what it has after the last word. -/
theorem hintOf_singleton (h : (lastWord words).toList <+: candidate.toList) :
    ∃ hint, hintOf (Text.utf8Size (lastWord words).toList) [candidate] = some hint ∧
      (lastWord words).toList ++ hint.toList = candidate.toList := by
  obtain ⟨rest, hrest⟩ := h
  refine ⟨String.ofList rest, ?_, by rw [String.toList_ofList, hrest]⟩
  rw [hintOf, Text.splitAtByte?_eq_some_iff.2 ⟨hrest.symm, rfl⟩]
  rfl

/-- A completion starts before the cursor. If the last word stands in the line as it is, as it does
in every line without quotes, backslashes and comments, the candidates fit in its place and the hint
is what is left to type of the only one. In other lines, no candidate fits that is not the word
itself. -/
theorem completion_fits_iff {line : String} {cursor : Nat} (hnames : OrdinaryNames labels t)
    (hcursor : Text.splitAtByte? cursor line.toList = some (before, after)) :
    ∃ c, complete t labels line cursor = some c ∧
      (typedWords before = none → c = ⟨0, [], none⟩) ∧
      ∀ words, typedWords before = some words →
        c.start + (t.suggest (locationWords labels) words).size = cursor ∧
        ((∀ c ∈ before, Unmarked c) → TypedPlainly before words) ∧
        (TypedPlainly before words → ∃ front, front <+: before ∧ Text.utf8Size front = c.start) ∧
        (∀ candidate ∈ c.candidates, candidate ≠ "" →
          ((∃ front, Text.utf8Size front = c.start ∧ Fits before front words candidate) ↔
            TypedPlainly before words ∨
              candidate = lastWord words ∧ (lastWord words).toList <:+ before)) ∧
        ∀ candidate, c.candidates = [candidate] → ∃ hint, c.hint = some hint ∧
          ∀ front, Text.utf8Size front = c.start →
            (before ++ hint.toList = front ++ candidate.toList ↔
              ∃ w, before = front ++ w ∧ w <+: candidate.toList) := by
  obtain ⟨-, hsize⟩ := Text.splitAtByte?_eq_some_iff.1 hcursor
  rw [complete, hcursor, Option.map_some]
  refine ⟨_, rfl, fun hnone => ?_, fun words hwords => ?_⟩
  · simp only [hnone]
  simp only [hwords]
  have hle := (suggest_size_le labels t words).trans
    (utf8Size_lastWord_le hwords)
  rw [hsize] at hle
  refine ⟨Nat.sub_add_cancel hle, fun h => typedPlainly_of_unmarked h hwords, ?_, ?_, ?_⟩
  · rintro ⟨front, mode, rfl, -, -⟩
    rw [Text.utf8Size_append] at hsize
    rcases suggest_size labels t words with hlast | hzero
    · exact ⟨front, List.prefix_append _ _, by omega⟩
    · exact ⟨_, List.prefix_rfl, by rw [Text.utf8Size_append, hzero]; omega⟩
  · intro candidate hmem hne
    rw [mem_sortedSet] at hmem
    obtain ⟨hspec, hstart, hcandidate⟩ := suggest_spec hnames hmem
    rw [hspec] at hle ⊢
    rw [← fits_iff hwords hcandidate hne hstart, hsize]
    exact exists_congr fun front => and_congr_left fun _ => by omega
  · intro candidate honly
    have hmem : candidate ∈ (t.suggest (locationWords labels) words).candidates := by
      rw [← mem_sortedSet, honly]
      exact List.mem_singleton_self candidate
    obtain ⟨hspec, hstart, _⟩ := suggest_spec hnames hmem
    obtain ⟨hint, hhint, hrest⟩ := hintOf_singleton hstart
    rw [hspec] at hle
    rw [hspec, honly]
    refine ⟨hint, hhint, fun front hfront => ?_⟩
    have happend : before ++ hint.toList = front ++ candidate.toList ↔
        before = front ++ (lastWord words).toList := by
      rw [← hrest, ← List.append_assoc, List.append_left_inj]
    rw [happend]
    exact ⟨fun h => ⟨_, h, hstart⟩, fun h => eq_append_lastWord h (by omega) hstart⟩

/-- A command that takes a location, and one that takes nothing. -/
def shownTree : CommandTree :=
  ⟨"debugger", [], [], [], [.leaf "memory" ["location"], .leaf "step" []]⟩

/-- There is nothing under a command that has no commands. -/
theorem CommandTree.not_under_leaf {name : String} {arguments : List String} :
    ¬s.Under (.leaf name arguments) := by
  intro h
  cases h with
  | child h | deeper h => cases h

/-- All names of the tree stand for themselves. -/
theorem ordinaryNames_shownTree (hlabels : ∀ label ∈ labels, Ordinary label) :
    OrdinaryNames labels shownTree := by
  refine ⟨fun s hs => ?_, hlabels⟩
  cases hs with
  | child h =>
    simp only [shownTree, List.mem_cons, List.not_mem_nil, or_false] at h
    rcases h with rfl | rfl <;>
      simpa only [CommandTree.leaf, List.forall_mem_singleton] using by decide +kernel
  | deeper hu h =>
    simp only [shownTree, List.mem_cons, List.not_mem_nil, or_false] at hu
    rcases hu with rfl | rfl <;> exact absurd h CommandTree.not_under_leaf

/-- A label is completed in the middle of a line. -/
theorem completion_fits_label :
    Text.splitAtByte? 9 "memory LO 5".toList = some ("memory LO".toList, " 5".toList) ∧
      complete shownTree ["LOOP"] "memory LO 5" 9 = some ⟨7, ["LOOP"], some "OP"⟩ ∧
      ∃ front, Text.utf8Size front = 7 ∧
        Fits "memory LO".toList front ["memory", "LO"] "LOOP" := by
  have hcursor : Text.splitAtByte? 9 "memory LO 5".toList =
      some ("memory LO".toList, " 5".toList) := by decide +kernel
  have hcomplete : complete shownTree ["LOOP"] "memory LO 5" 9 = some ⟨7, ["LOOP"], some "OP"⟩ := by
    cbv
  have hwords : typedWords "memory LO".toList = some ["memory", "LO"] := by decide +kernel
  have hnames : OrdinaryNames ["LOOP"] shownTree :=
    ordinaryNames_shownTree (List.forall_mem_singleton.2 (by decide +kernel))
  have hunmarked : "memory LO".toList.all (fun c => decide (Unmarked c)) = true := by
    decide +kernel
  refine ⟨hcursor, hcomplete, ?_⟩
  obtain ⟨c, hc, -, hspec⟩ := completion_fits_iff hnames hcursor
  rw [hcomplete] at hc
  cases hc
  obtain ⟨-, hplain, -, hfits, -⟩ := hspec _ hwords
  refine (hfits "LOOP" (List.mem_singleton_self _) (by decide)).2 (Or.inl (hplain fun c hc => ?_))
  exact of_decide_eq_true (List.all_eq_true.1 hunmarked c hc)

/-- Of a quoted word, only the last characters are replaced, with the quote after them. -/
theorem not_fits_quoted :
    OrdinaryNames [] shownTree ∧
      complete shownTree [] "'st'" 4 = some ⟨2, ["step"], some "ep"⟩ ∧
      typedWords "'st'".toList = some ["st"] ∧
      ∀ front, Text.utf8Size front = 2 → ¬Fits "'st'".toList front ["st"] "step" := by
  have hcomplete : complete shownTree [] "'st'" 4 = some ⟨2, ["step"], some "ep"⟩ := by cbv
  refine ⟨ordinaryNames_shownTree (List.forall_mem_nil _), hcomplete, by decide +kernel,
    fun front hsize hfits => ?_⟩
  obtain ⟨w, hw, hprefix⟩ := hfits.typed
  have hcut : Text.splitAtByte? 2 "'st'".toList = some (['\'', 's'], ['t', '\'']) := by
    decide +kernel
  rw [Text.splitAtByte?_eq_some_iff.2 ⟨hw, hsize⟩] at hcut
  cases hcut
  exact absurd hprefix (by decide +kernel)

end LittleComputer.Debugger
