import LittleComputer.Text.Grapheme.Kind

/-!
# Graphemes

A grapheme is what a reader takes for one character: a letter with its accents, a syllable, a flag,
a picture of several parts. A text is cut into graphemes from its start. The last one may grow by
the next character, and whether it does depends on that character and on what it holds so far.

Main statement: joined again, the graphemes are the text (`flatten_graphemes`).
-/

namespace LittleComputer.Text

namespace Grapheme

/-- Whether a grapheme, given in reverse, ends in a pictograph or in marks on one. -/
def endsInPictograph (grapheme : List Char) : Bool :=
  ((grapheme.dropWhile (kindOf · == .extending)).head?.map kindOf) == some .pictograph

/-- Whether a grapheme, given in reverse, ends in an odd number of halves of flags. -/
def endsInHalfFlag (grapheme : List Char) : Bool :=
  (grapheme.takeWhile (kindOf · == .regional)).length % 2 == 1

/-- Whether a character can stand between the two consonants of a conjunct. -/
def isConjunctMark (c : Char) : Bool :=
  kindOf c == .joiner || kindOf c == .extending && c != '\u200c'

/-- Whether a grapheme, given in reverse, ends in a consonant and marks on it, of which one binds
the next consonant. -/
def endsInLinkedConsonant (grapheme : List Char) : Bool :=
  (grapheme.takeWhile isConjunctMark).any isLinker &&
    ((grapheme.dropWhile isConjunctMark).head?.map kindOf) == some .consonant

/-- Whether a character belongs to the grapheme before it, which is given in reverse. -/
def joins (grapheme : List Char) (next : Char) : Bool :=
  match grapheme with
  | [] => true
  | last :: before =>
    let a := kindOf last
    let b := kindOf next
    if a == .carriageReturn && b == .lineFeed then true
    else if a.standsAlone || b.standsAlone then false
    else
      b.isMark || a == .leading || a.inOneSyllable b ||
        a == .joiner && b == .pictograph && endsInPictograph before ||
        a == .regional && b == .regional && endsInHalfFlag grapheme ||
        b == .consonant && endsInLinkedConsonant grapheme

end Grapheme

/-- The graphemes of a text, given what there is of the first one in reverse. -/
def graphemesFrom (grapheme : List Char) : List Char → List (List Char)
  | [] => if grapheme.isEmpty then [] else [grapheme.reverse]
  | c :: r =>
    if Grapheme.joins grapheme c then graphemesFrom (c :: grapheme) r
    else grapheme.reverse :: graphemesFrom [c] r

/-- The graphemes of a text, in order. -/
def graphemes (s : List Char) : List (List Char) := graphemesFrom [] s

/-- No character is lost between clusters. -/
theorem flatten_graphemesFrom (grapheme s : List Char) :
    (graphemesFrom grapheme s).flatten = grapheme.reverse ++ s := by
  induction s generalizing grapheme with
  | nil =>
    unfold graphemesFrom
    cases grapheme <;> simp
  | cons c r ih =>
    unfold graphemesFrom
    split <;> simp [ih]

/-- The clusters of a text make up the text. -/
@[simp] theorem flatten_graphemes (s : List Char) : (graphemes s).flatten = s :=
  flatten_graphemesFrom [] s

end LittleComputer.Text
