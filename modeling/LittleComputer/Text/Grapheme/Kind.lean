import LittleComputer.Text.Grapheme.Conjunct
import LittleComputer.Text.Grapheme.Mark
import LittleComputer.Text.Grapheme.Pictograph

/-!
# Kinds of characters

What a reader takes for one character can be several in a row. Whether two neighbours belong
together follows from their kinds, and for a few kinds from what stands before them as well.
-/

namespace LittleComputer.Text.Grapheme

/-- What a character is to its neighbours. -/
inductive Kind where
  | carriageReturn
  | lineFeed
  | control
  /-- A mark that is drawn on the character before it. -/
  | extending
  /-- A mark that is drawn beside the character before it. -/
  | spacing
  /-- The mark that joins two pictographs. -/
  | joiner
  /-- A sign that is drawn with the character after it. -/
  | leading
  /-- A letter that stands for half of a flag. -/
  | regional
  /-- A consonant before the vowel of a Korean syllable. -/
  | initial
  /-- A vowel of a Korean syllable. -/
  | medial
  /-- A consonant after the vowel of a Korean syllable. -/
  | final
  /-- A Korean syllable that ends in its vowel. -/
  | openSyllable
  /-- A Korean syllable that ends in a consonant. -/
  | closedSyllable
  | pictograph
  /-- A consonant of a script with conjuncts. -/
  | consonant
  | plain
deriving DecidableEq, Repr

/-- Control and format characters, and the code points kept for more of them. -/
def controlRanges : CodeRanges := [
  (0x0, 0x1F), (0x7F, 0x9F), (0xAD, 0xAD), (0x61C, 0x61C), (0x180E, 0x180E), (0x200B, 0x200B),
  (0x200E, 0x200F), (0x2028, 0x202E), (0x2060, 0x206F), (0xFEFF, 0xFEFF), (0xFFF0, 0xFFFB),
  (0x13430, 0x1343F), (0x1BCA0, 0x1BCA3), (0x1D173, 0x1D17A), (0xE0000, 0xE001F),
  (0xE0080, 0xE00FF), (0xE01F0, 0xE0FFF)]

def regionalRanges : CodeRanges := [(0x1F1E6, 0x1F1FF)]

def initialRanges : CodeRanges := [(0x1100, 0x115F), (0xA960, 0xA97C)]

def medialRanges : CodeRanges := [
  (0x1160, 0x11A7), (0xD7B0, 0xD7C6), (0x16D63, 0x16D63), (0x16D67, 0x16D6A)]

def finalRanges : CodeRanges := [(0x11A8, 0x11FF), (0xD7CB, 0xD7FB)]

def syllableRanges : CodeRanges := [(0xAC00, 0xD7A3)]

/-- The kind of a Korean syllable. The 28 syllables that begin alike stand in a row, and the first
of them ends in its vowel. -/
def syllableKind (c : Char) : Kind :=
  if (c.toNat - 0xAC00) % 28 = 0 then .openSyllable else .closedSyllable

/-- The kind of a character. -/
def kindOf (c : Char) : Kind :=
  if c = '\r' then .carriageReturn
  else if c = '\n' then .lineFeed
  else if c = '\u200d' then .joiner
  else if controlRanges.covers c then .control
  else if c.toNat < 0x80 then .plain
  else if extendingRanges.covers c then .extending
  else if spacingRanges.covers c then .spacing
  else if leadingRanges.covers c then .leading
  else if regionalRanges.covers c then .regional
  else if initialRanges.covers c then .initial
  else if medialRanges.covers c then .medial
  else if finalRanges.covers c then .final
  else if syllableRanges.covers c then syllableKind c
  else if pictographRanges.covers c then .pictograph
  else if consonantRanges.covers c then .consonant
  else .plain

namespace Kind

/-- Whether a character of this kind belongs with no other, except a line feed after a carriage
return. -/
def standsAlone : Kind → Bool
  | carriageReturn | lineFeed | control => true
  | _ => false

/-- Whether a character of this kind belongs with the one before it. -/
def isMark : Kind → Bool
  | extending | spacing | joiner => true
  | _ => false

/-- Whether two neighbours are parts of one Korean syllable. -/
def inOneSyllable : Kind → Kind → Bool
  | initial, initial | initial, medial | initial, openSyllable | initial, closedSyllable => true
  | medial, medial | medial, final | openSyllable, medial | openSyllable, final => true
  | final, final | closedSyllable, final => true
  | _, _ => false

end Kind

end LittleComputer.Text.Grapheme
