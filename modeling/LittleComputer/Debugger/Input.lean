import LittleComputer.Debugger.Words
import LittleComputer.Text.Grapheme
import LittleComputer.Text.Lines
import LittleComputer.Text.Utf8

/-!
# Command lines

The debugger reads its commands line by line. A backspace takes back the grapheme before it. A line
that leaves a quote open goes on in the next one, with the line end between them; if there is no
next one, it is not a line at all.

The size of a grapheme is kept in one byte. Of a grapheme of 256 bytes or more, a backspace takes
back only as many bytes as its size modulo 256.
-/

namespace LittleComputer.Debugger

/-- What has been typed of a line. -/
structure Typed where
  /-- The characters that are left, in reverse. -/
  kept : List Char := []
  /-- The sizes of the graphemes that a backspace can take back, the last one first. -/
  sizes : List Nat := []
deriving DecidableEq, Repr

/-- The size of a grapheme in bytes, as far as one byte holds it. -/
def graphemeSize (grapheme : List Char) : Nat := Text.utf8Size grapheme % 256

/-- Take characters off a text while they fit into a number of bytes. -/
def dropBytes : Nat → List Char → List Char
  | _, [] => []
  | n, c :: r => if c.utf8Size ≤ n then dropBytes (n - c.utf8Size) r else c :: r

namespace Typed

/-- Take back the last grapheme, if there is one. -/
def takeBack (t : Typed) : Typed :=
  match t.sizes with
  | [] => t
  | n :: sizes => ⟨dropBytes n t.kept, sizes⟩

/-- Enter one more grapheme, which can be a backspace. -/
def enter (t : Typed) (grapheme : List Char) : Typed :=
  if grapheme = ['\x08'] then t.takeBack
  else ⟨grapheme.reverse ++ t.kept, graphemeSize grapheme :: t.sizes⟩

end Typed

/-- Take back the grapheme before each backspace. -/
def applyBackspaces (text : List Char) : List Char :=
  ((Text.graphemes text).foldl Typed.enter {}).kept.reverse

/-- The text of a line, and the line end after it. -/
def splitLineEnd (text : List Char) : List Char × List Char :=
  match text.reverse with
  | '\n' :: '\r' :: r => (r.reverse, ['\r', '\n'])
  | '\n' :: r => (r.reverse, ['\n'])
  | _ => (text, [])

/-- What has been read of a command line. -/
inductive Reading where
  | complete (line : List Char)
  | incomplete (text : List Char)
deriving DecidableEq, Repr

/-- Add a line of the input, with its line end, to what has been read before it. -/
def readPiece (text piece : List Char) : Reading :=
  let (text, lineEnd) := splitLineEnd (text ++ piece)
  let line := applyBackspaces text
  if (splitWords line).isSome then .complete line else .incomplete (line ++ lineEnd)

/-- The command lines of an input given line by line, after what has been read before. -/
def commandLinesFrom (text : List Char) : List (List Char) → List (List Char)
  | [] => []
  | piece :: rest =>
    match readPiece text piece with
    | .complete line => line :: commandLinesFrom [] rest
    | .incomplete text => commandLinesFrom text rest

/-- The command lines of an input. -/
def commandLines (input : List Char) : List (List Char) := commandLinesFrom [] (Text.pieces input)

end LittleComputer.Debugger
