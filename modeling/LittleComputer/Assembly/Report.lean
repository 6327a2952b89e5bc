import LittleComputer.Assembly.Error
import LittleComputer.Text.Lines
import LittleComputer.Text.Utf8

/-!
# Reports on errors

An error is reported with the place in the source that it is about: its line, without the line end,
by its bytes.
-/

namespace LittleComputer.Assembly

/-- A range of bytes. -/
structure Span where
  offset : Nat
  size : Nat
deriving DecidableEq, Repr

/-- The place of a line of a source, or the end of the source if there is no such line. Lines are
numbered from one. -/
def lineSpan (source : List Char) (line : Nat) : Span :=
  let pieces := Text.pieces source
  { offset := Text.utf8Size (pieces.take (line - 1)).flatten
    size := Text.utf8Size (Text.trimLineEnds ((pieces.drop (line - 1)).headD [])) }

structure Report where
  span : Span
  /-- What is wrong there. -/
  label : String
  code : String
  advice : Option String
deriving DecidableEq, Repr

namespace Report

/-- The report of an error in a source. -/
def ofError (source : String) (e : Error) : Report where
  span := lineSpan source.toList e.line
  label := e.cause.message
  code := e.cause.code
  advice := e.cause.advice?

/-- The report in a few lines. -/
def text (path : String) (r : Report) : String :=
  let place := s!"{path}, bytes {r.span.offset} to {r.span.offset + r.span.size}"
  let advice :=
    match r.advice with
    | some advice => s!"  help: {advice}\n"
    | none => ""
  s!"{r.code}: Failed to assemble program\n  {place}: {r.label}\n{advice}"

end Report

end LittleComputer.Assembly
