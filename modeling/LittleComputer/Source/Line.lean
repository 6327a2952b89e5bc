import LittleComputer.Source.Mnemonic
import LittleComputer.Source.Operand
import LittleComputer.Text.Lines

/-!
# Lines of the source

A line has a label, an instruction or directive with its operands, and a comment, each of which may
be missing. A colon may follow the label. Without one, the first word of a line is a label unless it
is a mnemonic, a register, or has an operand after it that could be nothing else.
-/

namespace LittleComputer.Source

/-- The part of a line that takes up memory or steers the assembler. Names are kept as written. -/
inductive Content where
  | instruction (mnemonic : String) (operands : List Operand)
  | directive (name : String) (operands : List Operand)
deriving DecidableEq, Repr

structure Line where
  label : Option String
  content : Option Content
  /-- The comment with its semicolon. -/
  comment : Option String
deriving DecidableEq, Repr

/-- The token at which a line could not be read on. -/
structure Unreadable where
  token : String
deriving DecidableEq, Repr

/-- A word that can be defined as a label. -/
def labelName : Scanner String := fun s => do
  let (name, r) ← word s
  if isLabelName name then some (name, r) else none

/-- What follows a colon, which may have blanks before it. -/
def afterColon (s : List Char) : Option (List Char) :=
  match Text.skipBlanks s with
  | ':' :: r => some r
  | _ => none

/-- Whether a text starts with a blank and then a string, a number or a register. -/
def startsWithValue (s : List Char) : Bool :=
  match Text.skipSomeBlanks s with
  | some r => (string r).isSome || (number r).isSome || (register r).isSome
  | none => false

/-- The definition of a label. -/
def label : Scanner String := fun s => do
  let (name, r) ← labelName s
  match afterColon r with
  | some rest => some (name, rest)
  | none => if startsWithValue r then none else some (name, r)

/-- An instruction, or a directive after its dot. -/
def content : Scanner Content := fun s =>
  match s with
  | '.' :: t => do
    let (name, r) ← word t
    let (operands, rest) := operands r
    some (.directive name operands, rest)
  | s => do
    let (name, r) ← word s
    let (operands, rest) := operands r
    some (.instruction name operands, rest)

/-- A comment, from its semicolon to the end of the line. A carriage return is no end of a line on
its own, and a comment cannot contain one. -/
def comment : Scanner String := fun s =>
  match s with
  | ';' :: _ =>
    match s.dropWhile (!Text.isLineEnd ·) with
    | '\r' :: '\n' :: r => some (String.ofList (s.takeWhile (!Text.isLineEnd ·)), '\r' :: '\n' :: r)
    | '\r' :: _ => none
    | r => some (String.ofList (s.takeWhile (!Text.isLineEnd ·)), r)
  | _ => none

/-- A value that may be missing, and the text after it. -/
def optional {α : Type} (p : Scanner α) (s : List Char) : Option α × List Char :=
  match p s with
  | some (a, r) => (some a, r)
  | none => (none, s)

namespace Line

/-- Take a line as far as it can be read. -/
def scan (s : List Char) : Line × List Char :=
  let (label, s) := optional Source.label (Text.skipBlanks s)
  let (content, s) := optional Source.content (if label.isSome then Text.skipBlanks s else s)
  let (comment, s) := optional Source.comment (Text.skipBlanks s)
  (⟨label, content, comment⟩, s)

/-- The first token of an unread text, which is cut off at a comma, a semicolon or white space. Any
commas before it are left out, unless there is nothing else. -/
def offendingToken (rest : List Char) : List Char :=
  let rest := Text.trim rest
  let token := Text.trimStart (rest.dropWhile (· == ','))
  let token := token.takeWhile fun c => !(c == ',' || c == ';' || Text.isSpace c)
  if token.isEmpty then rest else token

/-- Read a line, of which only white space may be left over. -/
def parse (s : List Char) : Except Unreadable Line :=
  let (line, rest) := scan s
  if rest.all Text.isSpace then .ok line else .error ⟨String.ofList (offendingToken rest)⟩

/-- A text is a line if white space is all that is left of it. -/
theorem parse_eq_ok_iff {s : List Char} {line : Line} :
    parse s = .ok line ↔ (scan s).1 = line ∧ (scan s).2.all Text.isSpace = true := by
  unfold parse
  obtain ⟨first, rest⟩ := scan s
  by_cases h : rest.all Text.isSpace = true
  · simp [h]
  · simp [h]

end Line

end LittleComputer.Source
