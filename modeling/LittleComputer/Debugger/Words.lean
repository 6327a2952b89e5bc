/-!
# Words of a command

A command line is split into words as a shell does it. Spaces, tabs and line feeds separate words.
Between single quotes everything is literal. Between double quotes a backslash is special only
before a dollar sign, a backquote, a double quote, a backslash or a line feed; outside quotes it is
before every character. A backslash and a line feed are left out, and a backslash at the end of the
line is one. A `#` at the start of a word starts a comment.
-/

namespace LittleComputer.Debugger

/-- Where in a line a character stands. -/
inductive Mode where
  | between
  /-- After a backslash that starts a word. -/
  | betweenEscape
  | word
  | wordEscape
  | single
  | double
  | doubleEscape
  | comment
deriving DecidableEq, Repr

def isSeparator (c : Char) : Bool := c == ' ' || c == '\t' || c == '\n'

/-- The characters that a backslash between double quotes is special before. -/
def isDoubleSpecial (c : Char) : Bool := c == '$' || c == '\x60' || c == '"' || c == '\\'

/-- Split the rest of a line, given the characters of the current word in reverse. -/
def splitFrom : Mode → List Char → List Char → Option (List String)
  | .between, _, [] => some []
  | .between, _, c :: r =>
    if c = '\'' then splitFrom .single [] r
    else if c = '"' then splitFrom .double [] r
    else if c = '\\' then splitFrom .betweenEscape [] r
    else if isSeparator c then splitFrom .between [] r
    else if c = '#' then splitFrom .comment [] r
    else splitFrom .word [c] r
  | .betweenEscape, w, [] => some [String.ofList ('\\' :: w).reverse]
  | .betweenEscape, w, c :: r =>
    if c = '\n' then splitFrom .between [] r else splitFrom .word (c :: w) r
  | .word, w, [] => some [String.ofList w.reverse]
  | .word, w, c :: r =>
    if c = '\'' then splitFrom .single w r
    else if c = '"' then splitFrom .double w r
    else if c = '\\' then splitFrom .wordEscape w r
    else if isSeparator c then (splitFrom .between [] r).map (String.ofList w.reverse :: ·)
    else splitFrom .word (c :: w) r
  | .wordEscape, w, [] => some [String.ofList ('\\' :: w).reverse]
  | .wordEscape, w, c :: r =>
    if c = '\n' then splitFrom .word w r else splitFrom .word (c :: w) r
  | .single, _, [] => none
  | .single, w, c :: r =>
    if c = '\'' then splitFrom .word w r else splitFrom .single (c :: w) r
  | .double, _, [] => none
  | .double, w, c :: r =>
    if c = '"' then splitFrom .word w r
    else if c = '\\' then splitFrom .doubleEscape w r
    else splitFrom .double (c :: w) r
  | .doubleEscape, _, [] => none
  | .doubleEscape, w, c :: r =>
    if c = '\n' then splitFrom .double w r
    else if isDoubleSpecial c then splitFrom .double (c :: w) r
    else splitFrom .double (c :: '\\' :: w) r
  | .comment, _, [] => some []
  | .comment, _, c :: r =>
    if c = '\n' then splitFrom .between [] r else splitFrom .comment [] r

/-- The words of a line, unless a quote is open at its end. -/
def splitWords (line : List Char) : Option (List String) := splitFrom .between [] line

end LittleComputer.Debugger
