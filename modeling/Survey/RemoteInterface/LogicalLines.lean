/-
# Logical lines

An interface definition document is read in logical lines.  Comments are taken out; a line ends at
a newline, behind an opening brace or a semicolon, and before a closing brace.  Lines are trimmed
and empty ones dropped, so a document written on one line reads like one written on many.
-/
import Survey.Text.Blank

namespace Survey

namespace LogicalLines

/-- The kind of text at a character. -/
inductive Mode where
  /-- Code. -/
  | code
  /-- Behind the slash that opens a comment up to the end of the line. -/
  | lineOpening
  /-- A comment up to the end of the line. -/
  | lineComment
  /-- Behind the slash that opens a comment with an end of its own. -/
  | blockOpening
  /-- A comment up to its end. -/
  | blockComment
  /-- Behind the star that ends a comment; the slash is still to come. -/
  | blockClosing
deriving DecidableEq, Repr

/-- What has been read: the finished lines and the current one, both with the latest first. -/
structure Reading where
  /-- The kind of text that comes next. -/
  mode : Mode
  /-- The finished lines, the latest first. -/
  finished : List (List Char)
  /-- The characters of the current line, the latest first. -/
  current : List Char
deriving DecidableEq, Repr

namespace Reading

/-- The state before the first character. -/
def start : Reading := ⟨.code, [], []⟩

/-- Ends the current line and keeps it unless it is empty. -/
def flush (r : Reading) : Reading :=
  let line := Text.trim r.current.reverse
  if line.isEmpty then { r with current := [] }
  else { r with finished := line :: r.finished, current := [] }

/-- Adds a character to the current line. -/
def push (r : Reading) (c : Char) : Reading := { r with current := c :: r.current }

/-- Reads a character of code, given the character after it. -/
def readCode (r : Reading) (c : Char) (following : Option Char) : Reading :=
  if c = '/' ∧ following = some '/' then { r with mode := .lineOpening }
  else if c = '/' ∧ following = some '*' then { r with mode := .blockOpening }
  else if c = '{' ∨ c = ';' then (r.push c).flush
  else if c = '}' then r.flush.push c
  else r.push c

/-- Reads a character, given the character after it. -/
def read (r : Reading) (c : Char) (following : Option Char) : Reading :=
  match r.mode with
  | .lineOpening => { r with mode := .lineComment }
  | .blockOpening => { r with mode := .blockComment }
  | .blockClosing => { r with mode := .code }
  | .code => if c = '\n' then r.flush else r.readCode c following
  | .lineComment => if c = '\n' then { r.flush with mode := .code } else r
  | .blockComment =>
    if c = '\n' then r.flush
    else if c = '*' ∧ following = some '/' then { r with mode := .blockClosing }
    else r

/-- Reads a text to its end. -/
def readAll : Reading → List Char → Reading
  | r, [] => r.flush
  | r, c :: rest => readAll (r.read c rest.head?) rest

end Reading

end LogicalLines

/-- The logical lines of a document. -/
def logicalLines (text : List Char) : List (List Char) :=
  (LogicalLines.Reading.start.readAll text).finished.reverse

end Survey
