/-
# Bodies of methods

The body of a method is the block that follows its head, with only blanks in between.  It reaches
to the brace that closes it, or to the end of the unit when nothing does.
-/
import Survey.Declaration.Block
import Survey.Declaration.Calls
import Survey.Declaration.Source

namespace Survey.Body

open Survey.Text

/-- The text of the block that opens at a byte offset. -/
def textFrom (source : Source) (start : Nat) : List Char :=
  match Block.closingBraceIn? source.bytes start with
  | some close => (slice? source.text start (close + 1)).getD []
  | none => (dropBytes? start source.text).getD []

/-- The body that follows a byte offset; none when no block follows. -/
def after? (source : Source) (offset : Nat) : Option (List Char) :=
  let rest := (dropBytes? offset source.text).getD []
  match trimStart rest with
  | '{' :: _ => some (textFrom source (offset + byteLength (rest.takeWhile isBlank)))
  | _ => none

/-- The number of lines that a body covers. -/
def lineCount : Option (List Char) → Nat
  | some body => newlineCount body + 1
  | none => 0

/-- The names called in a body, behind its opening brace. -/
def calls : Option (List Char) → List String
  | some body => calledNames (body.drop 1)
  | none => []

end Survey.Body
