/-
# Source units

The text of a source unit is looked up at many places: by bytes for blocks, by lines for
annotations, and by offsets for line numbers.  A source keeps these views of one text side by side.
-/
import Survey.Text.Lines

namespace Survey

open Survey.Text

/-- The text of a source unit and the views of it. -/
structure Source where
  /-- The text. -/
  text : List Char
  /-- The bytes of the text. -/
  bytes : List UInt8
  /-- The lines of the text. -/
  lines : List (List Char)
  /-- The line index of the text. -/
  index : LineIndex
deriving DecidableEq, Repr

namespace Source

/-- The source of a text. -/
def ofText (text : List Char) : Source := ⟨text, utf8 text, Text.lines text, .ofText text⟩

@[simp] theorem text_ofText (text : List Char) : (ofText text).text = text := rfl

@[simp] theorem bytes_ofText (text : List Char) : (ofText text).bytes = utf8 text := rfl

@[simp] theorem lines_ofText (text : List Char) : (ofText text).lines = Text.lines text := rfl

@[simp] theorem index_ofText (text : List Char) : (ofText text).index = .ofText text := rfl

end Source

end Survey
