/-
# Lines

A text is cut into lines at its newlines, and a line index turns a byte offset into the number of
its line.  The index lists where the lines start; a line number is the number of starts that are
not above the offset, so the first line has the number one and every offset, also one beyond the
end, has a line.
-/
import Survey.Text.Blank
import Survey.Text.Utf8

namespace Survey.Text

/-- The lines of a text, without their newlines. -/
def lines (text : List Char) : List (List Char) := cutAt (· == '\n') text

/-- The byte offsets one past the newlines of a text that starts at a given offset. -/
def lineStartsFrom (offset : Nat) : List Char → List Nat
  | [] => []
  | c :: rest =>
    let next := offset + c.utf8Size
    if c = '\n' then next :: lineStartsFrom next rest else lineStartsFrom next rest

/-- The byte offsets at which the lines of one text start, in increasing order. -/
structure LineIndex where
  /-- The starts; the first is zero. -/
  starts : List Nat
deriving DecidableEq, Repr

/-- The line index of a text. -/
def LineIndex.ofText (text : List Char) : LineIndex := ⟨0 :: lineStartsFrom 0 text⟩

/-- The number of the line that holds an offset, counted from one. -/
def LineIndex.lineOf (index : LineIndex) (offset : Nat) : Nat :=
  (index.starts.takeWhile (· ≤ offset)).length

/-- The offset at which the line that holds an offset starts. -/
def LineIndex.lineStart (index : LineIndex) (offset : Nat) : Nat :=
  index.starts.getD (index.lineOf offset - 1) 0

/-- The number of newlines of a text. -/
def newlineCount (text : List Char) : Nat := text.count '\n'

end Survey.Text
