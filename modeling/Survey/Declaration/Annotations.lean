/-
# Annotations

The annotations of a declaration stand above it, on lines of their own, and in front of it on its
own line.  Going upwards, blank lines and comment lines are passed over, and the first line that
shows no annotation ends the search.  When another statement ends on the line of the declaration,
the lines above belong to that statement, and only the text behind it counts.
-/
import Survey.Declaration.Shapes
import Survey.Declaration.Source

namespace Survey.Annotations

open Survey.Text

/-- The names of the annotations in a text, in order. -/
def namesIn (text : List Char) : List String :=
  (Shape.annotationMark.findAll text).map fun m => String.ofList (m.groupText 1)

/-- Whether a trimmed line begins or continues a comment. -/
def isCommentLine (line : List Char) : Bool :=
  ['/', '/'].isPrefixOf line || ['/', '*'].isPrefixOf line || ['*'].isPrefixOf line

/-- Whether a trimmed line says nothing about annotations: it is empty or a comment. -/
def isPassedOver (line : List Char) : Bool := line.isEmpty || isCommentLine line

/-- The annotations on the lines above a place, the nearest line given first. -/
def namesAbove : List (List Char) → List String
  | [] => []
  | line :: above =>
    if isPassedOver (trim line) then namesAbove above
    else
      match namesIn (trim line) with
      | [] => []
      | name :: names => namesAbove above ++ name :: names

/-- The annotations above the line with a given index, counted from zero. -/
def namesBefore (lines : List (List Char)) (index : Nat) : List String :=
  namesAbove (lines.take index).reverse

/-- Whether a character ends a statement or opens or closes a block. -/
def isStatementBoundary (c : Char) : Bool := c == ';' || c == '{' || c == '}'

/-- The text after the last statement boundary, and whether there is a boundary at all. -/
def afterLastBoundary (text : List Char) : List Char × Bool :=
  ((text.reverse.takeWhile (!isStatementBoundary ·)).reverse, text.any isStatementBoundary)

/-- The annotations of the declaration that starts at a byte offset of a source. -/
def namesAt (source : Source) (offset : Nat) : List String :=
  let lineText := (slice? source.text (source.index.lineStart offset) offset).getD []
  let (ownText, sharesLine) := afterLastBoundary lineText
  let above :=
    if sharesLine then [] else namesBefore source.lines (source.index.lineOf offset - 1)
  above ++ namesIn ownText

end Survey.Annotations
