/-
# Brackets and splitting

The three kinds of brackets `<>`, `()` and `[]` share one depth.  A list is split at separators of
depth zero, so that `Map<String, Integer> m` stays one piece; when the brackets do not balance
there is no such split and the caller decides what else to do.  Blanks of depth zero separate
tokens in the same way, whether the brackets balance or not.

The depth is counted in a word of 32 bits.  Behind the largest depth, `2 ^ 31 - 1`, one more bracket
makes it negative.
-/
import Survey.Text.Blank

namespace Survey.Text

/-- What a character adds to the bracket depth. -/
def depthChange (c : Char) : Int32 :=
  if c = '<' ∨ c = '(' ∨ c = '[' then 1
  else if c = '>' ∨ c = ')' ∨ c = ']' then -1
  else 0

/-- The pieces of a text between the separators of depth zero, starting from a given depth; none
when the depth falls below zero or does not end at zero. -/
def piecesFrom? (separator : Char) (depth : Int32) : List Char → Option (List (List Char))
  | [] => if depth = 0 then some [[]] else none
  | c :: rest =>
    if c = separator ∧ depth = 0 then (piecesFrom? separator depth rest).map ([] :: ·)
    else if depth + depthChange c < 0 then none
    else (piecesFrom? separator (depth + depthChange c) rest).map (consHead c)

/-- The pieces, trimmed, that are not empty. -/
def tidy (pieces : List (List Char)) : List (List Char) := nonEmpty (pieces.map trim)

/-- The pieces of a text between the separators of depth zero, if its brackets balance. -/
def splitTopLevel? (separator : Char) (text : List Char) : Option (List (List Char)) :=
  (piecesFrom? separator 0 text).map tidy

/-- The pieces of a text between all its commas. -/
def splitCommas (text : List Char) : List (List Char) := tidy (cutAt (· == ',') text)

/-- The items of a list: the pieces between the commas of depth zero, or between all commas when
the brackets do not balance. -/
def splitList (text : List Char) : List (List Char) :=
  (splitTopLevel? ',' text).getD (splitCommas text)

/-- The pieces of a text between the blanks of depth zero or below. -/
def piecesAtBlanks (depth : Int32) : List Char → List (List Char)
  | [] => [[]]
  | c :: rest =>
    if isBlank c ∧ depth ≤ 0 then [] :: piecesAtBlanks depth rest
    else consHead c (piecesAtBlanks (depth + depthChange c) rest)

/-- The tokens of a text: what lies between its blanks outside all brackets. -/
def tokens (text : List Char) : List (List Char) := nonEmpty (piecesAtBlanks 0 text)

end Survey.Text
