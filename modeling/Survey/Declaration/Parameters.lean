/-
# Parameters

A parameter list is split at its commas outside brackets, and every piece into tokens at its
blanks outside brackets.  When the brackets of the list do not balance, it is split at all its
commas and blanks instead.  In a piece, the last two plain tokens are type and name; a piece with
fewer is no parameter.
-/
import Survey.Declaration.Basic
import Survey.Text.Bracket

namespace Survey.Parameter

open Survey.Text

/-- The name of the annotation that a token writes, if it writes one. -/
def annotationName? : List Char → Option String
  | '@' :: name => some (String.ofList (name.takeWhile (· != '(')))
  | _ => none

/-- Whether a token is neither an annotation nor the keyword `final`. -/
def isPlain (token : List Char) : Bool :=
  (annotationName? token).isNone && token != "final".toList

/-- The parameter that some tokens write, if they write one. -/
def ofTokens? (tokens : List (List Char)) : Option Parameter :=
  match (tokens.filter isPlain).reverse with
  | name :: declaredType :: _ =>
    some {
      name := String.ofList name
      declaredType := String.ofList declaredType
      isFinal := tokens.contains "final".toList
      annotations := tokens.filterMap annotationName? }
  | _ => none

/-- The parameters of a list. -/
def parseList (text : List Char) : List Parameter :=
  match splitTopLevel? ',' text with
  | some pieces => pieces.filterMap fun piece => ofTokens? (tokens piece)
  | none => (splitCommas text).filterMap fun piece => ofTokens? (words piece)

end Survey.Parameter
