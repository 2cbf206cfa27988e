/-
# Called names

A call shows as a name in front of an opening parenthesis.  Names of created objects and control
keywords are left out, and every name is listed once, where it occurs first.
-/
import Survey.Declaration.Shapes
import Survey.Distinct

namespace Survey

/-- The name that a match of the call shape calls, if it calls one. -/
def calledName? (m : Match) : Option String :=
  let name := String.ofList (m.groupText 2)
  if (m.group? 1).isSome || Shape.nonCallKeywords.contains name then none else some name

/-- The names called in a text, each once, in order of their first occurrence. -/
def calledNames (text : List Char) : List String :=
  distinct ((Shape.call.findAll text).filterMap calledName?)

end Survey
