/-
# Routing

A routing document binds request paths to handler types, names form beans, and lists forwards:
names of outcomes with the paths they lead to.
-/
import Survey.Registry

namespace Survey

/-- Names of outcomes with the paths they lead to, in the order in which the names came first. -/
abbrev Forwards : Type := Registry String String

/-- A request path with its handler. -/
structure Route where
  /-- The request path. -/
  path : String
  /-- The name of the handler type; empty when none is given. -/
  handlerTypeName : String
  /-- The name of the form bean bound to the route. -/
  name : Option String
  /-- The scope of the form bean. -/
  scope : Option String
  /-- The page that the route takes its input from. -/
  inputPage : Option String
  /-- The forwards of the route. -/
  forwards : Forwards
deriving DecidableEq, Repr

/-- A named form. -/
structure FormBean where
  /-- Its name. -/
  name : String
  /-- The name of its type. -/
  typeName : String
  /-- The names of its properties in document order. -/
  properties : List String
deriving DecidableEq, Repr

/-- Everything that one routing document declares. -/
structure Routing where
  /-- The routes in document order. -/
  routes : List Route
  /-- The form beans in document order. -/
  formBeans : List FormBean
  /-- The forwards that every route shares. -/
  globalForwards : Forwards
deriving DecidableEq, Repr

/-- The routing of a document that declares nothing. -/
def Routing.empty : Routing := ⟨[], [], ∅⟩

end Survey
