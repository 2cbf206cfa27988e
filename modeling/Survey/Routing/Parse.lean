/-
# Reading a routing document

Routes are the elements `action-mapping`, or the elements `action` where there is none of the
first.  A route needs a path, a form bean a name and a type, a forward a name and a path; an empty
value is none.  Forwards and properties are found anywhere inside their element.
-/
import Survey.Failure
import Survey.Markup.Parse
import Survey.Routing.Basic

namespace Survey

open Survey.Markup

/-- The names of the elements that can be routes; the first that occurs counts. -/
def routeTags : List String := ["action-mapping", "action"]

/-- The value of an attribute, unless it is empty. -/
def filledAttribute? (name : String) (node : Node) : Option String :=
  (node.attribute? name).filter (· != "")

/-- The name and the path of a forward. -/
def forwardPair? (node : Node) : Option (String × String) :=
  match filledAttribute? "name" node, filledAttribute? "path" node with
  | some name, some path => some (name, path)
  | _, _ => none

/-- The names and paths of the forwards in an element, in document order. -/
def forwardPairs (node : Node) : List (String × String) :=
  (node.elementsNamed "forward").filterMap forwardPair?

/-- The route that an element declares, if it has a path. -/
def Route.ofNode? (node : Node) : Option Route :=
  (filledAttribute? "path" node).map fun path =>
    { path
      handlerTypeName := (node.attribute? "type").getD ""
      name := node.attribute? "name"
      scope := node.attribute? "scope"
      inputPage := node.attribute? "input"
      forwards := .ofPairs (forwardPairs node) }

/-- The form bean that an element declares, if it has a name and a type. -/
def FormBean.ofNode? (node : Node) : Option FormBean :=
  match filledAttribute? "name" node, filledAttribute? "type" node with
  | some name, some typeName =>
    some {
      name
      typeName
      properties := (node.elementsNamed "form-property").filterMap (filledAttribute? "name") }
  | _, _ => none

/-- The elements that are routes. -/
def routeNodes (document : Document) : List Node :=
  ((routeTags.map fun tag => document.elementsNamed tag).find? (!·.isEmpty)).getD []

/-- The forwards of the sections that every route shares, one section after the other. -/
def sharedForwards (document : Document) : Forwards :=
  (document.elementsNamed "global-forwards").foldl
    (fun forwards node => forwards.insertMany (Registry.ofPairs (forwardPairs node)).toList) ∅

/-- What a document declares. -/
def Routing.ofDocument (document : Document) : Routing where
  routes := (routeNodes document).filterMap Route.ofNode?
  formBeans := (document.elementsNamed "form-bean").filterMap FormBean.ofNode?
  globalForwards := sharedForwards document

/-- What a routing document declares. -/
def Routing.parse (source path : String) : Except Failure Routing :=
  match Document.parse? source.toList with
  | some document => .ok (ofDocument document)
  | none => .error ⟨path, .malformedRouting source⟩

/-- What a routing document declares; nothing when it is malformed. -/
def Routing.parseOrEmpty (source path : String) : Routing :=
  match parse source path with
  | .ok routing => routing
  | .error _ => empty

end Survey
