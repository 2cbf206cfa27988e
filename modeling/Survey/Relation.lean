/-
# Relations

The edges of the graph that a model describes: what types extend and implement, the methods of
types and what they call, and the handlers and form beans of routes.  Ends of edges are names as
they are written.
-/
import Survey.Signature

namespace Survey

/-- What an edge says of its two ends. -/
inductive RelationKind where
  /-- A type extends another. -/
  | extendsType
  /-- A type implements another. -/
  | implementsType
  /-- A method belongs to a type. -/
  | methodOf
  /-- A method calls a name. -/
  | calls
  /-- A route has a handler. -/
  | handlesRoute
  /-- A route uses a form bean. -/
  | usesFormBean
deriving DecidableEq, Repr

/-- The word for a kind of edge. -/
def RelationKind.label : RelationKind → String
  | .extendsType => "extends"
  | .implementsType => "implements"
  | .methodOf => "method_of"
  | .calls => "calls"
  | .handlesRoute => "handles_route"
  | .usesFormBean => "uses_form_bean"

/-- An edge between two names. -/
structure RelationEdge where
  /-- Where the edge starts. -/
  source : String
  /-- Where the edge ends. -/
  target : String
  /-- What the edge says. -/
  kind : RelationKind
deriving DecidableEq, Repr

/-- The edges of a method: to its type, then to the names that it calls. -/
def TypeDeclaration.methodEdges (type : TypeDeclaration) (method : Method) : List RelationEdge :=
  let source := type.memberName method.name
  ⟨source, type.qualifiedName, .methodOf⟩ ::
    method.calledNames.map fun callee => ⟨source, callee, .calls⟩

/-- The edges of a type and its methods. -/
def TypeDeclaration.edges (type : TypeDeclaration) : List RelationEdge :=
  (type.superclassName.toList.map fun name => ⟨type.qualifiedName, name, .extendsType⟩) ++
    (type.implementedNames.map fun name => ⟨type.qualifiedName, name, .implementsType⟩) ++
    type.methods.flatMap type.methodEdges

/-- The edges of a route that stands under a path. -/
def Route.edges (path : String) (route : Route) : List RelationEdge :=
  ⟨path, route.handlerTypeName, .handlesRoute⟩ ::
    (route.name.toList.filter (· != "")).map fun bean => ⟨path, bean, .usesFormBean⟩

/-- The edges of the routes, in the order of their paths. -/
def Model.routeEdges (model : Model) : List RelationEdge :=
  (model.routes.toList.mergeSort fun a b => a.1 ≤ b.1).flatMap fun (path, route) =>
    route.edges path

/-- All edges of a model: those of the types in the order of their qualified names, then those of
the routes. -/
def Model.edges (model : Model) : List RelationEdge :=
  model.sortedClasses.flatMap (·.edges) ++ model.routeEdges

end Survey
