/-
# Markup documents

A document is a forest of nodes with one element among its top nodes.  An element has a name
without qualifier, attributes and children; an attribute whose name is qualified lives in a name
space.  Text, comments and instructions are kept as nodes of their own.
-/

namespace Survey.Markup

/-- An attribute of an element. -/
structure Attribute where
  /-- The name space of the attribute; none when its name has no qualifier. -/
  space : Option String
  /-- The name without qualifier. -/
  name : String
  /-- The value with all references replaced. -/
  value : String
deriving DecidableEq, Repr

/-- A node of a document. -/
inductive Node where
  /-- An element with its name, attributes and children. -/
  | element (name : String) (attributes : List Attribute) (children : List Node)
  /-- Characters. -/
  | text (content : String)
  /-- A comment. -/
  | comment (content : String)
  /-- A processing instruction. -/
  | instruction (target content : String)

/-- A document. -/
structure Document where
  /-- The top nodes. -/
  nodes : List Node

namespace Node

/-- Whether a node is an element. -/
def isElement : Node → Bool
  | element .. => true
  | _ => false

/-- Whether a node is an element with a given name. -/
def isNamed (tag : String) : Node → Bool
  | element name _ _ => name == tag
  | _ => false

/-- The value of the attribute of an element that has a given name and no name space. -/
def attribute? (name : String) : Node → Option String
  | element _ attributes _ =>
    (attributes.find? fun a => a.space.isNone && a.name == name).map (·.value)
  | _ => none

mutual

/-- A node and everything in it, in document order. -/
def descendants : Node → List Node
  | element name attributes children =>
    element name attributes children :: descendantsOfAll children
  | text content => [text content]
  | comment content => [comment content]
  | instruction target content => [instruction target content]

/-- Some nodes and everything in them, in document order. -/
def descendantsOfAll : List Node → List Node
  | [] => []
  | node :: nodes => node.descendants ++ descendantsOfAll nodes

end

/-- The elements with a given name in a node, the node itself included, in document order. -/
def elementsNamed (tag : String) (node : Node) : List Node :=
  node.descendants.filter (isNamed tag)

end Node

/-- The elements with a given name, in document order. -/
def Document.elementsNamed (tag : String) (document : Document) : List Node :=
  (Node.descendantsOfAll document.nodes).filter (Node.isNamed tag)

end Survey.Markup
