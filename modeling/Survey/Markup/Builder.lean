/-
# Building a document

While a document is read, the elements that are open form a stack, the innermost first.  The
attributes and the declarations of name spaces of a tag are collected until the tag ends; then the
qualifiers are resolved against the declarations in force, an undeclared qualifier is refused, and
so are two attributes of one name.
-/
import Survey.Markup.Document
import Survey.Markup.Name

namespace Survey.Markup

/-- Declared qualifiers with their name spaces, the default name space under the empty
qualifier. -/
abbrev Spaces : Type := List (List Char × List Char)

/-- The name space of the qualifier `xml`. -/
def xmlSpace : List Char := "http://www.w3.org/XML/1998/namespace".toList

/-- The name space of the qualifier `xmlns`. -/
def xmlnsSpace : List Char := "http://www.w3.org/2000/xmlns/".toList

/-- Whether a qualifier is declared. -/
def Spaces.declares (spaces : Spaces) (qualifier : List Char) : Bool :=
  spaces.any fun space => space.1 == qualifier

/-- The name space that a qualifier is declared for. -/
def Spaces.get? (spaces : Spaces) (qualifier : List Char) : Option (List Char) :=
  (spaces.find? fun space => space.1 == qualifier).map (·.2)

/-- The name space of the qualifier of an attribute; `xml` needs no declaration there. -/
def Spaces.ofAttribute? (spaces : Spaces) (qualifier : List Char) : Option (List Char) :=
  if qualifier = "xml".toList then some xmlSpace else spaces.get? qualifier

/-- The declarations in force in an element: its own and those around it that it does not
override. -/
def Spaces.inside (own outer : Spaces) : Spaces :=
  own ++ outer.filter fun space => !own.declares space.1

/-- An open element. -/
structure OpenElement where
  /-- Its name. -/
  name : QualifiedName
  /-- Its attributes. -/
  attributes : List Attribute
  /-- The declarations in force in it. -/
  spaces : Spaces
  /-- Its children so far, the latest first. -/
  children : List Node

/-- What has been read of a document. -/
structure Builder where
  /-- The open elements, the innermost first. -/
  opened : List OpenElement
  /-- The finished top nodes, the latest first. -/
  nodes : List Node
  /-- The attributes of the current tag. -/
  attributes : List (QualifiedName × List Char)
  /-- The declarations of the current tag. -/
  spaces : Spaces
  /-- The number of references that the current outermost reference has led to. -/
  references : Nat

namespace Builder

/-- The state before anything is read. -/
def start : Builder := ⟨[], [], [], [], 0⟩

/-- Adds a finished node where the reading stands. -/
def add (b : Builder) (node : Node) : Builder :=
  match b.opened with
  | [] => { b with nodes := node :: b.nodes }
  | inner :: outer =>
    { b with opened := { inner with children := node :: inner.children } :: outer }

/-- Adds characters; no characters add nothing. -/
def addText (b : Builder) (chars : List Char) : Builder :=
  if chars.isEmpty then b else b.add (.text (String.ofList chars))

/-- The declarations in force where the reading stands. -/
def outerSpaces (b : Builder) : Spaces :=
  match b.opened with
  | [] => []
  | inner :: _ => inner.spaces

/-- Declares the name space of a qualifier in the current tag. -/
def declare? (b : Builder) (qualifier value : List Char) : Option Builder :=
  if value = xmlnsSpace then none
  else if (qualifier == "xml".toList) != (value == xmlSpace) then none
  else if b.spaces.declares qualifier then none
  else if value = xmlSpace then some b
  else some { b with spaces := b.spaces ++ [(qualifier, value)] }

/-- Declares the default name space in the current tag. -/
def declareDefault? (b : Builder) (value : List Char) : Option Builder :=
  if value = xmlSpace ∨ value = xmlnsSpace then none
  else some { b with spaces := b.spaces ++ [([], value)] }

/-- Adds an attribute to the current tag; attributes can be declarations. -/
def addAttribute? (b : Builder) (name : QualifiedName) (value : List Char) : Option Builder :=
  if name.qualifier = "xmlns".toList then b.declare? name.base value
  else if name.base = "xmlns".toList then b.declareDefault? value
  else some { b with attributes := b.attributes ++ [(name, value)] }

/-- The attribute with a name and a value, under some declarations. -/
def resolve? (spaces : Spaces) (name : QualifiedName) (value : List Char) : Option Attribute :=
  if name.qualifier.isEmpty then
    some ⟨none, String.ofList name.base, String.ofList value⟩
  else
    (spaces.ofAttribute? name.qualifier).map fun space =>
      ⟨some (String.ofList space), String.ofList name.base, String.ofList value⟩

/-- The attributes with some names and values; none when a qualifier is not declared. -/
def resolveAll? (spaces : Spaces) :
    List (QualifiedName × List Char) → Option (List Attribute)
  | [] => some []
  | (name, value) :: rest =>
    (resolve? spaces name value).bind fun resolved =>
      (resolveAll? spaces rest).map (resolved :: ·)

/-- Whether no two attributes have the same name in the same name space. -/
def allDistinct : List Attribute → Bool
  | [] => true
  | a :: rest => rest.all (fun b => !(a.space == b.space && a.name == b.name)) && allDistinct rest

/-- Ends the attributes of the current tag: the declarations in force and the attributes. -/
def finishAttributes? (b : Builder) : Option (Spaces × List Attribute × Builder) :=
  let spaces := Spaces.inside b.spaces b.outerSpaces
  (resolveAll? spaces b.attributes).bind fun attributes =>
    if allDistinct attributes then
      some (spaces, attributes, { b with attributes := [], spaces := [] })
    else none

/-- The open element that the current tag begins.  Its qualifier must be declared, and `xml` never
is: it belongs to attributes alone. -/
def beginElement? (b : Builder) (name : QualifiedName) : Option (OpenElement × Builder) :=
  b.finishAttributes?.bind fun (spaces, attributes, b) =>
    if name.qualifier.isEmpty || spaces.declares name.qualifier then
      some (⟨name, attributes, spaces, []⟩, b)
    else none

/-- The node of an element whose children are all read. -/
def closed (e : OpenElement) : Node :=
  .element (String.ofList e.name.base) e.attributes e.children.reverse

/-- Ends a tag that opens an element. -/
def openElement? (b : Builder) (name : QualifiedName) : Option Builder :=
  (b.beginElement? name).map fun (e, b) => { b with opened := e :: b.opened }

/-- Ends a tag that is a whole element. -/
def addEmptyElement? (b : Builder) (name : QualifiedName) : Option Builder :=
  (b.beginElement? name).map fun (e, b) => b.add (closed e)

/-- Closes the innermost open element, which must have the given name. -/
def closeElement? (b : Builder) (name : QualifiedName) : Option Builder :=
  b.finishAttributes?.bind fun (_, _, b) =>
    match b.opened with
    | [] => none
    | inner :: outer =>
      if inner.name = name then some ({ b with opened := outer }.add (closed inner)) else none

/-- The document that has been read: everything is closed, and there is an element. -/
def finish? (b : Builder) : Option Document :=
  if b.opened.isEmpty && b.nodes.any (·.isElement) then some ⟨b.nodes.reverse⟩ else none

end Builder

end Survey.Markup
