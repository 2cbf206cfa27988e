/-
# Reading a source unit

The first shape of a type declaration in a unit gives its outer type; a unit without one cannot be
read, and nothing else can go wrong.  Every method shape and every field shape of the whole text
belongs to that type.
-/
import Survey.Declaration.Annotations
import Survey.Declaration.Body
import Survey.Declaration.Parameters
import Survey.Failure

namespace Survey

open Survey.Text

/-! ### Members -/

/-- The items of the list in a group, as strings; none when the group took no part. -/
def groupItems (m : Match) (number : Nat) : List String :=
  match m.group? number with
  | some span => (splitList span.text).map String.ofList
  | none => []

/-- Whether a text of a method belongs to a remote contract. -/
def isRemoteText (text : String) : Bool := containsAny Shape.remoteMarkers text.toList

/-- The method that a match of the method shape declares, unless its return type is refused.  A
visibility keyword in the place of the return type belongs to a constructor. -/
def Method.ofMatch? (source : Source) (m : Match) : Option Method :=
  let slot := String.ofList (m.groupText 2)
  let name := String.ofList (m.groupText 3)
  if Shape.isRejectedType slot then none
  else
    let isConstructor := Shape.visibilityKeywords.contains slot
    let annotations := Annotations.namesAt source m.start
    let declaredThrows := distinct (groupItems m 5)
    let body := Body.after? source m.stop
    some {
      name
      returnType := if isConstructor then name else slot
      parameters := Parameter.parseList (m.groupText 4)
      modifiers :=
        Modifiers.ofText
          (if isConstructor then m.groupText 1 ++ ' ' :: m.groupText 2 else m.groupText 1)
      annotations
      declaredThrows
      sourceLine := source.index.lineOf m.start
      calledNames := Body.calls body
      bodyLineCount := Body.lineCount body
      isActionHandler :=
        Shape.actionMethodNames.contains name ||
          containsAny Shape.actionContextTypes (m.groupText 4)
      isRemoteOperation := (annotations ++ declaredThrows).any isRemoteText }

/-- The methods of a unit in textual order. -/
def Method.parseAll (source : Source) : List Method :=
  (Shape.method.findAll source.text).filterMap (Method.ofMatch? source)

/-- The field that a match of the field shape declares, unless its type is refused. -/
def Field.ofMatch? (source : Source) (m : Match) : Option Field :=
  let declaredType := String.ofList (m.groupText 2)
  if Shape.isRejectedType declaredType then none
  else
    some {
      name := String.ofList (m.groupText 3)
      declaredType
      modifiers := Modifiers.ofText (m.groupText 1)
      annotations := Annotations.namesAt source m.start
      initialValue := (m.group? 4).map fun span => String.ofList (trim span.text)
      sourceLine := source.index.lineOf m.start }

/-- The fields of a unit in textual order. -/
def Field.parseAll (source : Source) : List Field :=
  (Shape.field.findAll source.text).filterMap (Field.ofMatch? source)

/-! ### Units -/

/-- The package of a unit; empty when none is given. -/
def parsePackage (text : List Char) : String :=
  match Shape.packageClause.find? text with
  | some m => String.ofList (trim (m.groupText 1))
  | none => ""

/-- The imports of a unit. -/
def parseImports (text : List Char) : List String :=
  (Shape.importClause.findAll text).map fun m => String.ofList (trim (m.groupText 2))

namespace TypeDeclaration

/-- The type that a match of the type shape declares in a unit. -/
def ofMatch (text : List Char) (path : String) (kind : TypeKind) (m : Match) :
    TypeDeclaration :=
  let source := Source.ofText text
  let package := parsePackage text
  let simpleName := String.ofList (m.groupText 3)
  let extended := groupItems m 4
  let isRemoteServantClass := Shape.remoteServant.occursIn text
  { simpleName
    qualifiedName := qualify package simpleName
    kind
    package
    modifiers := Modifiers.ofText (m.groupText 1)
    annotations := Annotations.namesAt source m.start
    superclassName := extended.head?
    implementedNames := extended.tail ++ groupItems m 5
    methods := Method.parseAll source
    fields := Field.parseAll source
    imports := parseImports text
    sourceLine := source.index.lineOf m.start
    sourcePath := path
    isActionHandlerClass := Shape.actionHandler.occursIn text
    isRemoteServantClass
    isRemoteHelperClass := !isRemoteServantClass && Shape.isHelperName (m.groupText 3)
    isRemoteHolderClass := Shape.isHolderName (m.groupText 3)
    isFormBeanClass := Shape.formBeanClass.occursIn text }

/-- The outer type of a source unit; a unit without one fails. -/
def parse (source path : String) : Except Failure TypeDeclaration :=
  let text := source.toList
  match Shape.typeDeclaration.find? text with
  | none => .error ⟨path, .noDeclaration⟩
  | some m =>
    match TypeKind.ofKeyword? (String.ofList (m.groupText 2)) with
    | none => .error ⟨path, .noDeclaration⟩
    | some kind => .ok (ofMatch text path kind m)

/-- The outer type of a source unit, if it has one. -/
def parse? (source path : String) : Option TypeDeclaration := (parse source path).toOption

end TypeDeclaration

end Survey
