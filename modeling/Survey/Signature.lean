/-
# Signatures

A signature is one line that says what a type, a method or a field is.  Every signature of a model
has a key, made of its kind and the name of what it describes, and a cache key, which is a digest
of kind and signature.  Of members that share a name only the first has a signature in the model,
and of fields only those that say something about the framework.
-/
import Survey.Digest.Sha256
import Survey.Distinct
import Survey.Model.Basic
import Survey.Text.Lowercase
import Survey.Text.Utf8

namespace Survey

/-- What a signature describes. -/
inductive SignatureKind where
  /-- A type. -/
  | ofClass
  /-- A method. -/
  | ofMethod
  /-- A field. -/
  | ofField
deriving DecidableEq, Repr

/-- The word for a kind. -/
def SignatureKind.label : SignatureKind → String
  | ofClass => "class"
  | ofMethod => "method"
  | ofField => "field"

/-- The kind with a given word, if there is one. -/
def SignatureKind.ofLabel? (label : String) : Option SignatureKind :=
  [SignatureKind.ofClass, .ofMethod, .ofField].find? fun kind => kind.label == label

/-- A signature of a model. -/
structure SignatureEntry where
  /-- The key: the word for the kind, a colon, and the identifier. -/
  key : String
  /-- What is described. -/
  kind : SignatureKind
  /-- The qualified name of what is described. -/
  identifier : String
  /-- The qualified name of the type that owns a member. -/
  owner : Option String
  /-- The signature. -/
  signature : String
  /-- The digest of kind and signature. -/
  cacheKey : String
deriving DecidableEq, Repr

/-- The digest of kind and signature. -/
def signatureHash (kind : SignatureKind) (signature : String) : String :=
  Sha256.digest (Text.utf8 (kind.label ++ ":" ++ signature).toList)

/-! ### The signatures of declarations -/

/-- A declaration behind its annotations. -/
def withAnnotations (annotations : List String) (declaration : String) : String :=
  String.intercalate " " (annotations.map ("@" ++ ·) ++ [declaration])

/-- Texts that mark an import as worth a place in a signature. -/
def keyImportMarkers : List String := ["struts", "corba", "javax", "org.apache"]

/-- The largest number of imports in a signature. -/
def maxKeyImports : Nat := 5

/-- Whether an import is worth a place in a signature. -/
def isKeyImport (name : String) : Bool :=
  Text.containsAny keyImportMarkers (Text.lowercase name.toList)

/-- A list of names behind a keyword; nothing for an empty list. -/
def clause (keyword : String) : List String → String
  | [] => ""
  | name :: names => " " ++ keyword ++ " " ++ String.intercalate ", " (name :: names)

/-- The signature of a type: annotations, kind, name, extended and implemented types, and the
first imports that are worth a place. -/
def TypeDeclaration.signature (type : TypeDeclaration) : String :=
  let declaration :=
    type.kind.keyword ++ " " ++ type.simpleName ++ clause "extends" type.superclassName.toList ++
      clause "implements" type.implementedNames
  String.intercalate " "
    (withAnnotations type.annotations declaration ::
      (type.imports.filter isKeyImport).take maxKeyImports)

/-- The signature of a method: annotations, return type, name, parameters, thrown types. -/
def Method.signature (method : Method) : String :=
  let parameters := method.parameters.map fun p => p.declaredType ++ " " ++ p.name
  withAnnotations method.annotations
    (method.returnType ++ " " ++ method.name ++ "(" ++ String.intercalate ", " parameters ++ ")" ++
      clause "throws" method.declaredThrows)

/-- The signature of a field: annotations, type, name, initial value. -/
def Field.signature (field : Field) : String :=
  let value :=
    match field.initialValue with
    | some expression => " = " ++ expression
    | none => ""
  withAnnotations field.annotations (field.declaredType ++ " " ++ field.name ++ value)

/-- Texts that mark the type of a field as one of the framework. -/
def significantFieldTypes : List String :=
  ["action", "form", "service", "dao", "manager", "handler"]

/-- Whether a field has a signature in the model: constants have none, annotated fields have one,
and other fields have one when their type belongs to the framework. -/
def Field.isEmbeddable (field : Field) : Bool :=
  !(field.modifiers.isStatic && field.modifiers.isFinal) &&
    (!field.annotations.isEmpty ||
      Text.containsAny significantFieldTypes (Text.lowercase field.declaredType.toList))

/-! ### The signatures of a model -/

/-- The entry of a signature. -/
def SignatureEntry.make (kind : SignatureKind) (identifier : String) (owner : Option String)
    (signature : String) : SignatureEntry where
  key := kind.label ++ ":" ++ identifier
  kind := kind
  identifier := identifier
  owner := owner
  signature := signature
  cacheKey := signatureHash kind signature

/-- The qualified name of a member of a type. -/
def TypeDeclaration.memberName (type : TypeDeclaration) (name : String) : String :=
  type.qualifiedName ++ "." ++ name

/-- The entries of a type: the type, its methods, its embeddable fields. -/
def TypeDeclaration.signatureEntries (type : TypeDeclaration) : List SignatureEntry :=
  let owner := some type.qualifiedName
  let methods := distinctBy (·.name) type.methods
  let fields := (distinctBy (·.name) type.fields).filter (·.isEmbeddable)
  .make .ofClass type.qualifiedName none type.signature ::
    (methods.map fun m => .make .ofMethod (type.memberName m.name) owner m.signature) ++
    (fields.map fun f => .make .ofField (type.memberName f.name) owner f.signature)

/-- The entries of a model, types in the order of their qualified names. -/
def Model.signatureEntries (model : Model) : List SignatureEntry :=
  model.sortedClasses.flatMap (·.signatureEntries)

/-- The signature with a key, if what it describes is in the model. -/
def Model.signatureFor? (model : Model) (key : String) : Option String :=
  match Text.splitFirst? ':' key.toList with
  | none => none
  | some (label, identifier) =>
    match SignatureKind.ofLabel? (String.ofList label) with
    | some .ofClass => (model.class? (String.ofList identifier)).map (·.signature)
    | some .ofMethod => (model.method? (String.ofList identifier)).map (·.signature)
    | some .ofField => (model.field? (String.ofList identifier)).map (·.signature)
    | none => none

end Survey
