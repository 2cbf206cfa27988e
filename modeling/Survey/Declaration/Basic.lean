/-
# Declarations

What a source unit declares: one outer type, with every method and every field found in the unit.
Names and types are kept as they are written; nothing is resolved.
-/
import Survey.Text.Blank

namespace Survey

/-! ### Modifiers -/

/-- The modifiers of a declaration. -/
structure Modifiers where
  /-- Whether `public` is written. -/
  isPublic : Bool := false
  /-- Whether `private` is written. -/
  isPrivate : Bool := false
  /-- Whether `protected` is written. -/
  isProtected : Bool := false
  /-- Whether `static` is written. -/
  isStatic : Bool := false
  /-- Whether `final` is written. -/
  isFinal : Bool := false
  /-- Whether `abstract` is written. -/
  isAbstract : Bool := false
  /-- Whether `synchronized` is written. -/
  isSynchronized : Bool := false
  /-- Whether `native` is written. -/
  isNative : Bool := false
  /-- Whether `transient` is written. -/
  isTransient : Bool := false
  /-- Whether `volatile` is written. -/
  isVolatile : Bool := false
deriving DecidableEq, Repr

namespace Modifiers

/-- The modifiers among some words; all other words are ignored. -/
def ofWords (words : List String) : Modifiers where
  isPublic := words.contains "public"
  isPrivate := words.contains "private"
  isProtected := words.contains "protected"
  isStatic := words.contains "static"
  isFinal := words.contains "final"
  isAbstract := words.contains "abstract"
  isSynchronized := words.contains "synchronized"
  isNative := words.contains "native"
  isTransient := words.contains "transient"
  isVolatile := words.contains "volatile"

/-- The modifiers among the words of a text. -/
def ofText (text : List Char) : Modifiers := ofWords ((Text.words text).map String.ofList)

/-- The keywords of the modifiers that are set, in canonical order. -/
def keywords (m : Modifiers) : List String :=
  [(m.isPublic, "public"), (m.isProtected, "protected"), (m.isPrivate, "private"),
   (m.isAbstract, "abstract"), (m.isStatic, "static"), (m.isFinal, "final"),
   (m.isTransient, "transient"), (m.isVolatile, "volatile"),
   (m.isSynchronized, "synchronized"), (m.isNative, "native")].filterMap fun (isSet, keyword) =>
    if isSet then some keyword else none

end Modifiers

/-! ### Members -/

/-- A parameter of a method. -/
structure Parameter where
  /-- Its name. -/
  name : String
  /-- Its type as written. -/
  declaredType : String
  /-- Whether it is marked `final`. -/
  isFinal : Bool
  /-- The names of its annotations. -/
  annotations : List String
deriving DecidableEq, Repr

/-- A method or constructor declared in a unit. -/
structure Method where
  /-- Its name. -/
  name : String
  /-- Its return type as written; a constructor has its own name here. -/
  returnType : String
  /-- Its parameters in order. -/
  parameters : List Parameter
  /-- Its modifiers. -/
  modifiers : Modifiers
  /-- The names of its annotations, from top to bottom. -/
  annotations : List String
  /-- The types that it declares to throw, each once. -/
  declaredThrows : List String
  /-- The line on which its declaration starts, counted from one. -/
  sourceLine : Nat
  /-- The names called in its body, each once, in order of their first occurrence. -/
  calledNames : List String
  /-- The number of lines that its body covers; zero when it has no body. -/
  bodyLineCount : Nat
  /-- Whether it handles a routed request. -/
  isActionHandler : Bool
  /-- Whether it belongs to a remote contract. -/
  isRemoteOperation : Bool
deriving DecidableEq, Repr

/-- A field declared in a unit; a local variable has the same shape and is listed too. -/
structure Field where
  /-- Its name. -/
  name : String
  /-- Its type as written. -/
  declaredType : String
  /-- Its modifiers. -/
  modifiers : Modifiers
  /-- The names of its annotations, from top to bottom. -/
  annotations : List String
  /-- The expression of its initial value, if one is written. -/
  initialValue : Option String
  /-- The line on which its declaration starts, counted from one. -/
  sourceLine : Nat
deriving DecidableEq, Repr

/-! ### Types -/

/-- The kind of a declared type. -/
inductive TypeKind where
  /-- A class. -/
  | classType
  /-- An interface. -/
  | interfaceType
  /-- An enumeration. -/
  | enumType
deriving DecidableEq, Repr

namespace TypeKind

/-- The keyword of a kind. -/
def keyword : TypeKind → String
  | classType => "class"
  | interfaceType => "interface"
  | enumType => "enum"

/-- The kind with a given keyword, if there is one. -/
def ofKeyword? (word : String) : Option TypeKind :=
  [classType, interfaceType, enumType].find? fun kind => kind.keyword == word

@[simp] theorem ofKeyword?_keyword (kind : TypeKind) : ofKeyword? kind.keyword = some kind := by
  cases kind <;> decide

end TypeKind

/-- The name of a type in its package; the nameless package adds nothing. -/
def qualify (package simpleName : String) : String :=
  if package = "" then simpleName else package ++ "." ++ simpleName

/-- The outer type of a source unit, with everything found in the unit. -/
structure TypeDeclaration where
  /-- Its name without the package. -/
  simpleName : String
  /-- Its name with the package. -/
  qualifiedName : String
  /-- Its kind. -/
  kind : TypeKind
  /-- The package of the unit; empty when none is given. -/
  package : String
  /-- Its modifiers. -/
  modifiers : Modifiers
  /-- The names of its annotations, from top to bottom. -/
  annotations : List String
  /-- The first type that it extends. -/
  superclassName : Option String
  /-- The further types that it extends, then the types that it implements. -/
  implementedNames : List String
  /-- Its methods in textual order. -/
  methods : List Method
  /-- Its fields in textual order. -/
  fields : List Field
  /-- The imports of the unit in textual order. -/
  imports : List String
  /-- The line on which its declaration starts, counted from one. -/
  sourceLine : Nat
  /-- The path of the unit. -/
  sourcePath : String
  /-- Whether the unit extends a request handler. -/
  isActionHandlerClass : Bool
  /-- Whether the unit extends a remote servant. -/
  isRemoteServantClass : Bool
  /-- Whether the type is a remote helper by its name. -/
  isRemoteHelperClass : Bool
  /-- Whether the type is a remote holder by its name. -/
  isRemoteHolderClass : Bool
  /-- Whether the unit extends a form bean. -/
  isFormBeanClass : Bool
deriving DecidableEq, Repr

namespace TypeDeclaration

/-- The first method with a given name. -/
def method? (type : TypeDeclaration) (name : String) : Option Method :=
  type.methods.find? (·.name == name)

/-- The first field with a given name. -/
def field? (type : TypeDeclaration) (name : String) : Option Field :=
  type.fields.find? (·.name == name)

end TypeDeclaration

end Survey
