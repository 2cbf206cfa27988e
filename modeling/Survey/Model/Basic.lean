/-
# The model of a code base

Everything that a scan extracts, under the names by which it is looked up: types by qualified
name, routes by path, form beans and remote interfaces by name.  Files that failed are listed
beside it, and the statistics count what was seen and what is there.
-/
import Survey.Declaration.Basic
import Survey.Failure
import Survey.Registry
import Survey.RemoteInterface.Basic
import Survey.Routing.Basic
import Survey.Text.Substring

namespace Survey

/-- The counts of a scan. -/
structure Statistics where
  /-- The number of files discovered. -/
  totalFilesSeen : Nat := 0
  /-- The number of source units discovered. -/
  sourceUnitsSeen : Nat := 0
  /-- The number of routing documents discovered. -/
  configDocumentsSeen : Nat := 0
  /-- The number of interface definition documents discovered. -/
  interfaceDocumentsSeen : Nat := 0
  /-- The number of request handler classes. -/
  actionHandlerCount : Nat := 0
  /-- The number of remote servant classes. -/
  remoteServantCount : Nat := 0
  /-- The number of methods of all types. -/
  totalMethods : Nat := 0
  /-- The number of fields of all types. -/
  totalFields : Nat := 0
  /-- The number of files that failed. -/
  skippedFiles : Nat := 0
  /-- The highest number of parses under way at once. -/
  peakConcurrentParses : Nat := 0
deriving DecidableEq, Repr

/-- Everything that a scan extracts. -/
structure Model where
  /-- The types by qualified name. -/
  classes : Registry String TypeDeclaration := ∅
  /-- The routes by path. -/
  routes : Registry String Route := ∅
  /-- The forwards that all routes share. -/
  globalForwards : Forwards := ∅
  /-- The form beans by name. -/
  formBeans : Registry String FormBean := ∅
  /-- The remote interfaces by name. -/
  remoteInterfaces : Registry String RemoteInterface := ∅
  /-- The counts. -/
  statistics : Statistics := {}
  /-- The files that failed, in the order of the scan. -/
  failures : List Failure := []
deriving DecidableEq, Repr

namespace Model

/-! ### Look-up -/

/-- The type with a qualified name. -/
def class? (model : Model) (qualifiedName : String) : Option TypeDeclaration :=
  model.classes.get? qualifiedName

/-- The type that owns a member, and the name of the member, for a name that is cut at its last
dot. -/
def ownerAndMember? (model : Model) (qualifiedMember : String) :
    Option (TypeDeclaration × String) :=
  match Text.splitLast? '.' qualifiedMember.toList with
  | some (owner, member) =>
    (model.class? (String.ofList owner)).map fun type => (type, String.ofList member)
  | none => none

/-- The first method with a qualified name. -/
def method? (model : Model) (qualifiedMethod : String) : Option Method :=
  (model.ownerAndMember? qualifiedMethod).bind fun (owner, name) => owner.method? name

/-- The first field with a qualified name. -/
def field? (model : Model) (qualifiedField : String) : Option Field :=
  (model.ownerAndMember? qualifiedField).bind fun (owner, name) => owner.field? name

/-- The route of a path. -/
def route? (model : Model) (path : String) : Option Route := model.routes.get? path

/-- The form bean with a name. -/
def formBean? (model : Model) (name : String) : Option FormBean := model.formBeans.get? name

/-- The remote interface with a name. -/
def remoteInterface? (model : Model) (name : String) : Option RemoteInterface :=
  model.remoteInterfaces.get? name

/-- The types in the order of their qualified names. -/
def sortedClasses (model : Model) : List TypeDeclaration :=
  model.classes.values.mergeSort fun a b => a.qualifiedName ≤ b.qualifiedName

/-! ### Changes -/

/-- Counts the types, their members and the failures anew; what was seen by the scan stays. -/
def recount (model : Model) : Model :=
  let classes := model.classes.values
  { model with
    statistics :=
      { model.statistics with
        actionHandlerCount := classes.countP (·.isActionHandlerClass)
        remoteServantCount := classes.countP (·.isRemoteServantClass)
        totalMethods := (classes.flatMap (·.methods)).length
        totalFields := (classes.flatMap (·.fields)).length
        skippedFiles := model.failures.length } }

/-- Takes a type out of the model; the statistics stay. -/
def dropClass (model : Model) (qualifiedName : String) : Model :=
  { model with classes := model.classes.erase qualifiedName }

/-- Forgets the failures; the statistics stay. -/
def clearFailures (model : Model) : Model := { model with failures := [] }

end Model

end Survey
