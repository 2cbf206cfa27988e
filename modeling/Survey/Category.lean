/-
# Categories of files

The name of a file tells what it holds.  Extensions are compared in lower case.
-/
import Survey.Path
import Survey.Settings
import Survey.Text.Lowercase

namespace Survey

/-- What a file holds. -/
inductive Category where
  /-- A source unit. -/
  | sourceUnit
  /-- A routing document. -/
  | routingConfig
  /-- An interface definition document. -/
  | interfaceDefinition
deriving DecidableEq, Repr

namespace Category

/-- The word for a category. -/
def label : Category → String
  | sourceUnit => "source_unit"
  | routingConfig => "routing_config"
  | interfaceDefinition => "interface_definition"

/-- The category of a file name, if a scan reads such files. -/
def ofName? (settings : Settings) (name : List Char) : Option Category :=
  match Path.extension? name with
  | none => none
  | some written =>
    let extension := String.ofList (Text.lowercase written)
    if settings.sourceExtensions.contains extension then some sourceUnit
    else if extension = settings.interfaceExtension then some interfaceDefinition
    else if extension = "xml" ∧ settings.configFileStem.toList.isPrefixOf name then
      some routingConfig
    else none

/-- The category of the file at a path, if a scan reads such files. -/
def ofPath? (settings : Settings) (path : List Char) : Option Category :=
  (Path.fileName? path).bind (ofName? settings)

end Category

end Survey
