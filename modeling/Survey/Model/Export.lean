/-
# The JSON form of a model

Every part of a model has a JSON form with the same members in the same order; registries become
objects in their own order.
-/
import Survey.Json.Basic
import Survey.Model.Basic
import Survey.Relation

namespace Survey

/-- The object of some forwards. -/
def Forwards.toJson (forwards : Forwards) : Json :=
  .object (forwards.toList.map fun (name, path) => (name, .string path))

/-- The object of some modifiers. -/
def Modifiers.toJson (m : Modifiers) : Json :=
  .object
    [("public", .bool m.isPublic), ("private", .bool m.isPrivate),
     ("protected", .bool m.isProtected), ("static", .bool m.isStatic),
     ("final", .bool m.isFinal), ("abstract", .bool m.isAbstract),
     ("synchronized", .bool m.isSynchronized), ("native", .bool m.isNative),
     ("transient", .bool m.isTransient), ("volatile", .bool m.isVolatile)]

/-- The object of a parameter. -/
def Parameter.toJson (p : Parameter) : Json :=
  .object
    [("name", .string p.name), ("declared_type", .string p.declaredType),
     ("is_final", .bool p.isFinal), ("annotations", .strings p.annotations)]

/-- The object of a method. -/
def Method.toJson (m : Method) : Json :=
  .object
    [("name", .string m.name), ("return_type", .string m.returnType),
     ("parameters", .array (m.parameters.map (·.toJson))), ("modifiers", m.modifiers.toJson),
     ("annotations", .strings m.annotations), ("declared_throws", .strings m.declaredThrows),
     ("source_line", .number m.sourceLine), ("called_method_names", .strings m.calledNames),
     ("body_line_count", .number m.bodyLineCount),
     ("is_action_handler", .bool m.isActionHandler),
     ("is_remote_operation", .bool m.isRemoteOperation)]

/-- The object of a field. -/
def Field.toJson (f : Field) : Json :=
  .object
    [("name", .string f.name), ("declared_type", .string f.declaredType),
     ("modifiers", f.modifiers.toJson), ("annotations", .strings f.annotations),
     ("initial_value_expression", .optionalString f.initialValue),
     ("source_line", .number f.sourceLine)]

/-- The object of a type. -/
def TypeDeclaration.toJson (t : TypeDeclaration) : Json :=
  .object
    [("simple_name", .string t.simpleName), ("qualified_name", .string t.qualifiedName),
     ("kind", .string t.kind.keyword), ("package", .string t.package),
     ("modifiers", t.modifiers.toJson), ("annotations", .strings t.annotations),
     ("superclass_name", .optionalString t.superclassName),
     ("implemented_interface_names", .strings t.implementedNames),
     ("methods", .array (t.methods.map (·.toJson))),
     ("fields", .array (t.fields.map (·.toJson))), ("imports", .strings t.imports),
     ("source_line", .number t.sourceLine), ("source_path", .string t.sourcePath),
     ("is_action_handler_class", .bool t.isActionHandlerClass),
     ("is_remote_servant_class", .bool t.isRemoteServantClass),
     ("is_remote_helper_class", .bool t.isRemoteHelperClass),
     ("is_remote_holder_class", .bool t.isRemoteHolderClass),
     ("is_form_bean_class", .bool t.isFormBeanClass)]

/-- The object of a route. -/
def Route.toJson (r : Route) : Json :=
  .object
    [("path", .string r.path), ("handler_type_name", .string r.handlerTypeName),
     ("name", .optionalString r.name), ("scope", .optionalString r.scope),
     ("input_page", .optionalString r.inputPage), ("forwards", r.forwards.toJson)]

/-- The object of a form bean. -/
def FormBean.toJson (b : FormBean) : Json :=
  .object
    [("name", .string b.name), ("type_name", .string b.typeName),
     ("properties", .strings b.properties)]

/-- The object of an operation. -/
def RemoteOperation.toJson (o : RemoteOperation) : Json :=
  .object
    [("name", .string o.name), ("return_type", .string o.returnType),
     ("raw_parameter_list", .string o.rawParameterList)]

/-- The object of an attribute. -/
def RemoteAttribute.toJson (a : RemoteAttribute) : Json :=
  .object
    [("name", .string a.name), ("type", .string a.type), ("readonly", .bool a.readonly)]

/-- The object of a remote interface. -/
def RemoteInterface.toJson (i : RemoteInterface) : Json :=
  .object
    [("name", .string i.name), ("module", .string i.module),
     ("operations", .array (i.operations.map (·.toJson))),
     ("attributes", .array (i.attributes.map (·.toJson))),
     ("inherited_interface_names", .strings i.inheritedNames)]

/-- The object of the counts of a scan. -/
def Statistics.toJson (s : Statistics) : Json :=
  .object
    [("total_files_seen", .number s.totalFilesSeen),
     ("source_units_seen", .number s.sourceUnitsSeen),
     ("config_documents_seen", .number s.configDocumentsSeen),
     ("interface_documents_seen", .number s.interfaceDocumentsSeen),
     ("action_handler_count", .number s.actionHandlerCount),
     ("remote_servant_count", .number s.remoteServantCount),
     ("total_methods", .number s.totalMethods), ("total_fields", .number s.totalFields),
     ("skipped_files", .number s.skippedFiles),
     ("peak_concurrent_parses", .number s.peakConcurrentParses)]

/-- The object of a failure; `reason?` says why a text is no markup. -/
def Failure.toJson (f : Failure) (reason? : Option (String → String) := none) : Json :=
  .object
    [("path", .string f.path), ("kind", .string f.kind), ("message", .string (f.message reason?))]

/-- The object of a signature. -/
def SignatureEntry.toJson (e : SignatureEntry) : Json :=
  .object
    [("key", .string e.key), ("kind", .string e.kind.label), ("identifier", .string e.identifier),
     ("owner", .optionalString e.owner), ("signature", .string e.signature),
     ("cache_key", .string e.cacheKey)]

/-- The object of an edge. -/
def RelationEdge.toJson (e : RelationEdge) : Json :=
  .object
    [("source", .string e.source), ("target", .string e.target), ("kind", .string e.kind.label)]

/-- The object of a registry of values that have a JSON form. -/
def Registry.toJson {ν : Type} (encode : ν → Json) (registry : Registry String ν) : Json :=
  .object (registry.toList.map fun (key, value) => (key, encode value))

namespace Model

/-- The object of a model; `reason?` says why a text is no markup. -/
def toJson (m : Model) (reason? : Option (String → String) := none) : Json :=
  .object
    [("classes_by_qualified_name", m.classes.toJson (·.toJson)),
     ("route_mappings_by_path", m.routes.toJson (·.toJson)),
     ("global_forwards", Forwards.toJson m.globalForwards),
     ("form_beans_by_name", m.formBeans.toJson (·.toJson)),
     ("remote_interfaces_by_name", m.remoteInterfaces.toJson (·.toJson)),
     ("statistics", m.statistics.toJson), ("failures", .array (m.failures.map (·.toJson reason?)))]

/-- The JSON text of a model; `reason?` says why a text is no markup. -/
def toJsonText (m : Model) (reason? : Option (String → String) := none) : String :=
  (m.toJson reason?).pretty

end Model

end Survey
