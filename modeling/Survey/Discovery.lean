/-
# Discovery

Discovery walks a tree from a root and sorts the files that a scan reads by category, each
category in the order of the walk.  Links count as files and are not entered while walking, so a
link that leads nowhere shows later as a file that cannot be read.  Only a root that is itself a
link to a directory is entered.
-/
import Survey.Category
import Survey.FileTree.Links
import Survey.FileTree.Walk

namespace Survey

/-- The discovered files by category, each given by the names that lead to it from the root. -/
structure Discovery where
  /-- The source units. -/
  sourceUnits : List (List String)
  /-- The routing documents. -/
  routingConfigs : List (List String)
  /-- The interface definition documents. -/
  interfaceDefinitions : List (List String)
deriving DecidableEq, Repr

namespace Discovery

/-- The number of discovered files. -/
def total (d : Discovery) : Nat :=
  d.sourceUnits.length + d.routingConfigs.length + d.interfaceDefinitions.length

/-- The places that a walk from a root reports, as names behind the root. -/
def walk (settings : Settings) (tree : FileTree) (root : List String) : List (List String) :=
  match tree.at? root with
  | none => []
  | some (.link _) =>
    match tree.follow root with
    | .ok target =>
      [] :: if target.isDirectory then target.places settings.ignoredDirectories else []
    | .error _ => []
  | some node => node.places settings.ignoredDirectories

/-- The category of a place behind a root; the root itself goes by its own name. -/
def category? (settings : Settings) (root names : List String) : Option Category :=
  match (root ++ names).getLast? with
  | some name => Category.ofName? settings name.toList
  | none => none

/-- The places of one category among some places. -/
def ofCategory (settings : Settings) (root : List String) (category : Category)
    (places : List (List String)) : List (List String) :=
  places.filter fun names => category? settings root names = some category

/-- The files that a scan from a root reads. -/
def ofTree (settings : Settings) (tree : FileTree) (root : List String) : Discovery :=
  let places := walk settings tree root
  { sourceUnits := ofCategory settings root .sourceUnit places
    routingConfigs := ofCategory settings root .routingConfig places
    interfaceDefinitions := ofCategory settings root .interfaceDefinition places }

end Discovery

/-- The path of a place as it is reported: its names with slashes between them, and no
backslash. -/
def pathText (names : List String) : String :=
  String.ofList (Path.withSlashes (Path.join (names.map String.toList)))

end Survey
