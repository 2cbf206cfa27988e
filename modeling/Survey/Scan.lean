/-
# Scanning a tree

A scan discovers the files below a root, reads and parses each of them on its own, and merges the
outcomes into a model.  No file can stop a scan: a file that cannot be read or parsed, or that is
reached after the scan was cancelled, is listed as a failure and contributes nothing.

Outcomes are merged in the order of discovery, source units first, then routing documents, then
interface definitions; what comes later under a name replaces what came before.
-/
import Survey.Declaration.Parse
import Survey.Discovery
import Survey.Gauge
import Survey.Model.Basic
import Survey.Outcome
import Survey.RemoteInterface.Parse
import Survey.Routing.Parse

namespace Survey

/-! ### Outcomes -/

/-- The outcomes of a scan by category, each in the order of discovery. -/
structure Outcomes where
  /-- The outcomes of the source units. -/
  units : List (Outcome TypeDeclaration)
  /-- The outcomes of the routing documents. -/
  routings : List (Outcome Routing)
  /-- The outcomes of the interface definition documents. -/
  interfaces : List (Outcome (List RemoteInterface))

/-- What comes of a file below a root: it is not read when the scan was cancelled. -/
def Outcome.ofFile {α : Type} (parse : String → String → Outcome α) (tree : FileTree)
    (root : List String) (isCancelled : List String → Bool) (names : List String) : Outcome α :=
  let path := pathText names
  if isCancelled names then .error ⟨path, .cancelled⟩
  else
    match tree.read (root ++ names) with
    | .error error => .error ⟨path, .unreadable error⟩
    | .ok bytes => parse (String.ofList (Text.decode bytes)) path

/-- The outcomes of some discovered files; `isCancelled` tells which of them find the scan
cancelled. -/
def Outcomes.ofDiscovery (tree : FileTree) (root : List String)
    (isCancelled : List String → Bool) (d : Discovery) : Outcomes where
  units := d.sourceUnits.map (Outcome.ofFile TypeDeclaration.parse tree root isCancelled)
  routings := d.routingConfigs.map (Outcome.ofFile Routing.parse tree root isCancelled)
  interfaces :=
    d.interfaceDefinitions.map (Outcome.ofFile RemoteInterface.parse tree root isCancelled)

/-! ### Merging -/

namespace Model

/-- The forwards of some routings, merged one routing after the other. -/
def mergeForwards (routings : List Routing) : Forwards :=
  routings.foldl (fun forwards routing => forwards.insertMany routing.globalForwards.toList) ∅

/-- The model of some outcomes, with all counts zero. -/
def merge (outcomes : Outcomes) : Model :=
  let types := Outcome.results outcomes.units
  let routings := Outcome.results outcomes.routings
  { classes := .ofPairs (types.map fun type => (type.qualifiedName, type))
    routes := .ofPairs (routings.flatMap fun r => r.routes.map fun route => (route.path, route))
    globalForwards := mergeForwards routings
    formBeans := .ofPairs (routings.flatMap fun r => r.formBeans.map fun bean => (bean.name, bean))
    remoteInterfaces :=
      .ofPairs ((Outcome.results outcomes.interfaces).flatten.map fun i => (i.name, i))
    failures :=
      Outcome.failures outcomes.units ++ Outcome.failures outcomes.routings ++
        Outcome.failures outcomes.interfaces }

/-- Notes in the statistics what was seen, and counts the rest. -/
def withCounts (model : Model) (d : Discovery) (peak : Nat) : Model :=
  { model with
    statistics :=
      { totalFilesSeen := d.total
        sourceUnitsSeen := d.sourceUnits.length
        configDocumentsSeen := d.routingConfigs.length
        interfaceDocumentsSeen := d.interfaceDefinitions.length
        peakConcurrentParses := peak } }.recount

end Model

/-! ### Scans -/

/-- The model of the files below a root, parsed one after the other; `isCancelled` tells which of
them find the scan cancelled. -/
def scanWith (settings : Settings) (tree : FileTree) (root : List String)
    (isCancelled : List String → Bool) : Model :=
  let discovery := Discovery.ofTree settings tree root
  let peak := (Gauge.afterParses {} discovery.total).peak
  (Model.merge (.ofDiscovery tree root isCancelled discovery)).withCounts discovery peak

/-- The model of the files below a root. -/
def scan (settings : Settings) (tree : FileTree) (root : List String) : Model :=
  scanWith settings tree root fun _ => settings.isCancelled

end Survey
