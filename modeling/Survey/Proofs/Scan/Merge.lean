/-
# What a scan merges

The model of a scan is described file by file.  Every discovered file comes to one outcome, and this
file says what the model holds in terms of the outcomes alone: under every name the last item of that
name, in the order of the walk and within a file in the order of the document; the failures of all
files that failed, source units first, each with the path of its file and with the kind and the message
of what went wrong (`ListedAs`); and counts in which every discovered file is either merged or listed as
failed.
-/
import Mathlib.Algebra.GroupWithZero.Nat
import Survey.Proofs.Registry
import Survey.Proofs.RemoteInterface.Malformed
import Survey.Scan

namespace Survey

/-! ### Outcomes of files -/

/-- What a file comes to: it finds the scan cancelled, or cannot be read, or its decoded text is
parsed under its path. -/
inductive ComesTo {α : Type} (parse : String → String → Outcome α) (tree : FileTree)
    (root : List String) (isCancelled : Bool) (names : List String) : Outcome α → Prop
  | cancelled : isCancelled = true →
      ComesTo parse tree root isCancelled names (.error ⟨pathText names, .cancelled⟩)
  | unreadable {error : ReadError} : isCancelled = false →
      tree.read (root ++ names) = .error error →
      ComesTo parse tree root isCancelled names (.error ⟨pathText names, .unreadable error⟩)
  | parsed {bytes : List UInt8} : isCancelled = false → tree.read (root ++ names) = .ok bytes →
      ComesTo parse tree root isCancelled names
        (parse (String.ofList (Text.decode bytes)) (pathText names))

section

variable {α : Type} {parse : String → String → Outcome α} {tree : FileTree} {root : List String}

lemma comesTo_ofFile (isCancelled : List String → Bool) (names : List String) :
    ComesTo parse tree root (isCancelled names) names
      (Outcome.ofFile parse tree root isCancelled names) := by
  rw [Outcome.ofFile]
  cases hcancelled : isCancelled names with
  | true => exact .cancelled rfl
  | false =>
    cases hread : tree.read (root ++ names) with
    | error error => exact .unreadable rfl hread
    | ok bytes => exact .parsed rfl hread

/-- The failures of a parser name the file that they are about, are of one kind, and give the message
`refusal reason source path` for a text and its path, where `reason` gives the words of the reader of
markup. -/
structure FailsFor (parse : String → String → Outcome α) (kind : String)
    (refusal : (String → String) → String → String → String) : Prop where
  path_eq : ∀ {source path failure}, parse source path = .error failure → failure.path = path
  kind_eq : ∀ {source path failure}, parse source path = .error failure → failure.kind = kind
  message_eq : ∀ {source path failure}, parse source path = .error failure →
    ∀ reason, failure.message (some reason) = refusal reason source path

/-- The kind and the message that a failing file is listed with: that it found the scan cancelled, or
why it could not be read, or why the parser of its category refuses its text. -/
inductive ListedAs (parse : String → String → Outcome α) (kind : String)
    (refusal : String → String → String) (tree : FileTree) (root : List String)
    (isCancelled : Bool) (names : List String) : String → String → Prop
  | cancelled : isCancelled = true →
      ListedAs parse kind refusal tree root isCancelled names "cancelled"
        ("Scan cancelled before " ++ pathText names ++ " was parsed")
  | unreadable {error : ReadError} : isCancelled = false →
      tree.read (root ++ names) = .error error →
      ListedAs parse kind refusal tree root isCancelled names "unreadable_file"
        ("Unreadable file " ++ pathText names ++ ": " ++ error.message)
  | refused {bytes : List UInt8} {failure : Failure} : isCancelled = false →
      tree.read (root ++ names) = .ok bytes →
      parse (String.ofList (Text.decode bytes)) (pathText names) = .error failure →
      ListedAs parse kind refusal tree root isCancelled names kind
        (refusal (String.ofList (Text.decode bytes)) (pathText names))

/-- A failing file is listed under its own path, as cancelled, unreadable or refused by its
parser. -/
lemma listedAs_of_comesTo {kind : String} {refusal : (String → String) → String → String → String}
    (hparse : FailsFor parse kind refusal) {cancelled : Bool} {names : List String}
    {failure : Failure} (h : ComesTo parse tree root cancelled names (.error failure))
    (reason : String → String) :
    failure.path = pathText names ∧
      ListedAs parse kind (refusal reason) tree root cancelled names failure.kind
        (failure.message (some reason)) := by
  generalize houtcome : (Except.error failure : Outcome α) = outcome at h
  cases h with
  | cancelled hcancelled =>
    obtain rfl := Except.error.inj houtcome
    exact ⟨rfl, .cancelled hcancelled⟩
  | unreadable hcancelled hread =>
    obtain rfl := Except.error.inj houtcome
    exact ⟨rfl, .unreadable hcancelled hread⟩
  | parsed hcancelled hread =>
    refine ⟨hparse.path_eq houtcome.symm, ?_⟩
    rw [hparse.kind_eq houtcome.symm, hparse.message_eq houtcome.symm reason]
    exact .refused hcancelled hread houtcome.symm

end

/-- The message for a source unit without a type declaration. -/
def TypeDeclaration.refusal (_reason : String → String) (_source path : String) : String :=
  "No type declaration found in " ++ path

lemma TypeDeclaration.failsFor_parse :
    FailsFor TypeDeclaration.parse "unparsable_unit" TypeDeclaration.refusal := by
  have herror : ∀ {source path failure}, TypeDeclaration.parse source path = .error failure →
      failure = ⟨path, .noDeclaration⟩ := by
    intro source path failure h
    rw [TypeDeclaration.parse] at h
    split at h
    · exact (Except.error.inj h).symm
    · split at h
      · exact (Except.error.inj h).symm
      · simp at h
  constructor
  case path_eq => exact fun h => by rw [herror h]
  case kind_eq => exact fun h => by rw [herror h]; rfl
  case message_eq => exact fun h _ => by rw [herror h]; rfl

/-- The message for a routing document that is no markup, with what the reader of markup says. -/
def Routing.refusal (reason : String → String) (source path : String) : String :=
  "Malformed routing config " ++ path ++ (": " ++ reason source)

lemma Routing.failsFor_parse :
    FailsFor Routing.parse "malformed_config_document" Routing.refusal := by
  have herror : ∀ {source path failure}, Routing.parse source path = .error failure →
      failure = ⟨path, .malformedRouting source⟩ := by
    intro source path failure h
    rw [Routing.parse] at h
    split at h
    · simp at h
    · exact (Except.error.inj h).symm
  constructor
  case path_eq => exact fun h => by rw [herror h]
  case kind_eq => exact fun h => by rw [herror h]; rfl
  case message_eq => exact fun h _ => by rw [herror h]; rfl

/-- The message for a document of remote interfaces, with the numbers of the blocks in it. -/
def RemoteInterface.refusal (_reason : String → String) (document path : String) : String :=
  "Malformed interface definition " ++ path ++ ": " ++ (blocksOpened document).repr ++
    " blocks opened but " ++ (blocksClosed document).repr ++ " closed"

lemma RemoteInterface.failsFor_parse :
    FailsFor RemoteInterface.parse "malformed_interface_document" RemoteInterface.refusal := by
  have herror : ∀ {source path failure}, RemoteInterface.parse source path = .error failure →
      failure = ⟨path, .unbalancedBlocks (blocksOpened source) (blocksClosed source)⟩ := by
    intro source path failure h
    rw [RemoteInterface.parse] at h
    rw [blocksOpened, blocksClosed, ← countIn_logicalLines (by decide),
      ← countIn_logicalLines (by decide)]
    split at h
    · exact (Except.error.inj h).symm
    · simp at h
  constructor
  case path_eq => exact fun h => by rw [herror h]
  case kind_eq => exact fun h => by rw [herror h]; rfl
  case message_eq => exact fun h _ => by rw [herror h]; rfl

/-! ### Results and failures of files -/

/-- The results of those files that have one. -/
def resultsOf {α : Type} (outcome : List String → Outcome α) (files : List (List String)) : List α :=
  files.filterMap fun names => (outcome names).result?

/-- The failures of those files that have one. -/
def failuresOf {α : Type} (outcome : List String → Outcome α) (files : List (List String)) :
    List Failure :=
  files.filterMap fun names => (outcome names).failure?

/-- The last item of a name. -/
def lastNamed {κ ν : Type} [DecidableEq κ] (name : ν → κ) (items : List ν) (q : κ) : Option ν :=
  (items.filter fun i => name i = q).getLast?

section

variable {α : Type} (outcome : List String → Outcome α) (files : List (List String))

lemma results_map : Outcome.results (files.map outcome) = resultsOf outcome files := by
  rw [Outcome.results, List.filterMap_map]
  rfl

lemma failures_map : Outcome.failures (files.map outcome) = failuresOf outcome files := by
  rw [Outcome.failures, List.filterMap_map]
  rfl

/-- Every file has a result or a failure, and no file has both. -/
lemma length_results_add_failures :
    (resultsOf outcome files).length + (failuresOf outcome files).length = files.length := by
  induction files with
  | nil => rfl
  | cons names files ih =>
    simp only [resultsOf, failuresOf] at ih ⊢
    cases hout : outcome names with
    | ok a =>
      rw [List.filterMap_cons_some (b := a) (by simp [hout]),
        List.filterMap_cons_none (by simp [hout, Outcome.failure?]), List.length_cons,
        List.length_cons]
      omega
    | error f =>
      rw [List.filterMap_cons_none (by simp [hout, Outcome.result?]),
        List.filterMap_cons_some (b := f) (by simp [hout]), List.length_cons, List.length_cons]
      omega

end

/-! ### The merged model -/

/-- A model is what merging the given outcomes of some discovered files makes: under every name the
last item of that name, all failures in order, and counts of what was seen and of what is there. -/
structure Model.Merges (model : Model) (d : Discovery)
    (unit : List String → Outcome TypeDeclaration) (routing : List String → Outcome Routing)
    (interfaces : List String → Outcome (List RemoteInterface)) : Prop where
  class?_eq : ∀ q, model.class? q =
    lastNamed (·.qualifiedName) (resultsOf unit d.sourceUnits) q
  route?_eq : ∀ path, model.route? path =
    lastNamed (·.path) ((resultsOf routing d.routingConfigs).flatMap (·.routes)) path
  formBean?_eq : ∀ name, model.formBean? name =
    lastNamed (·.name) ((resultsOf routing d.routingConfigs).flatMap (·.formBeans)) name
  remoteInterface?_eq : ∀ name, model.remoteInterface? name =
    lastNamed (·.name) (resultsOf interfaces d.interfaceDefinitions).flatten name
  nodup_keys : model.classes.keys.Nodup ∧ model.routes.keys.Nodup ∧ model.formBeans.keys.Nodup ∧
    model.remoteInterfaces.keys.Nodup
  failures_eq : model.failures = failuresOf unit d.sourceUnits ++
    failuresOf routing d.routingConfigs ++ failuresOf interfaces d.interfaceDefinitions
  seen_eq : model.statistics.sourceUnitsSeen = d.sourceUnits.length ∧
    model.statistics.configDocumentsSeen = d.routingConfigs.length ∧
    model.statistics.interfaceDocumentsSeen = d.interfaceDefinitions.length ∧
    model.statistics.totalFilesSeen =
      d.sourceUnits.length + d.routingConfigs.length + d.interfaceDefinitions.length
  skipped_eq : model.statistics.skippedFiles = model.failures.length ∧
    model.statistics.totalFilesSeen = model.statistics.skippedFiles +
      ((resultsOf unit d.sourceUnits).length + (resultsOf routing d.routingConfigs).length +
        (resultsOf interfaces d.interfaceDefinitions).length)
  counts_eq : model.statistics.totalMethods =
      (model.classes.values.map (·.methods.length)).sum ∧
    model.statistics.totalFields = (model.classes.values.map (·.fields.length)).sum ∧
    model.statistics.actionHandlerCount = model.classes.values.countP (·.isActionHandlerClass) ∧
    model.statistics.remoteServantCount = model.classes.values.countP (·.isRemoteServantClass)

/-- A scan merges the outcomes of the files that it discovers, whichever of them find it
cancelled. -/
lemma merges_scanWith (settings : Settings) (tree : FileTree) (root : List String)
    (isCancelled : List String → Bool) :
    (scanWith settings tree root isCancelled).Merges (.ofTree settings tree root)
      (Outcome.ofFile TypeDeclaration.parse tree root isCancelled)
      (Outcome.ofFile Routing.parse tree root isCancelled)
      (Outcome.ofFile RemoteInterface.parse tree root isCancelled) := by
  have hfailures : (scanWith settings tree root isCancelled).failures =
      failuresOf (Outcome.ofFile TypeDeclaration.parse tree root isCancelled)
        (Discovery.ofTree settings tree root).sourceUnits ++
      failuresOf (Outcome.ofFile Routing.parse tree root isCancelled)
        (Discovery.ofTree settings tree root).routingConfigs ++
      failuresOf (Outcome.ofFile RemoteInterface.parse tree root isCancelled)
        (Discovery.ofTree settings tree root).interfaceDefinitions := by
    simp only [← failures_map]
    rfl
  constructor
  case class?_eq =>
    intro q
    rw [← results_map]
    exact Registry.get?_ofPairs_map _ _ q
  case route?_eq =>
    intro path
    rw [← results_map, lastNamed, ← Registry.get?_ofPairs_map, List.map_flatMap]
    rfl
  case formBean?_eq =>
    intro name
    rw [← results_map, lastNamed, ← Registry.get?_ofPairs_map, List.map_flatMap]
    rfl
  case remoteInterface?_eq =>
    intro name
    rw [← results_map]
    exact Registry.get?_ofPairs_map _ _ name
  case nodup_keys =>
    exact ⟨Registry.nodup_keys_ofPairs _, Registry.nodup_keys_ofPairs _,
      Registry.nodup_keys_ofPairs _, Registry.nodup_keys_ofPairs _⟩
  case failures_eq => exact hfailures
  case seen_eq => exact ⟨rfl, rfl, rfl, rfl⟩
  case skipped_eq =>
    have hskipped : (scanWith settings tree root isCancelled).statistics.skippedFiles =
        (scanWith settings tree root isCancelled).failures.length := rfl
    have htotal : (scanWith settings tree root isCancelled).statistics.totalFilesSeen =
        (Discovery.ofTree settings tree root).sourceUnits.length +
          (Discovery.ofTree settings tree root).routingConfigs.length +
          (Discovery.ofTree settings tree root).interfaceDefinitions.length := rfl
    refine ⟨hskipped, ?_⟩
    have hunits := length_results_add_failures
      (Outcome.ofFile TypeDeclaration.parse tree root isCancelled)
      (Discovery.ofTree settings tree root).sourceUnits
    have hroutings := length_results_add_failures
      (Outcome.ofFile Routing.parse tree root isCancelled)
      (Discovery.ofTree settings tree root).routingConfigs
    have hinterfaces := length_results_add_failures
      (Outcome.ofFile RemoteInterface.parse tree root isCancelled)
      (Discovery.ofTree settings tree root).interfaceDefinitions
    rw [hskipped, htotal, hfailures, List.length_append, List.length_append]
    omega
  case counts_eq => exact ⟨List.length_flatMap, List.length_flatMap, rfl, rfl⟩

/-- **A scan merges what its files come to.**  With the cancellation the same for all files, every
discovered file comes to one outcome; the model keeps under every name the last item of that name
and lists exactly the failures, each with the path of its file and the kind and the message of what
went wrong, whatever the words of the reader of markup are; every file seen is counted, and is either
merged or skipped. -/
theorem scan_merges_outcomes (settings : Settings) (tree : FileTree) (root : List String) :
    let unit := Outcome.ofFile TypeDeclaration.parse tree root fun _ => settings.isCancelled
    let routing := Outcome.ofFile Routing.parse tree root fun _ => settings.isCancelled
    let interfaces := Outcome.ofFile RemoteInterface.parse tree root fun _ => settings.isCancelled
    (scan settings tree root).Merges (.ofTree settings tree root) unit routing interfaces ∧
    (∀ names, ComesTo TypeDeclaration.parse tree root settings.isCancelled names (unit names) ∧
      ComesTo Routing.parse tree root settings.isCancelled names (routing names) ∧
      ComesTo RemoteInterface.parse tree root settings.isCancelled names (interfaces names)) ∧
    ∀ (reason : String → String) names failure,
      (unit names = .error failure → failure.path = pathText names ∧
        ListedAs TypeDeclaration.parse "unparsable_unit" (TypeDeclaration.refusal reason) tree root
          settings.isCancelled names failure.kind (failure.message (some reason))) ∧
      (routing names = .error failure → failure.path = pathText names ∧
        ListedAs Routing.parse "malformed_config_document" (Routing.refusal reason) tree root
          settings.isCancelled names failure.kind (failure.message (some reason))) ∧
      (interfaces names = .error failure → failure.path = pathText names ∧
        ListedAs RemoteInterface.parse "malformed_interface_document"
          (RemoteInterface.refusal reason) tree root settings.isCancelled names failure.kind
          (failure.message (some reason))) := by
  intro unit routing interfaces
  have hunit : ∀ names,
      ComesTo TypeDeclaration.parse tree root settings.isCancelled names (unit names) :=
    fun names => comesTo_ofFile (fun _ => settings.isCancelled) names
  have hrouting : ∀ names,
      ComesTo Routing.parse tree root settings.isCancelled names (routing names) :=
    fun names => comesTo_ofFile (fun _ => settings.isCancelled) names
  have hinterfaces : ∀ names,
      ComesTo RemoteInterface.parse tree root settings.isCancelled names (interfaces names) :=
    fun names => comesTo_ofFile (fun _ => settings.isCancelled) names
  refine ⟨merges_scanWith settings tree root fun _ => settings.isCancelled,
    fun names => ⟨hunit names, hrouting names, hinterfaces names⟩, fun reason names failure => ?_⟩
  refine ⟨fun h => ?_, fun h => ?_, fun h => ?_⟩
  · exact listedAs_of_comesTo TypeDeclaration.failsFor_parse (h ▸ hunit names) reason
  · exact listedAs_of_comesTo Routing.failsFor_parse (h ▸ hrouting names) reason
  · exact listedAs_of_comesTo RemoteInterface.failsFor_parse (h ▸ hinterfaces names) reason

end Survey
