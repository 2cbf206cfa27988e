/-
# Failing files do not disturb the others

A file that fails leaves one entry in the list of failures and nothing else.  Two scans show it: a
scan of a tree without the file has the same content, the other failures in the same order, and
counts that are one less.  A file that finds the scan cancelled contributes nothing but its own
entry, whichever other files do.
-/
import Survey.Proofs.FileTree.Removal
import Survey.Proofs.Scan.Merge

namespace Survey

/-! ### Discovered files -/

namespace Discovery

/-- All discovered files, in the order in which their outcomes are merged. -/
def files (d : Discovery) : List (List String) :=
  d.sourceUnits ++ d.routingConfigs ++ d.interfaceDefinitions

/-- Some of the discovered files. -/
def filter (keep : List String → Bool) (d : Discovery) : Discovery where
  sourceUnits := d.sourceUnits.filter keep
  routingConfigs := d.routingConfigs.filter keep
  interfaceDefinitions := d.interfaceDefinitions.filter keep

lemma files_filter (keep : List String → Bool) (d : Discovery) :
    (d.filter keep).files = d.files.filter keep := by
  rw [files, files, List.filter_append, List.filter_append]
  rfl

variable {settings : Settings} {tree : FileTree} {root names : List String}

lemma mem_ofCategory {category : Category} {places : List (List String)} :
    names ∈ ofCategory settings root category places ↔
      names ∈ places ∧ category? settings root names = some category := by
  rw [ofCategory, List.mem_filter, decide_eq_true_eq]

/-- The files of one category. -/
def inCategory (d : Discovery) : Category → List (List String)
  | .sourceUnit => d.sourceUnits
  | .routingConfig => d.routingConfigs
  | .interfaceDefinition => d.interfaceDefinitions

lemma mem_inCategory {category : Category} :
    names ∈ (ofTree settings tree root).inCategory category ↔
      names ∈ walk settings tree root ∧ category? settings root names = some category := by
  cases category <;> exact mem_ofCategory

lemma mem_files_iff : names ∈ (ofTree settings tree root).files ↔
    ∃ category, names ∈ (ofTree settings tree root).inCategory category := by
  rw [files, List.mem_append, List.mem_append]
  constructor
  · rintro ((h | h) | h)
    · exact ⟨.sourceUnit, h⟩
    · exact ⟨.routingConfig, h⟩
    · exact ⟨.interfaceDefinition, h⟩
  · rintro ⟨category, h⟩
    cases category with
    | sourceUnit => exact Or.inl (Or.inl h)
    | routingConfig => exact Or.inl (Or.inr h)
    | interfaceDefinition => exact Or.inr h

/-- No file is reported twice. -/
lemma nodup_walk (htree : tree.WellFormed) : (walk settings tree root).Nodup := by
  rw [walk]
  cases hroot : tree.at? root with
  | none => exact List.nodup_nil
  | some t =>
    obtain ⟨entry, -, hget⟩ := get?_of_at? hroot
    have hproper := (htree.properlyNamed.of_get? hget).2
    cases t with
    | file content => exact FileTree.nodup_places hproper
    | directory entries => exact FileTree.nodup_places hproper
    | link target =>
      cases hfollow : tree.follow root with
      | error error => exact List.nodup_nil
      | ok d =>
        obtain ⟨base, -, hd⟩ := get?_of_follow hfollow
        have hdproper := (htree.properlyNamed.of_get? hd).2
        cases hdirectory : d.isDirectory with
        | false => simp [hdirectory]
        | true =>
          simp only [if_true, List.nodup_cons, hdirectory]
          refine ⟨fun hmem => ?_, FileTree.nodup_places hdproper⟩
          -- the directory itself is not among its places
          obtain ⟨leaf, hleaf, hfile⟩ := FileTree.leaf_of_mem_places hdproper hmem
          rw [FileTree.get?_nil, Option.some.injEq] at hleaf
          simp [← hleaf, hdirectory] at hfile

lemma nodup_inCategory (htree : tree.WellFormed) (category : Category) :
    ((ofTree settings tree root).inCategory category).Nodup := by
  cases category <;> exact (nodup_walk htree).filter _

/-- Every file has one category, and is discovered once. -/
lemma nodup_files (htree : tree.WellFormed) : (ofTree settings tree root).files.Nodup := by
  have hdisjoint : ∀ c c' : Category, c ≠ c' →
      ∀ names ∈ (ofTree settings tree root).inCategory c,
        ∀ names' ∈ (ofTree settings tree root).inCategory c', names ≠ names' := by
    rintro c c' hne names hmem names' hmem' rfl
    have hcategory := (mem_inCategory.1 hmem).2.symm.trans (mem_inCategory.1 hmem').2
    exact hne (Option.some.inj hcategory)
  rw [files, List.nodup_append, List.nodup_append]
  refine ⟨⟨nodup_inCategory htree .sourceUnit, nodup_inCategory htree .routingConfig, ?_⟩,
    nodup_inCategory htree .interfaceDefinition, ?_⟩
  · exact hdisjoint .sourceUnit .routingConfig (by decide)
  · intro names hmem
    rcases List.mem_append.1 hmem with hmem | hmem
    · exact hdisjoint .sourceUnit .interfaceDefinition (by decide) names hmem
    · exact hdisjoint .routingConfig .interfaceDefinition (by decide) names hmem

/-- Without a file, the same files are discovered but that one. -/
lemma ofTree_remove (htree : tree.WellFormed) (h : names ∈ walk settings tree root)
    (hroot : ∀ place, tree.locateEntry (root ++ names) = .ok place →
      ¬ tree.LeadsThrough root place) :
    ofTree settings (tree.remove (root ++ names)) root =
      (ofTree settings tree root).filter (· ≠ names) := by
  simp only [ofTree, filter, ofCategory, walk_remove htree h hroot, List.filter_filter,
    Bool.and_comm]

end Discovery

/-! ### Content -/

/-- Two models hold the same under the same names, in the same order. -/
structure Model.SameContent (model other : Model) : Prop where
  classes_eq : model.classes = other.classes
  routes_eq : model.routes = other.routes
  globalForwards_eq : model.globalForwards = other.globalForwards
  formBeans_eq : model.formBeans = other.formBeans
  remoteInterfaces_eq : model.remoteInterfaces = other.remoteInterfaces

lemma Model.SameContent.symm {model other : Model} (h : model.SameContent other) :
    other.SameContent model :=
  ⟨h.classes_eq.symm, h.routes_eq.symm, h.globalForwards_eq.symm, h.formBeans_eq.symm,
    h.remoteInterfaces_eq.symm⟩

lemma Model.SameContent.trans {model other third : Model} (h : model.SameContent other)
    (h' : other.SameContent third) : model.SameContent third :=
  ⟨h.classes_eq.trans h'.classes_eq, h.routes_eq.trans h'.routes_eq,
    h.globalForwards_eq.trans h'.globalForwards_eq, h.formBeans_eq.trans h'.formBeans_eq,
    h.remoteInterfaces_eq.trans h'.remoteInterfaces_eq⟩

/-- The content of a model comes from the results alone. -/
lemma Model.sameContent_merge {outcomes others : Outcomes}
    (hunits : Outcome.results outcomes.units = Outcome.results others.units)
    (hroutings : Outcome.results outcomes.routings = Outcome.results others.routings)
    (hinterfaces : Outcome.results outcomes.interfaces = Outcome.results others.interfaces) :
    (Model.merge outcomes).SameContent (Model.merge others) := by
  constructor <;> simp only [Model.merge, hunits, hroutings, hinterfaces]

/-- A scan has the content of the outcomes that it merges. -/
lemma sameContent_scanWith (settings : Settings) (tree : FileTree) (root : List String)
    (isCancelled : List String → Bool) :
    (scanWith settings tree root isCancelled).SameContent
      (Model.merge (.ofDiscovery tree root isCancelled (.ofTree settings tree root))) :=
  ⟨rfl, rfl, rfl, rfl, rfl⟩

/-- Files without a result may be left out. -/
lemma resultsOf_filter {α : Type} {outcome other : List String → Outcome α}
    {files : List (List String)} {keep : List String → Bool}
    (hkeep : ∀ names ∈ files, keep names = true → other names = outcome names)
    (hdrop : ∀ names ∈ files, keep names = false → (outcome names).result? = none) :
    resultsOf other (files.filter keep) = resultsOf outcome files := by
  rw [resultsOf, resultsOf, List.filterMap_filter]
  refine List.filterMap_congr fun names hnames => ?_
  cases h : keep names with
  | true => simp [hkeep names hnames h]
  | false => simp [hdrop names hnames h]

/-! ### Failures -/

section

variable (settings : Settings) (tree : FileTree) (root : List String)
  (isCancelled : List String → Bool)

/-- The failure of a discovered file, if it fails: its name tells which parser it is for. -/
def failureOf? (names : List String) : Option Failure :=
  match Discovery.category? settings root names with
  | some .sourceUnit =>
    (Outcome.ofFile TypeDeclaration.parse tree root isCancelled names).failure?
  | some .routingConfig => (Outcome.ofFile Routing.parse tree root isCancelled names).failure?
  | some .interfaceDefinition =>
    (Outcome.ofFile RemoteInterface.parse tree root isCancelled names).failure?
  | none => none

/-- The failures of a scan are those of its files, one after the other. -/
lemma failures_scanWith :
    (scanWith settings tree root isCancelled).failures =
      (Discovery.ofTree settings tree root).files.filterMap
        (failureOf? settings tree root isCancelled) := by
  have hcategory : ∀ (category : Category) (failure : List String → Option Failure),
      (∀ names, Discovery.category? settings root names = some category →
        failureOf? settings tree root isCancelled names = failure names) →
      ((Discovery.ofTree settings tree root).inCategory category).filterMap failure =
        ((Discovery.ofTree settings tree root).inCategory category).filterMap
          (failureOf? settings tree root isCancelled) := by
    intro category failure h
    refine List.filterMap_congr fun names hnames => ?_
    exact (h names (Discovery.mem_inCategory.1 hnames).2).symm
  rw [(merges_scanWith settings tree root isCancelled).failures_eq, Discovery.files,
    List.filterMap_append, List.filterMap_append]
  congr 1
  · congr 1
    · exact hcategory .sourceUnit _ fun names h => by rw [failureOf?, h]
    · exact hcategory .routingConfig _ fun names h => by rw [failureOf?, h]
  · exact hcategory .interfaceDefinition _ fun names h => by rw [failureOf?, h]

end

/-- The statistics with one more file of a category that was skipped. -/
def Statistics.withSkipped (statistics : Statistics) : Category → Statistics
  | .sourceUnit =>
    { statistics with
      totalFilesSeen := statistics.totalFilesSeen + 1
      sourceUnitsSeen := statistics.sourceUnitsSeen + 1
      skippedFiles := statistics.skippedFiles + 1 }
  | .routingConfig =>
    { statistics with
      totalFilesSeen := statistics.totalFilesSeen + 1
      configDocumentsSeen := statistics.configDocumentsSeen + 1
      skippedFiles := statistics.skippedFiles + 1 }
  | .interfaceDefinition =>
    { statistics with
      totalFilesSeen := statistics.totalFilesSeen + 1
      interfaceDocumentsSeen := statistics.interfaceDocumentsSeen + 1
      skippedFiles := statistics.skippedFiles + 1 }

/-- A model that differs from another one by one failure of a category, which stands between the
others. -/
structure Model.GainsFailure (model without : Model) (category : Category) (failure : Failure)
    (before after : List Failure) : Prop where
  sameContent : model.SameContent without
  failures_eq : model.failures = before ++ failure :: after
  failures_without : without.failures = before ++ after
  statistics_eq : model.statistics =
    { without.statistics.withSkipped category with
      peakConcurrentParses := model.statistics.peakConcurrentParses }

/-- A file fails alone: it is discovered once, and the scan differs from one without the file by its
failure, which stands between those of the files before it and those of the files behind it. -/
def FailsAlone (settings : Settings) (tree : FileTree) (root : List String)
    (isCancelled : List String → Bool) (names : List String) (failure : Failure) : Prop :=
  ∃ before after category,
    (Discovery.ofTree settings tree root).files = before ++ names :: after ∧
    names ∉ before ∧ names ∉ after ∧
    Discovery.category? settings root names = some category ∧
    (scanWith settings tree root isCancelled).GainsFailure
      (scanWith settings (tree.remove (root ++ names)) root isCancelled) category failure
      (before.filterMap (failureOf? settings tree root isCancelled))
      (after.filterMap (failureOf? settings tree root isCancelled))

/-! ### A scan without a failing file -/

section

variable {settings : Settings} {tree : FileTree} {root names : List String}
  {isCancelled : List String → Bool}

lemma ofFile_congr {α : Type} (parse : String → String → Outcome α) {other : FileTree}
    (h : other.read (root ++ names) = tree.read (root ++ names)) :
    Outcome.ofFile parse other root isCancelled names =
      Outcome.ofFile parse tree root isCancelled names := by
  simp only [Outcome.ofFile, h]

lemma category?_of_failureOf? {failure : Failure}
    (h : failureOf? settings tree root isCancelled names = some failure) :
    ∃ category, Discovery.category? settings root names = some category := by
  cases hcategory : Discovery.category? settings root names with
  | none => simp [failureOf?, hcategory] at h
  | some category => exact ⟨category, rfl⟩

lemma result?_eq_none_of_failure? {α : Type} {outcome : Outcome α} {failure : Failure}
    (h : outcome.failure? = some failure) : outcome.result? = none := by
  rw [Outcome.failure?_eq_some_iff] at h
  rw [h]
  rfl

/-- The statistics of a scan, from the files that it saw, the types in its model, the number of
files that it skipped and the peak of parses under way. -/
def Statistics.ofScan (d : Discovery) (types : List TypeDeclaration) (skipped peak : Nat) :
    Statistics where
  totalFilesSeen := d.total
  sourceUnitsSeen := (d.inCategory .sourceUnit).length
  configDocumentsSeen := (d.inCategory .routingConfig).length
  interfaceDocumentsSeen := (d.inCategory .interfaceDefinition).length
  actionHandlerCount := types.countP (·.isActionHandlerClass)
  remoteServantCount := types.countP (·.isRemoteServantClass)
  totalMethods := (types.flatMap (·.methods)).length
  totalFields := (types.flatMap (·.fields)).length
  skippedFiles := skipped
  peakConcurrentParses := peak

lemma statistics_scanWith (settings : Settings) (tree : FileTree) (root : List String)
    (isCancelled : List String → Bool) :
    ∃ peak, (scanWith settings tree root isCancelled).statistics =
      .ofScan (.ofTree settings tree root) (scanWith settings tree root isCancelled).classes.values
        (scanWith settings tree root isCancelled).failures.length peak :=
  ⟨_, rfl⟩

/-- One more file of a category that is skipped changes three counts. -/
lemma Statistics.ofScan_eq_withSkipped {d d' : Discovery} {category : Category}
    (h : ∀ c, (d.inCategory c).length =
      (d'.inCategory c).length + if c = category then 1 else 0)
    (types : List TypeDeclaration) (skipped peak peak' : Nat) :
    Statistics.ofScan d types (skipped + 1) peak =
      { (Statistics.ofScan d' types skipped peak').withSkipped category with
        peakConcurrentParses := peak } := by
  have hunits := h .sourceUnit
  have hroutings := h .routingConfig
  have hinterfaces := h .interfaceDefinition
  have htotal : d.total = d'.total + 1 := by
    simp only [Discovery.inCategory] at hunits hroutings hinterfaces
    rw [Discovery.total, Discovery.total, hunits, hroutings, hinterfaces]
    cases category <;> simp <;> omega
  simp only [Statistics.ofScan, htotal, hunits, hroutings, hinterfaces]
  cases category <;> simp [Statistics.withSkipped]

lemma filter_ne_of_nodup {before after : List (List String)}
    (h : (before ++ names :: after).Nodup) :
    names ∉ before ∧ names ∉ after ∧
      (before ++ names :: after).filter (· ≠ names) = before ++ after := by
  obtain ⟨-, hcons, hdisjoint⟩ := List.nodup_append.1 h
  have hbefore : names ∉ before := fun hmem => hdisjoint names hmem names (by simp) rfl
  have hafter : names ∉ after := (List.nodup_cons.1 hcons).1
  have hkeep : ∀ l : List (List String), names ∉ l → l.filter (· ≠ names) = l := by
    intro l hl
    refine List.filter_eq_self.2 fun names' hnames' => ?_
    simpa using fun heq : names' = names => hl (heq ▸ hnames')
  refine ⟨hbefore, hafter, ?_⟩
  rw [List.filter_append, List.filter_cons_of_neg (by simp), hkeep before hbefore,
    hkeep after hafter]

/-- Without one file, there is one file less in its own category. -/
lemma length_inCategory_filter (htree : tree.WellFormed) {category : Category}
    (hmem : names ∈ (Discovery.ofTree settings tree root).inCategory category) (c : Category) :
    ((Discovery.ofTree settings tree root).inCategory c).length =
      (((Discovery.ofTree settings tree root).filter (· ≠ names)).inCategory c).length +
        if c = category then 1 else 0 := by
  have hfilter : ((Discovery.ofTree settings tree root).filter (· ≠ names)).inCategory c =
      ((Discovery.ofTree settings tree root).inCategory c).filter (· ≠ names) := by
    cases c <;> rfl
  rw [hfilter]
  by_cases hc : c = category
  · subst hc
    have hnodup : ((Discovery.ofTree settings tree root).inCategory c).Nodup :=
      Discovery.nodup_inCategory htree c
    obtain ⟨before, after, heq⟩ := List.append_of_mem hmem
    rw [heq] at hnodup ⊢
    rw [(filter_ne_of_nodup hnodup).2.2]
    simp
    omega
  · rw [if_neg hc, List.filter_eq_self.2]
    · rfl
    · intro names' hnames'
      have hneq : names' ≠ names := by
        rintro rfl
        have hcategory :=
          (Discovery.mem_inCategory.1 hnames').2.symm.trans (Discovery.mem_inCategory.1 hmem).2
        exact hc (Option.some.inj hcategory)
      simpa using hneq

section

variable {failure : Failure} (htree : tree.WellFormed)
  (hmem : names ∈ (Discovery.ofTree settings tree root).files)
  (hlinks : tree.NoLinkThrough (root ++ names))
  (hroot : ∀ place, tree.locateEntry (root ++ names) = .ok place → ¬ tree.LeadsThrough root place)

include htree hmem hlinks hroot

/-- Without a file, every other discovered file comes to what it came to before. -/
lemma ofFile_remove {α : Type} (parse : String → String → Outcome α) {other : List String}
    (hother : other ∈ (Discovery.ofTree settings tree root).files) (hne : other ≠ names) :
    Outcome.ofFile parse (tree.remove (root ++ names)) root isCancelled other =
      Outcome.ofFile parse tree root isCancelled other := by
  obtain ⟨c, hc⟩ := Discovery.mem_files_iff.1 hmem
  obtain ⟨c', hc'⟩ := Discovery.mem_files_iff.1 hother
  exact ofFile_congr parse (Discovery.read_remove htree (Discovery.mem_inCategory.1 hc).1 hroot hlinks
    (Discovery.mem_inCategory.1 hc').1 hne)

/-- Without a failing file, the results of every category are the same. -/
lemma results_remove {α : Type} (parse : String → String → Outcome α) (category : Category)
    (hfails : Discovery.category? settings root names = some category →
      (Outcome.ofFile parse tree root isCancelled names).result? = none) :
    resultsOf (Outcome.ofFile parse (tree.remove (root ++ names)) root isCancelled)
        (((Discovery.ofTree settings tree root).inCategory category).filter (· ≠ names)) =
      resultsOf (Outcome.ofFile parse tree root isCancelled)
        ((Discovery.ofTree settings tree root).inCategory category) := by
  refine resultsOf_filter (fun other hother hkeep => ?_) fun other hother hdrop => ?_
  · exact ofFile_remove htree hmem hlinks hroot parse
      (Discovery.mem_files_iff.2 ⟨category, hother⟩) (by simpa using hkeep)
  · obtain rfl : other = names := by simpa using hdrop
    exact hfails (Discovery.mem_inCategory.1 hother).2

/-- A scan without a failing file differs by that failure. -/
lemma failsAlone_of_failureOf?
    (hfailure : failureOf? settings tree root isCancelled names = some failure) :
    FailsAlone settings tree root isCancelled names failure := by
  obtain ⟨category, hcategory⟩ := category?_of_failureOf? hfailure
  obtain ⟨c, hc⟩ := Discovery.mem_files_iff.1 hmem
  obtain rfl : category = c :=
    Option.some.inj (hcategory.symm.trans (Discovery.mem_inCategory.1 hc).2)
  have hseen : Discovery.ofTree settings (tree.remove (root ++ names)) root =
      (Discovery.ofTree settings tree root).filter (· ≠ names) :=
    Discovery.ofTree_remove htree (Discovery.mem_inCategory.1 hc).1 hroot
  obtain ⟨before, after, heq⟩ := List.append_of_mem hmem
  have hnodup : (Discovery.ofTree settings tree root).files.Nodup := Discovery.nodup_files htree
  rw [heq] at hnodup
  obtain ⟨hbefore, hafter, hfilter⟩ := filter_ne_of_nodup hnodup
  -- the failing file has no result in its own category, and does not occur in the others
  have hcontent : (scanWith settings tree root isCancelled).SameContent
      (scanWith settings (tree.remove (root ++ names)) root isCancelled) := by
    refine (sameContent_scanWith _ _ _ _).trans
      ((Model.sameContent_merge ?_ ?_ ?_).trans (sameContent_scanWith _ _ _ _).symm)
    all_goals
      rw [hseen]
      simp only [Outcomes.ofDiscovery, results_map]
      symm
    · exact results_remove htree hmem hlinks hroot _ .sourceUnit fun h => by
        rw [failureOf?, h] at hfailure
        exact result?_eq_none_of_failure? hfailure
    · exact results_remove htree hmem hlinks hroot _ .routingConfig fun h => by
        rw [failureOf?, h] at hfailure
        exact result?_eq_none_of_failure? hfailure
    · exact results_remove htree hmem hlinks hroot _ .interfaceDefinition fun h => by
        rw [failureOf?, h] at hfailure
        exact result?_eq_none_of_failure? hfailure
  have hothers : ∀ other ∈ before ++ after,
      failureOf? settings (tree.remove (root ++ names)) root isCancelled other =
        failureOf? settings tree root isCancelled other := by
    intro other hother
    have hne : other ≠ names := by
      rintro rfl
      rcases List.mem_append.1 hother with h | h
      · exact hbefore h
      · exact hafter h
    have hfile : other ∈ (Discovery.ofTree settings tree root).files := by
      rw [heq]
      rcases List.mem_append.1 hother with h | h <;> simp [h]
    simp only [failureOf?, ofFile_remove htree hmem hlinks hroot _ hfile hne]
  have hfailures : (scanWith settings tree root isCancelled).failures =
      before.filterMap (failureOf? settings tree root isCancelled) ++
        failure :: after.filterMap (failureOf? settings tree root isCancelled) := by
    rw [failures_scanWith, heq, List.filterMap_append, List.filterMap_cons_some hfailure]
  have hwithout : (scanWith settings (tree.remove (root ++ names)) root isCancelled).failures =
      before.filterMap (failureOf? settings tree root isCancelled) ++
        after.filterMap (failureOf? settings tree root isCancelled) := by
    rw [failures_scanWith, hseen, Discovery.files_filter, heq, hfilter,
      List.filterMap_congr hothers, List.filterMap_append]
  refine ⟨before, after, category, heq, hbefore, hafter, hcategory, hcontent, hfailures, hwithout, ?_⟩
  obtain ⟨peak, hstatistics⟩ := statistics_scanWith settings tree root isCancelled
  obtain ⟨peak', hstatistics'⟩ :=
    statistics_scanWith settings (tree.remove (root ++ names)) root isCancelled
  have hskipped : (scanWith settings tree root isCancelled).failures.length =
      (scanWith settings (tree.remove (root ++ names)) root isCancelled).failures.length + 1 := by
    rw [hfailures, hwithout]
    simp
    omega
  rw [hstatistics, hstatistics', hskipped, hcontent.classes_eq, hseen]
  exact Statistics.ofScan_eq_withSkipped (length_inCategory_filter htree hc) _ _ _ _

end

end

/-! ### A scan that some files find cancelled -/

section

variable {settings : Settings} {tree : FileTree} {root names : List String}

lemma ofFile_of_cancelled {α : Type} (parse : String → String → Outcome α)
    {isCancelled : List String → Bool} (h : isCancelled names = true) :
    Outcome.ofFile parse tree root isCancelled names = .error ⟨pathText names, .cancelled⟩ :=
  if_pos h

lemma ofFile_of_not_cancelled {α : Type} (parse : String → String → Outcome α)
    {isCancelled : List String → Bool} (h : isCancelled names = false) :
    Outcome.ofFile parse tree root isCancelled names =
      Outcome.ofFile parse tree root (fun _ => false) names := by
  simp only [Outcome.ofFile, h]

/-- A file that does not find the scan cancelled fails for another cause. -/
lemma cause_ne_cancelled {α : Type} {parse : String → String → Outcome α} {kind : String}
    {refusal : (String → String) → String → String → String} (hparse : FailsFor parse kind refusal)
    (hkind : kind ≠ "cancelled") {failure : Failure}
    (h : Outcome.ofFile parse tree root (fun _ => false) names = .error failure) :
    failure.cause ≠ .cancelled := by
  intro hcause
  have hcomes : ComesTo parse tree root false names (.error failure) :=
    h ▸ comesTo_ofFile (fun _ => false) names
  generalize houtcome : (Except.error failure : Outcome α) = outcome at hcomes
  cases hcomes with
  | cancelled hcancelled => simp at hcancelled
  | unreadable hcancelled hread =>
    obtain rfl := Except.error.inj houtcome
    simp at hcause
  | parsed hcancelled hread =>
    have hfailure := hparse.kind_eq houtcome.symm
    rw [Failure.kind, hcause] at hfailure
    exact hkind hfailure.symm

lemma cause_of_failureOf? {failure : Failure}
    (h : failureOf? settings tree root (fun _ => false) names = some failure) :
    failure.cause ≠ .cancelled := by
  obtain ⟨category, hcategory⟩ := category?_of_failureOf? h
  rw [failureOf?, hcategory] at h
  cases category with
  | sourceUnit =>
    exact cause_ne_cancelled TypeDeclaration.failsFor_parse (by decide)
      (Outcome.failure?_eq_some_iff.1 h)
  | routingConfig =>
    exact cause_ne_cancelled Routing.failsFor_parse (by decide) (Outcome.failure?_eq_some_iff.1 h)
  | interfaceDefinition =>
    exact cause_ne_cancelled RemoteInterface.failsFor_parse (by decide)
      (Outcome.failure?_eq_some_iff.1 h)

variable (isCancelled : List String → Bool)

/-- A discovered file that finds the scan cancelled fails for that; the others fail as they would. -/
lemma failureOf?_eq (h : names ∈ (Discovery.ofTree settings tree root).files) :
    failureOf? settings tree root isCancelled names =
      if isCancelled names then some ⟨pathText names, .cancelled⟩
      else failureOf? settings tree root (fun _ => false) names := by
  obtain ⟨category, hmem⟩ := Discovery.mem_files_iff.1 h
  have hcategory := (Discovery.mem_inCategory.1 hmem).2
  rw [failureOf?, failureOf?, hcategory]
  cases hcancelled : isCancelled names with
  | true => cases category <;> simp only [ofFile_of_cancelled _ hcancelled] <;> rfl
  | false => cases category <;> simp only [ofFile_of_not_cancelled _ hcancelled] <;> rfl

/-- The content of a scan that some files find cancelled comes from the other files. -/
lemma sameContent_of_cancelled (settings : Settings) (tree : FileTree) (root : List String) :
    (scanWith settings tree root isCancelled).SameContent
      (Model.merge (.ofDiscovery tree root (fun _ => false)
        ((Discovery.ofTree settings tree root).filter fun names => !isCancelled names))) := by
  have hresults : ∀ {α : Type} (parse : String → String → Outcome α) (files : List (List String)),
      resultsOf (Outcome.ofFile parse tree root isCancelled) files =
        resultsOf (Outcome.ofFile parse tree root fun _ => false)
          (files.filter fun names => !isCancelled names) := by
    intro α parse files
    refine (resultsOf_filter (fun names _ hkeep => ?_) fun names _ hdrop => ?_).symm
    · exact (ofFile_of_not_cancelled parse (by simpa using hkeep)).symm
    · rw [ofFile_of_cancelled parse (by simpa using hdrop)]
      rfl
  refine (sameContent_scanWith _ _ _ _).trans (Model.sameContent_merge ?_ ?_ ?_)
  all_goals
    simp only [Outcomes.ofDiscovery, results_map, Discovery.filter]
    exact hresults _ _

/-- The failures that are cancellations are those of the files that find the scan cancelled. -/
lemma filter_cancelled_failures (settings : Settings) (tree : FileTree) (root : List String) :
    (scanWith settings tree root isCancelled).failures.filter (fun f => f.cause = .cancelled) =
      ((Discovery.ofTree settings tree root).files.filter isCancelled).map
        fun names => ⟨pathText names, .cancelled⟩ := by
  rw [failures_scanWith, List.filterMap_congr fun names h => failureOf?_eq isCancelled h]
  generalize (Discovery.ofTree settings tree root).files = files
  induction files with
  | nil => rfl
  | cons names files ih =>
    cases hcancelled : isCancelled names with
    | true =>
      rw [List.filterMap_cons_some (b := ⟨pathText names, .cancelled⟩) (by simp [hcancelled]),
        List.filter_cons_of_pos (by simp), List.filter_cons_of_pos hcancelled, List.map_cons, ih]
    | false =>
      rw [List.filter_cons_of_neg (by simp [hcancelled])]
      cases hfailure : failureOf? settings tree root (fun _ => false) names with
      | none =>
        rw [List.filterMap_cons_none (by simp [hcancelled, hfailure]), ih]
      | some failure =>
        have hcause := cause_of_failureOf? hfailure
        rw [List.filterMap_cons_some (b := failure) (by simp [hcancelled, hfailure]),
          List.filter_cons_of_neg (by simpa using hcause), ih]

end

/-! ### Isolation -/

/-- **Failures are isolated.**  Whichever files find the scan of a well-formed tree cancelled:
without a failing file, which no other link asks for and the root does not lead through, the scan
has the same content, its other failures in order, and counts that are one less; and the content
comes from the files that do not find the scan cancelled, while each of the others has one entry,
in its place, among the failures. -/
theorem scan_isolates_failures (settings : Settings) (tree : FileTree) (root : List String)
    (isCancelled : List String → Bool) (htree : tree.WellFormed) :
    (∀ names ∈ (Discovery.ofTree settings tree root).files, ∀ failure,
      failureOf? settings tree root isCancelled names = some failure →
      tree.NoLinkThrough (root ++ names) →
      (∀ place, tree.locateEntry (root ++ names) = .ok place → ¬ tree.LeadsThrough root place) →
      FailsAlone settings tree root isCancelled names failure) ∧
    (scanWith settings tree root isCancelled).SameContent
      (Model.merge (.ofDiscovery tree root (fun _ => false)
        ((Discovery.ofTree settings tree root).filter fun names => !isCancelled names))) ∧
    (Discovery.ofTree settings tree root).files.Nodup ∧
    (scanWith settings tree root isCancelled).failures =
      (Discovery.ofTree settings tree root).files.filterMap (fun names =>
        if isCancelled names then some ⟨pathText names, .cancelled⟩
        else failureOf? settings tree root (fun _ => false) names) ∧
    (scanWith settings tree root isCancelled).failures.filter (fun f => f.cause = .cancelled) =
      ((Discovery.ofTree settings tree root).files.filter isCancelled).map
        fun names => ⟨pathText names, .cancelled⟩ := by
  refine ⟨fun names hmem failure hfailure hlinks hroot => ?_, ?_, ?_, ?_, ?_⟩
  · exact failsAlone_of_failureOf? htree hmem hlinks hroot hfailure
  · exact sameContent_of_cancelled isCancelled settings tree root
  · exact Discovery.nodup_files htree
  · rw [failures_scanWith]
    exact List.filterMap_congr fun names h => failureOf?_eq isCancelled h
  · exact filter_cancelled_failures isCancelled settings tree root

/-- A tree with a source unit and a link that leads nowhere. -/
def danglingTree : FileTree :=
  .directory [("A.java", .file (.ok [99, 108, 97, 115, 115, 32, 65, 123, 125])), ("B.java", .link "none")]

lemma danglingTree_wellFormed : danglingTree.WellFormed := by decide

lemma places_danglingTree (ignored : List String) :
    danglingTree.places ignored = [["A.java"], ["B.java"]] := by
  rw [danglingTree, FileTree.places_of_pairwise (by decide) (by decide)]
  rfl

lemma link_of_danglingTree {place : List String} {target : String}
    (h : danglingTree.get? place = some (.link target)) : place = ["B.java"] := by
  have hmem := FileTree.mem_places_of_link danglingTree_wellFormed.properlyNamed h
  simp only [places_danglingTree, List.mem_cons, List.not_mem_nil, or_false] at hmem
  rcases hmem with rfl | rfl
  · cases h
  · rfl

/-- The scan of a tree with a dangling link gains the failure of the link, and nothing else. -/
theorem scan_isolates_dangling_link :
    danglingTree.WellFormed ∧ ["B.java"] ∈ (Discovery.ofTree {} danglingTree []).files ∧
      ∃ before after category,
        (scanWith {} danglingTree [] fun _ => false).GainsFailure
          (scanWith {} (danglingTree.remove ["B.java"]) [] fun _ => false) category
          ⟨"B.java", .unreadable .noSuchFile⟩ before after := by
  have hwalk : Discovery.walk {} danglingTree [] = [["A.java"], ["B.java"]] := places_danglingTree _
  have hmem : ["B.java"] ∈ (Discovery.ofTree {} danglingTree []).files :=
    Discovery.mem_files_iff.2
      ⟨.sourceUnit, Discovery.mem_inCategory.2 ⟨by simp [hwalk], by decide⟩⟩
  have hentry : danglingTree.locateEntry ["B.java"] = .ok ["B.java"] := by decide
  have hfailure : failureOf? {} danglingTree [] (fun _ => false) ["B.java"] =
      some ⟨"B.java", .unreadable .noSuchFile⟩ := by decide
  have hlinks : danglingTree.NoLinkThrough ([] ++ ["B.java"]) := by
    intro place hplace dir name target hlink hne
    obtain rfl := Except.ok.inj (hentry.symm.trans hplace)
    exact absurd (link_of_danglingTree hlink) hne
  have hroot : ∀ place, danglingTree.locateEntry ([] ++ ["B.java"]) = .ok place →
      ¬ danglingTree.LeadsThrough [] place := by
    rintro place - ⟨d, -, -, htrail⟩
    simp [FileTree.trail] at htrail
  obtain ⟨before, after, category, -, -, -, -, h⟩ :=
    (scan_isolates_failures {} danglingTree [] (fun _ => false) danglingTree_wellFormed).1
      ["B.java"] hmem _ hfailure hlinks hroot
  exact ⟨danglingTree_wellFormed, hmem, _, _, category, h⟩

/-- A tree in which a link leads to a directory. -/
def linkedTree : FileTree :=
  .directory [("d", .directory [("A.java", .file (.ok []))]), ("x.java", .link "d")]

lemma linkedTree_wellFormed : linkedTree.WellFormed := by decide

lemma link_of_linkedTree {place : List String} {target : String}
    (h : linkedTree.get? place = some (.link target)) : place = ["x.java"] := by
  have hplaces : linkedTree.places [] = [["d", "A.java"], ["x.java"]] := by
    rw [linkedTree, FileTree.places_of_pairwise (by decide) (by decide)]
    decide +kernel
  have hmem := FileTree.mem_places_of_link linkedTree_wellFormed.properlyNamed h
  simp only [hplaces, List.mem_cons, List.not_mem_nil, or_false] at hmem
  rcases hmem with rfl | rfl
  · cases h
  · rfl

/-- Without the link that the root is, nothing of what the link leads to is seen. -/
lemma not_failsAlone_linkedTree :
    ¬ FailsAlone {} linkedTree ["x.java"] (fun _ => false) [] ⟨"", .unreadable .isADirectory⟩ := by
  rintro ⟨before, after, category, -, -, -, -, h⟩
  have hseen : (scanWith {} linkedTree ["x.java"] fun _ => false).statistics.totalFilesSeen = 2 := by
    decide +kernel
  have hseen' : (scanWith {} (linkedTree.remove (["x.java"] ++ [])) ["x.java"]
      fun _ => false).statistics.totalFilesSeen = 0 := by
    decide +kernel
  have htotal := congrArg Statistics.totalFilesSeen h.statistics_eq
  have hone : ∀ statistics : Statistics,
      (statistics.withSkipped category).totalFilesSeen = statistics.totalFilesSeen + 1 := by
    cases category <;> exact fun _ => rfl
  rw [hseen] at htotal
  simp only [hone, hseen'] at htotal
  omega

/-- A tree in which the way of a link ends at a source unit, as if that were a directory. -/
def stuckTree : FileTree :=
  .directory [("L.java", .link "f.java/x"), ("f.java", .file (.ok []))]

lemma stuckTree_wellFormed : stuckTree.WellFormed := by decide

lemma places_stuckTree (ignored : List String) :
    stuckTree.places ignored = [["L.java"], ["f.java"]] := by
  rw [stuckTree, FileTree.places_of_pairwise (by decide) (by decide)]
  rfl

lemma link_of_stuckTree {place : List String} {target : String}
    (h : stuckTree.get? place = some (.link target)) : place = ["L.java"] := by
  have hmem := FileTree.mem_places_of_link stuckTree_wellFormed.properlyNamed h
  simp only [places_stuckTree, List.mem_cons, List.not_mem_nil, or_false] at hmem
  rcases hmem with rfl | rfl
  · rfl
  · cases h

lemma files_stuckTree : (Discovery.ofTree {} stuckTree []).files = [["L.java"], ["f.java"]] := by
  have hwalk : Discovery.walk {} stuckTree [] = [["L.java"], ["f.java"]] := places_stuckTree _
  rw [Discovery.ofTree, hwalk]
  decide

/-- Without the source unit, the link fails for another reason. -/
lemma not_failsAlone_stuckTree :
    ¬ FailsAlone {} stuckTree [] (fun _ => false) ["f.java"] ⟨"f.java", .noDeclaration⟩ := by
  rintro ⟨before, after, category, -, -, -, -, h⟩
  have hfailures : (scanWith {} stuckTree [] fun _ => false).failures =
      [⟨"L.java", .unreadable .notADirectory⟩, ⟨"f.java", .noDeclaration⟩] := by
    rw [failures_scanWith, files_stuckTree]
    decide
  have hwithout : (scanWith {} (stuckTree.remove ([] ++ ["f.java"])) [] fun _ => false).failures =
      [⟨"L.java", .unreadable .noSuchFile⟩] := by
    have hfiles : (Discovery.ofTree {} (stuckTree.remove ([] ++ ["f.java"])) []).files =
        [["L.java"]] := by
      decide +kernel
    rw [failures_scanWith, hfiles]
    decide
  have hmem : ⟨"L.java", .unreadable .notADirectory⟩ ∈
      (scanWith {} stuckTree [] fun _ => false).failures := by
    simp [hfailures]
  have hkept : ⟨"L.java", .unreadable .notADirectory⟩ ∈
      (scanWith {} (stuckTree.remove ([] ++ ["f.java"])) [] fun _ => false).failures := by
    rw [h.failures_eq] at hmem
    rw [h.failures_without]
    simpa using hmem
  rw [hwithout] at hkept
  simp at hkept

/-- No other link of a tree that leads anywhere asks for the entry at the end of a path. -/
def FileTree.NoResolvingLinkThrough (tree : FileTree) (names : List String) : Prop :=
  ∀ place, tree.locateEntry names = .ok place →
    ∀ dir name target, tree.get? (dir ++ [name]) = some (.link target) → dir ++ [name] ≠ place →
      (∃ found, tree.follow (dir ++ [name]) = .ok found) →
        place ∉ tree.trailFrom FileTree.maxLinks dir [name]

/-- The isolation of failures needs both of its hypotheses.  A scan whose root leads through a failing
file loses more than the failure without it: here the root is a link to a directory, which is reported as
a file that cannot be read, and without the link nothing is discovered at all.  And a link that leads
nowhere may do so for the file: without the file it leads nowhere for another reason. -/
theorem removal_of_linked_file_not_isolated :
    (¬ ∀ (settings : Settings) (tree : FileTree) (root : List String)
      (isCancelled : List String → Bool), tree.WellFormed →
      ∀ names ∈ (Discovery.ofTree settings tree root).files, ∀ failure,
        failureOf? settings tree root isCancelled names = some failure →
        tree.NoLinkThrough (root ++ names) →
        FailsAlone settings tree root isCancelled names failure) ∧
    ¬ ∀ (settings : Settings) (tree : FileTree) (root : List String)
      (isCancelled : List String → Bool), tree.WellFormed →
      ∀ names ∈ (Discovery.ofTree settings tree root).files, ∀ failure,
        failureOf? settings tree root isCancelled names = some failure →
        tree.NoResolvingLinkThrough (root ++ names) →
        (∀ place, tree.locateEntry (root ++ names) = .ok place → ¬ tree.LeadsThrough root place) →
        FailsAlone settings tree root isCancelled names failure := by
  constructor
  · intro hclaim
    have hfiles : (Discovery.ofTree {} linkedTree ["x.java"]).files = [[], ["A.java"]] := by
      decide +kernel
    have hentry : linkedTree.locateEntry ["x.java"] = .ok ["x.java"] := by decide
    refine not_failsAlone_linkedTree (hclaim {} linkedTree ["x.java"] _ linkedTree_wellFormed []
      (by simp [hfiles]) _ (by decide) fun place hplace dir name target hlink hne => ?_)
    obtain rfl := Except.ok.inj (hentry.symm.trans hplace)
    exact absurd (link_of_linkedTree hlink) hne
  · intro hclaim
    have hstuck : (stuckTree.follow ["L.java"]).isOk = false := by decide
    refine not_failsAlone_stuckTree (hclaim {} stuckTree [] _ stuckTree_wellFormed ["f.java"]
      (by simp [files_stuckTree]) _ (by decide) ?_ ?_)
    · -- the only link leads nowhere
      rintro place - dir name target hlink - ⟨found, hfound⟩
      rw [link_of_stuckTree hlink] at hfound
      simp [hfound, Except.isOk, Except.toBool] at hstuck
    · rintro place - ⟨d, -, -, htrail⟩
      simp [FileTree.trail] at htrail

end Survey
