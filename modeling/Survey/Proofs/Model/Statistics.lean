/-
# The statistics of a model

The statistics of a model are of two kinds.  What the scan saw is noted once and never changes.  What
the model holds is counted by the scan and by every new count, and in between it may be out of date:
a type that is taken out is still counted.  Right after a count the two agree, and the order in which
the types are enumerated does not show.

A type enters a model from a source unit that did not fail, and a name is held once, so there are
never more types than such units.
-/
import Survey.Proofs.Model.Changes
import Survey.Proofs.Scan.Merge

namespace Survey

/-! ### The size of a registry -/

namespace Registry

variable {κ ν : Type} [DecidableEq κ]

lemma size_insert_le (r : Registry κ ν) (key : κ) (value : ν) :
    (r.insert key value).size ≤ r.size + 1 := by
  have hkeys := congrArg List.length (keys_put key value r.toList)
  rw [List.length_map] at hkeys
  show (put key value r.toList).length ≤ r.toList.length + 1
  rw [hkeys]
  split <;> simp

/-- A registry grows by at most one with every pair that is put in. -/
lemma size_insertMany_le (r : Registry κ ν) (pairs : List (κ × ν)) :
    (r.insertMany pairs).size ≤ r.size + pairs.length := by
  induction pairs using List.reverseRecOn with
  | nil => exact Nat.le_refl _
  | append_singleton pairs pair ih =>
    have hlast := size_insert_le (r.insertMany pairs) pair.1 pair.2
    rw [insertMany_append, List.length_append, List.length_singleton]
    show ((r.insertMany pairs).insert pair.1 pair.2).size ≤ r.size + (pairs.length + 1)
    omega

lemma size_ofPairs_le (pairs : List (κ × ν)) : (ofPairs pairs).size ≤ pairs.length := by
  have hempty : (∅ : Registry κ ν).size = 0 := rfl
  have h := size_insertMany_le (∅ : Registry κ ν) pairs
  rw [hempty, Nat.zero_add] at h
  exact h

lemma size_erase_le (r : Registry κ ν) (key : κ) : (r.erase key).size ≤ r.size :=
  List.length_filter_le _ _

end Registry

/-! ### What was seen -/

/-- Two statistics agree on what the scan saw. -/
structure Statistics.SameSeen (statistics other : Statistics) : Prop where
  totalFilesSeen_eq : statistics.totalFilesSeen = other.totalFilesSeen
  sourceUnitsSeen_eq : statistics.sourceUnitsSeen = other.sourceUnitsSeen
  configDocumentsSeen_eq : statistics.configDocumentsSeen = other.configDocumentsSeen
  interfaceDocumentsSeen_eq : statistics.interfaceDocumentsSeen = other.interfaceDocumentsSeen
  peakConcurrentParses_eq : statistics.peakConcurrentParses = other.peakConcurrentParses

namespace Model

/-- No change touches what the scan saw. -/
lemma sameSeen_change {model : Model} {scanned : Statistics}
    (h : model.statistics.SameSeen scanned) (c : Change) :
    (model.change c).statistics.SameSeen scanned := by
  obtain ⟨htotal, hunits, hconfigs, hinterfaces, hpeak⟩ := h
  cases c with
  | dropClass q => exact ⟨htotal, hunits, hconfigs, hinterfaces, hpeak⟩
  | clearFailures => exact ⟨htotal, hunits, hconfigs, hinterfaces, hpeak⟩
  | recount => exact ⟨htotal, hunits, hconfigs, hinterfaces, hpeak⟩

/-- No change adds a type. -/
lemma size_classes_change_le (model : Model) (c : Change) :
    (model.change c).classes.size ≤ model.classes.size := by
  cases c with
  | dropClass q => exact model.classes.size_erase_le q
  | clearFailures => exact Nat.le_refl _
  | recount => exact Nat.le_refl _

/-- Every source unit that was seen failed or gave one type, which may have replaced another one. -/
lemma size_classes_scanWith (settings : Settings) (tree : FileTree) (root : List String)
    (isCancelled : List String → Bool) :
    (scanWith settings tree root isCancelled).classes.size +
        (failuresOf (Outcome.ofFile TypeDeclaration.parse tree root isCancelled)
          (Discovery.ofTree settings tree root).sourceUnits).length ≤
      (scanWith settings tree root isCancelled).statistics.sourceUnitsSeen := by
  have hseen := (merges_scanWith settings tree root isCancelled).seen_eq.1
  have hsum := length_results_add_failures
    (Outcome.ofFile TypeDeclaration.parse tree root isCancelled)
    (Discovery.ofTree settings tree root).sourceUnits
  have hsize := Registry.size_ofPairs_le
    ((resultsOf (Outcome.ofFile TypeDeclaration.parse tree root isCancelled)
      (Discovery.ofTree settings tree root).sourceUnits).map fun type => (type.qualifiedName, type))
  rw [List.length_map, ← results_map] at hsize
  rw [← results_map] at hsum
  have hclasses : (scanWith settings tree root isCancelled).classes =
      .ofPairs ((Outcome.results ((Discovery.ofTree settings tree root).sourceUnits.map
        (Outcome.ofFile TypeDeclaration.parse tree root isCancelled))).map
          fun type => (type.qualifiedName, type)) := rfl
  rw [hseen, hclasses]
  omega

/-! ### What is counted -/

/-- The counts of a model are those of what it holds, in whatever order its types are enumerated;
every name is held once, so a type that was replaced does not count. -/
structure Counted (model : Model) : Prop where
  nodup_keys : model.classes.keys.Nodup
  totalMethods_eq : ∀ types : List TypeDeclaration, types.Perm model.classes.values →
    model.statistics.totalMethods = (types.map (·.methods.length)).sum
  totalFields_eq : ∀ types : List TypeDeclaration, types.Perm model.classes.values →
    model.statistics.totalFields = (types.map (·.fields.length)).sum
  actionHandlerCount_eq : ∀ types : List TypeDeclaration, types.Perm model.classes.values →
    model.statistics.actionHandlerCount = types.countP (·.isActionHandlerClass)
  remoteServantCount_eq : ∀ types : List TypeDeclaration, types.Perm model.classes.values →
    model.statistics.remoteServantCount = types.countP (·.isRemoteServantClass)
  skippedFiles_eq : model.statistics.skippedFiles = model.failures.length

/-- A new count counts what is there. -/
lemma counted_recount {model : Model} (h : model.classes.keys.Nodup) : model.recount.Counted where
  nodup_keys := h
  totalMethods_eq _ hperm := List.length_flatMap.trans ((hperm.map _).sum_nat).symm
  totalFields_eq _ hperm := List.length_flatMap.trans ((hperm.map _).sum_nat).symm
  actionHandlerCount_eq _ hperm := (hperm.countP_eq _).symm
  remoteServantCount_eq _ hperm := (hperm.countP_eq _).symm
  skippedFiles_eq := rfl

/-- Names stay distinct when the model changes. -/
lemma nodup_keys_change {model : Model} (h : model.classes.keys.Nodup) (c : Change) :
    (model.change c).classes.keys.Nodup := by
  cases c with
  | dropClass q => exact Registry.nodup_keys_erase h q
  | clearFailures => exact h
  | recount => exact h

/-- **The statistics stay tied to the model.**  Right after a scan, and right after every new count
among the changes that follow it, the counts are those of the types and failures that the model holds
then.  After any changes the statistics still tell what the scan saw, and there are at most as many
types as source units were seen without failing. -/
theorem statistics_afterRun (settings : Settings) (tree : FileTree) (root : List String)
    (isCancelled : List String → Bool) :
    let scanned := scanWith settings tree root isCancelled
    let failed := failuresOf (Outcome.ofFile TypeDeclaration.parse tree root isCancelled)
      (Discovery.ofTree settings tree root).sourceUnits
    scanned.Counted ∧
    ∀ changes, (afterRun settings tree root isCancelled (changes ++ [.recount])).Counted ∧
      (afterRun settings tree root isCancelled changes).statistics.SameSeen scanned.statistics ∧
      (afterRun settings tree root isCancelled changes).classes.size + failed.length ≤
        scanned.statistics.sourceUnitsSeen := by
  intro scanned failed
  have hnodup : scanned.classes.keys.Nodup := Registry.nodup_keys_ofPairs _
  constructor
  · -- the scan ends with a count
    exact counted_recount hnodup
  intro changes
  have hkeys : (afterRun settings tree root isCancelled changes).classes.keys.Nodup :=
    holds_afterRun (P := fun model => model.classes.keys.Nodup) hnodup
      (fun _ c h => nodup_keys_change h c) changes
  refine ⟨?_, ?_, ?_⟩
  · have hrun : afterRun settings tree root isCancelled (changes ++ [.recount]) =
        (afterRun settings tree root isCancelled changes).recount := by
      rw [afterRun, List.foldl_append]
      rfl
    rw [hrun]
    exact counted_recount hkeys
  · exact holds_afterRun (P := fun model => model.statistics.SameSeen scanned.statistics)
      ⟨rfl, rfl, rfl, rfl, rfl⟩ (fun _ c h => sameSeen_change h c) changes
  · refine holds_afterRun
      (P := fun model => model.classes.size + failed.length ≤ scanned.statistics.sourceUnitsSeen)
      (size_classes_scanWith settings tree root isCancelled) (fun model c h => ?_) changes
    have hsize := model.size_classes_change_le c
    omega

end Model

end Survey
