/-
# Sorting by a name

A list that is sorted by a name without repetitions is determined by its elements: the order in which
they came does not show, and the names increase strictly.
-/
import Mathlib.Data.List.Nodup

namespace Survey

section

variable {α : Type} {name : α → String} {list list' : List α}

lemma pairwise_sorted (name : α → String) (list : List α) :
    (list.mergeSort fun a b => name a ≤ name b).Pairwise fun a b => name a ≤ name b := by
  have h : (list.mergeSort fun a b => name a ≤ name b).Pairwise
      fun a b => decide (name a ≤ name b) = true :=
    List.pairwise_mergeSort
      (fun a b c hab hbc => by simpa using String.le_trans (by simpa using hab) (by simpa using hbc))
      (fun a b => by simpa using String.le_total (name a) (name b)) list
  simpa using h

/-- Without repetitions the names increase strictly. -/
lemma pairwise_lt_sorted (hnodup : (list.map name).Nodup) :
    (list.mergeSort fun a b => name a ≤ name b).Pairwise fun a b => name a < name b := by
  have hne : (list.mergeSort fun a b => name a ≤ name b).Pairwise fun a b => name a ≠ name b := by
    have hsorted := ((List.mergeSort_perm list fun a b => name a ≤ name b).map name).nodup_iff.2 hnodup
    exact List.pairwise_map.1 hsorted
  refine (pairwise_sorted name list).imp₂ (fun a b hle hne => ?_) hne
  exact String.not_le.1 fun hge => hne (String.le_antisymm hle hge)

/-- Without repetitions the order in which the elements came does not show. -/
lemma sorted_eq_of_perm (hnodup : (list.map name).Nodup) (hperm : list.Perm list') :
    (list.mergeSort fun a b => name a ≤ name b) = list'.mergeSort fun a b => name a ≤ name b := by
  refine List.Perm.eq_of_pairwise ?_ (pairwise_sorted name list) (pairwise_sorted name list') ?_
  · intro a b ha hb hab hba
    refine List.inj_on_of_nodup_map hnodup (List.mem_mergeSort.1 ha) ?_ (String.le_antisymm hab hba)
    exact hperm.mem_iff.2 (List.mem_mergeSort.1 hb)
  · exact (List.mergeSort_perm _ _).trans (hperm.trans (List.mergeSort_perm _ _).symm)

end

end Survey
