/-
# Look-up in registries

A registry that was filled pair by pair gives under every key the value that was put there last.
Its keys never repeat, so its pairs and its look-up say the same: a pair is in the registry exactly
when its value is found under its key.  What a registry was filled with determines it, and registries
that were filled apart can be merged without looking at what they were filled with
(`FilledWith.foldl_merge`).
-/
import Mathlib.Data.List.Induction
import Mathlib.Data.List.Nodup
import Survey.Distinct
import Survey.Registry

namespace Survey

namespace Registry

variable {κ ν : Type} [DecidableEq κ]

/-! ### Look-up after one change -/

lemma get?_empty (q : κ) : (∅ : Registry κ ν).get? q = none := rfl

lemma get?_insert (r : Registry κ ν) (key : κ) (value : ν) (q : κ) :
    (r.insert key value).get? q = if q = key then some value else r.get? q := by
  obtain ⟨pairs⟩ := r
  simp only [get?, toList_insert]
  induction pairs with
  | nil =>
    by_cases h : q = key
    · simp [put, h]
    · simp [put, h, Ne.symm h]
  | cons pair rest ih =>
    obtain ⟨k, v⟩ := pair
    by_cases hk : k = key
    · by_cases hq : q = key
      · simp [put, hk, hq]
      · simp [put, hk, hq, Ne.symm hq]
    · by_cases hq : k = q
      · subst hq
        simp [put, hk]
      · simpa [put, hk, hq] using ih

/-! ### Look-up after many changes -/

/-- The value that was put last under a key wins. -/
lemma get?_insertMany (r : Registry κ ν) (pairs : List (κ × ν)) (q : κ) :
    (r.insertMany pairs).get? q =
      (((pairs.filter fun p => p.1 = q).getLast?).map (·.2)).or (r.get? q) := by
  induction pairs using List.reverseRecOn with
  | nil => simp [insertMany]
  | append_singleton pairs pair ih =>
    obtain ⟨k, v⟩ := pair
    have hstep : r.insertMany (pairs ++ [(k, v)]) = (r.insertMany pairs).insert k v := by
      simp [insertMany]
    rw [hstep, get?_insert, ih]
    by_cases hq : q = k
    · subst hq
      simp
    · simp [hq, Ne.symm hq]

/-- In a registry of items under their names, the last item of a name is found. -/
theorem get?_ofPairs_map (name : ν → κ) (items : List ν) (q : κ) :
    (ofPairs (items.map fun i => (name i, i))).get? q =
      (items.filter fun i => name i = q).getLast? := by
  rw [ofPairs, get?_insertMany, get?_empty, Option.or_none, List.filter_map, List.getLast?_map,
    Option.map_map]
  exact Option.map_id'

lemma insertMany_append (r : Registry κ ν) (front back : List (κ × ν)) :
    r.insertMany (front ++ back) = (r.insertMany front).insertMany back := by
  simp [insertMany]

/-! ### Keys do not repeat -/

lemma nodup_keys_insert {r : Registry κ ν} (h : r.keys.Nodup) (key : κ) (value : ν) :
    (r.insert key value).keys.Nodup := by
  rw [keys, toList_insert, keys_put]
  split
  · exact h
  · rename_i hkey
    exact List.Nodup.append h (by simp) (by simpa using hkey)

lemma nodup_keys_insertMany {r : Registry κ ν} (h : r.keys.Nodup) (pairs : List (κ × ν)) :
    (r.insertMany pairs).keys.Nodup := by
  induction pairs using List.reverseRecOn with
  | nil => exact h
  | append_singleton pairs pair ih =>
    rw [insertMany_append]
    exact nodup_keys_insert ih pair.1 pair.2

lemma nodup_keys_ofPairs (pairs : List (κ × ν)) : (ofPairs pairs).keys.Nodup :=
  nodup_keys_insertMany (by simp [keys]) pairs

lemma nodup_keys_erase {r : Registry κ ν} (h : r.keys.Nodup) (key : κ) :
    (r.erase key).keys.Nodup :=
  List.Nodup.sublist (List.Sublist.map _ List.filter_sublist) h

/-! ### Pairs and look-up -/

lemma mem_toList_of_get? {r : Registry κ ν} {q : κ} {v : ν} (h : r.get? q = some v) :
    (q, v) ∈ r.toList := by
  rw [get?, Option.map_eq_some_iff] at h
  obtain ⟨⟨k, w⟩, hfind, rfl⟩ := h
  have hk : k = q := by simpa using List.find?_some hfind
  exact hk ▸ List.mem_of_find?_eq_some hfind

lemma get?_eq_some_iff {r : Registry κ ν} (hnodup : r.keys.Nodup) {q : κ} {v : ν} :
    r.get? q = some v ↔ (q, v) ∈ r.toList := by
  refine ⟨mem_toList_of_get?, fun hmem => ?_⟩
  cases hget : r.get? q with
  | none =>
    rw [get?, Option.map_eq_none_iff, List.find?_eq_none] at hget
    exact absurd (hget (q, v) hmem) (by simp)
  | some w =>
    have hinj := List.inj_on_of_nodup_map hnodup (mem_toList_of_get? hget) hmem rfl
    rw [(Prod.mk.inj hinj).2]

lemma mem_of_mem_put {key : κ} {value : ν} {pairs : List (κ × ν)} {pair : κ × ν}
    (h : pair ∈ put key value pairs) : pair ∈ pairs ∨ pair = (key, value) := by
  induction pairs with
  | nil => exact Or.inr (List.mem_singleton.1 h)
  | cons first rest ih =>
    obtain ⟨k, v⟩ := first
    rw [put] at h
    split at h
    · next hk =>
      subst hk
      exact (List.mem_cons.1 h).symm.imp_left (List.mem_cons_of_mem _)
    · rcases List.mem_cons.1 h with rfl | h
      · exact Or.inl List.mem_cons_self
      · exact (ih h).imp_left (List.mem_cons_of_mem _)

/-- What a registry holds after some changes was there before or was put in. -/
lemma mem_of_mem_insertMany {r : Registry κ ν} {pairs : List (κ × ν)} {pair : κ × ν}
    (h : pair ∈ (r.insertMany pairs).toList) : pair ∈ r.toList ∨ pair ∈ pairs := by
  induction pairs using List.reverseRecOn with
  | nil => exact Or.inl h
  | append_singleton pairs last ih =>
    rw [insertMany_append] at h
    rcases mem_of_mem_put h with h | rfl
    · exact (ih h).imp_right (List.mem_append_left _)
    · exact Or.inr (List.mem_append_right _ (List.mem_singleton.2 rfl))

/-- What a filled registry holds was put into it. -/
lemma mem_of_mem_ofPairs {pairs : List (κ × ν)} {pair : κ × ν}
    (h : pair ∈ (ofPairs pairs).toList) : pair ∈ pairs :=
  (mem_of_mem_insertMany h).resolve_left List.not_mem_nil

/-- What stands in a registry of items under their names is one of the items, under its name. -/
lemma mem_of_mem_ofPairs_map {name : ν → κ} {items : List ν} {key : κ} {item : ν}
    (h : (key, item) ∈ (ofPairs (items.map fun i => (name i, i))).toList) :
    name item = key ∧ item ∈ items := by
  obtain ⟨item', hitem, heq⟩ := List.mem_map.1 (mem_of_mem_ofPairs h)
  obtain ⟨rfl, rfl⟩ := Prod.mk.inj heq
  exact ⟨rfl, hitem⟩

/-- The same for the items of several lists, put in one list after the other. -/
lemma mem_of_mem_ofPairs_flatMap {α : Type} {name : ν → κ} {lists : List α} {items : α → List ν}
    {key : κ} {item : ν}
    (h : (key, item) ∈
      (ofPairs (lists.flatMap fun a => (items a).map fun i => (name i, i))).toList) :
    name item = key ∧ ∃ a ∈ lists, item ∈ items a := by
  rw [← List.map_flatMap] at h
  exact (mem_of_mem_ofPairs_map h).imp_right List.mem_flatMap.1

lemma toList_eq_filterMap_keys {r : Registry κ ν} (h : r.keys.Nodup) :
    r.toList = r.keys.filterMap fun key => (r.get? key).map (key, ·) := by
  have hpair : ∀ pair ∈ r.toList, (r.get? pair.1).map (pair.1, ·) = some pair := fun pair hpair => by
    rw [(get?_eq_some_iff h).2 hpair]
    rfl
  rw [keys, List.filterMap_map]
  exact ((List.filterMap_congr hpair).trans List.filterMap_some).symm

/-- What is put in last under a key of a registry is what is under it. -/
lemma getLast?_filter_toList {r : Registry κ ν} (h : r.keys.Nodup) (q : κ) :
    ((r.toList.filter fun p => p.1 = q).getLast?).map (·.2) = r.get? q := by
  cases hlast : (r.toList.filter fun p => p.1 = q).getLast? with
  | none =>
    rw [List.getLast?_eq_none_iff, List.filter_eq_nil_iff] at hlast
    rw [Registry.get?, List.find?_eq_none.2 hlast]
  | some pair =>
    obtain ⟨hmem, hkey⟩ := List.mem_filter.1 (List.mem_of_getLast? hlast)
    rw [← of_decide_eq_true hkey]
    exact ((get?_eq_some_iff h).2 hmem).symm

/-! ### What a registry was filled with -/

/-- A registry holds some pairs: every key once, at the place where it came first, with the value that
came last under it. -/
structure FilledWith (pairs : List (κ × ν)) (r : Registry κ ν) : Prop where
  keys_eq : r.keys = distinct (pairs.map (·.1))
  get?_eq : ∀ key, r.get? key = ((pairs.filter fun p => p.1 = key).getLast?).map (·.2)

namespace FilledWith

variable {pairs pairs' : List (κ × ν)} {r s : Registry κ ν}

lemma empty : FilledWith [] (∅ : Registry κ ν) := ⟨rfl, fun _ => rfl⟩

lemma nodup_keys (h : FilledWith pairs r) : r.keys.Nodup := h.keys_eq ▸ nodup_distinct _

/-- Only one registry holds some pairs. -/
lemma unique (h : FilledWith pairs r) (h' : FilledWith pairs s) : r = s := by
  have hlist : r.toList = s.toList := by
    rw [toList_eq_filterMap_keys h.nodup_keys, toList_eq_filterMap_keys h'.nodup_keys, h.keys_eq,
      h'.keys_eq]
    exact List.filterMap_congr fun key _ => by rw [h.get?_eq, h'.get?_eq]
  cases r
  cases s
  exact congrArg Registry.mk hlist

/-- One more pair comes behind the others. -/
lemma insert (h : FilledWith pairs r) (key : κ) (value : ν) :
    FilledWith (pairs ++ [(key, value)]) (r.insert key value) where
  keys_eq := by
    rw [keys, toList_insert, keys_put, List.map_append, List.map_singleton, distinct_concat,
      ← h.keys_eq]
    rfl
  get?_eq q := by
    have hstep : r.insert key value = r.insertMany [(key, value)] := rfl
    rw [hstep, get?_insertMany, h.get?_eq, List.filter_append, List.getLast?_append, Option.map_or]

lemma insertMany (h : FilledWith pairs r) (more : List (κ × ν)) :
    FilledWith (pairs ++ more) (r.insertMany more) := by
  induction more generalizing pairs r with
  | nil => rwa [List.append_nil]
  | cons pair more ih =>
    have hrest := ih (h.insert pair.1 pair.2)
    rwa [List.append_assoc] at hrest

lemma ofPairs (pairs : List (κ × ν)) : FilledWith pairs (.ofPairs pairs) := empty.insertMany pairs

lemma eq_ofPairs (h : FilledWith pairs r) : r = .ofPairs pairs := h.unique (.ofPairs pairs)

/-- Merging a registry into another one is putting in what it was filled with, pair by pair. -/
lemma merge (h : FilledWith pairs r) (h' : FilledWith pairs' s) :
    FilledWith (pairs ++ pairs') (r.insertMany s.toList) where
  keys_eq := by
    rw [(h.insertMany s.toList).keys_eq, List.map_append, List.map_append,
      ← distinct_append_distinct _ (pairs'.map _), ← h'.keys_eq]
    rfl
  get?_eq q := by
    rw [(h.insertMany s.toList).get?_eq, List.filter_append, List.filter_append, List.getLast?_append,
      List.getLast?_append, Option.map_or, Option.map_or, getLast?_filter_toList h'.nodup_keys,
      h'.get?_eq]

/-- Registries that were filled on their own, merged one after the other, hold what all of them were
filled with. -/
lemma foldl_merge {α : Type} {f : α → Registry κ ν} {g : α → List (κ × ν)}
    (hf : ∀ a, FilledWith (g a) (f a)) (h : FilledWith pairs r) (list : List α) :
    FilledWith (pairs ++ list.flatMap g) (list.foldl (fun r a => r.insertMany (f a).toList) r) := by
  induction list generalizing pairs r with
  | nil => rwa [List.flatMap_nil, List.append_nil]
  | cons a list ih =>
    have hrest := ih (h.merge (hf a))
    rwa [List.append_assoc, ← List.flatMap_cons] at hrest

end FilledWith

end Registry

end Survey
