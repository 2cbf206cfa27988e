/-
# What a walk reports

A walk of a properly named tree reports the places of the files and links that no ignored directory
hides, and nothing else (`mem_places_iff`), each of them once.  When a file or a link is taken away, the
walk reports what it reported before, without that place and in the same order.
-/
import Survey.FileTree.Walk
import Survey.Proofs.FileTree.Entries
import Survey.Proofs.Sorting

namespace Survey.FileTree

variable {ignored : List String} {tree : FileTree}

/-- Elements that add nothing may be left out. -/
lemma flatMap_filter {α β : Type} {list : List α} {keep : α → Bool} {f g : α → List β}
    (hkeep : ∀ a ∈ list, keep a = true → g a = f a) (hdrop : ∀ a ∈ list, keep a = false → g a = []) :
    (list.filter keep).flatMap f = list.flatMap g := by
  induction list with
  | nil => rfl
  | cons a rest ih =>
    have ih := ih (fun b hb => hkeep b (List.mem_cons_of_mem _ hb))
      fun b hb => hdrop b (List.mem_cons_of_mem _ hb)
    cases h : keep a with
    | true =>
      rw [List.filter_cons_of_pos h, List.flatMap_cons, List.flatMap_cons, ih, hkeep a (by simp) h]
    | false =>
      rw [List.filter_cons_of_neg (by simp [h]), ih, List.flatMap_cons, hdrop a (by simp) h,
        List.nil_append]

/-! ### Entries in order -/

/-- Entries in the order of their names. -/
def inOrder (entries : List (String × FileTree)) : List (String × FileTree) :=
  entries.mergeSort fun a b => a.1 ≤ b.1

/-- Whether a walk enters or reports an entry of a directory. -/
def isWalked (ignored : List String) (entry : String × FileTree) : Bool :=
  !(entry.2.isDirectory && ignored.contains entry.1)

/-- What one entry adds to the walk of its directory. -/
def placesOfEntry (ignored : List String) (entry : String × FileTree) : List (List String) :=
  if isWalked ignored entry then (places ignored entry.2).map (entry.1 :: ·) else []

lemma mem_inOrder {entries : List (String × FileTree)} {entry : String × FileTree} :
    entry ∈ inOrder entries ↔ entry ∈ entries :=
  List.mem_mergeSort

lemma pairwise_inOrder (entries : List (String × FileTree)) :
    (inOrder entries).Pairwise fun a b => a.1 ≤ b.1 :=
  pairwise_sorted (·.1) entries

/-- With distinct names, entries that are left out do not change the order of the others. -/
lemma inOrder_filter {entries : List (String × FileTree)} (hnodup : (entries.map (·.1)).Nodup)
    (keep : String × FileTree → Bool) :
    inOrder (entries.filter keep) = (inOrder entries).filter keep := by
  refine List.Perm.eq_of_pairwise ?_ (pairwise_inOrder _)
    ((pairwise_inOrder entries).filter _) ?_
  · intro a b ha hb hab hba
    have ha' : a ∈ entries := (List.mem_filter.1 (mem_inOrder.1 ha)).1
    have hb' : b ∈ entries := mem_inOrder.1 (List.mem_filter.1 hb).1
    exact List.inj_on_of_nodup_map hnodup ha' hb' (String.le_antisymm hab hba)
  · exact (List.mergeSort_perm _ _).trans ((List.mergeSort_perm entries _).filter keep).symm

/-- Entries that change and keep their names keep their order. -/
lemma inOrder_map (entries : List (String × FileTree)) {change : String × FileTree → String × FileTree}
    (hname : ∀ entry, (change entry).1 = entry.1) :
    inOrder (entries.map change) = (inOrder entries).map change := by
  refine (List.map_mergeSort fun a _ b _ => ?_).symm
  rw [hname, hname]

lemma placesInEntries_eq (ignored : List String) (entries : List (String × FileTree)) :
    placesInEntries ignored entries =
      (entries.filter (isWalked ignored)).map fun e => (e.1, placesOfEntry ignored e) := by
  induction entries with
  | nil => rw [placesInEntries]; rfl
  | cons entry rest ih =>
    obtain ⟨name, t⟩ := entry
    rw [placesInEntries, ih]
    by_cases h : (t.isDirectory && ignored.contains name) = true
    · have hwalked : ¬ isWalked ignored (name, t) = true := by rw [isWalked, h]; simp
      rw [if_pos h, List.filter_cons_of_neg hwalked]
    · have hwalked : isWalked ignored (name, t) = true := by
        rw [isWalked, eq_false_of_ne_true h]
        rfl
      rw [if_neg h, List.filter_cons_of_pos hwalked, List.map_cons, placesOfEntry, if_pos hwalked]

/-- The walk of a directory, entry by entry. -/
lemma places_directory {entries : List (String × FileTree)} (hnodup : (entries.map (·.1)).Nodup) :
    places ignored (directory entries) = (inOrder entries).flatMap (placesOfEntry ignored) := by
  have hsort : ∀ l : List (String × FileTree),
      (l.map fun e => (e.1, placesOfEntry ignored e)).mergeSort (fun a b => a.1 ≤ b.1) =
        (inOrder l).map fun e => (e.1, placesOfEntry ignored e) :=
    fun l => (List.map_mergeSort (f := fun e => (e.1, placesOfEntry ignored e))
      fun _ _ _ _ => rfl).symm
  rw [places, placesInEntries_eq, hsort, inOrder_filter hnodup, List.flatMap_map]
  refine flatMap_filter (fun entry _ _ => rfl) fun entry _ h => ?_
  rw [placesOfEntry, h]
  rfl

/-- Entries that stand in the order of their names are walked as they stand. -/
lemma places_of_pairwise {entries : List (String × FileTree)} (hnodup : (entries.map (·.1)).Nodup)
    (hordered : entries.Pairwise fun a b => a.1 ≤ b.1) :
    places ignored (directory entries) = entries.flatMap (placesOfEntry ignored) := by
  have hinOrder : inOrder entries = entries :=
    List.mergeSort_of_pairwise (hordered.imp fun h => decide_eq_true h)
  rw [places_directory hnodup, hinOrder]

lemma mem_placesOfEntry {entry : String × FileTree} {place : List String}
    (h : place ∈ placesOfEntry ignored entry) :
    ∃ names ∈ places ignored entry.2, place = entry.1 :: names := by
  rw [placesOfEntry] at h
  split at h
  · obtain ⟨names, hnames, rfl⟩ := List.mem_map.1 h
    exact ⟨names, hnames, rfl⟩
  · simp at h

/-! ### What is reported -/

lemma places_of_leaf (h : tree.isDirectory = false) : places ignored tree = [[]] := by
  cases tree with
  | directory entries => exact absurd h (by simp [isDirectory])
  | file content => rw [places]
  | link target => rw [places]

/-- A file or a link stands at a place, and no directory on the way to it has an ignored name. -/
structure Shows (ignored : List String) (tree : FileTree) (place : List String) : Prop where
  leaf : ∃ leaf, tree.get? place = some leaf ∧ leaf.isDirectory = false
  notIgnored : ∀ name ∈ place.dropLast, name ∉ ignored

lemma shows_nil_iff : Shows ignored tree [] ↔ tree.isDirectory = false := by
  constructor
  · rintro ⟨⟨leaf, hleaf, hdirectory⟩, -⟩
    rw [get?_nil, Option.some.injEq] at hleaf
    rwa [hleaf]
  · intro h
    exact ⟨⟨tree, get?_nil tree, h⟩, by simp⟩

lemma mem_dropLast_cons_iff {name n : String} {names : List String} :
    n ∈ (name :: names).dropLast ↔ names ≠ [] ∧ (n = name ∨ n ∈ names.dropLast) := by
  cases names with
  | nil => simp
  | cons m rest => simp

/-- Below a directory an entry shows what it shows by itself, unless it is a directory with an ignored
name. -/
lemma shows_cons_iff {name : String} {names : List String} :
    Shows ignored tree (name :: names) ↔
      ∃ t, tree.entry? name = some t ∧ isWalked ignored (name, t) = true ∧ Shows ignored t names := by
  have hwalked : ∀ t : FileTree, isWalked ignored (name, t) = true ↔
      (t.isDirectory = true → name ∉ ignored) := by
    intro t
    cases hdirectory : t.isDirectory <;> simp [isWalked, hdirectory]
  constructor
  · rintro ⟨⟨leaf, hleaf, hdirectory⟩, hignored⟩
    rw [get?_cons, Option.bind_eq_some_iff] at hleaf
    obtain ⟨t, ht, hleaf⟩ := hleaf
    refine ⟨t, ht, (hwalked t).2 fun htdirectory => ?_, ⟨leaf, hleaf, hdirectory⟩, fun n hn => ?_⟩
    · -- a directory is not what is shown, so there is a name behind its own
      refine hignored name (mem_dropLast_cons_iff.2 ⟨?_, Or.inl rfl⟩)
      rintro rfl
      rw [get?_nil, Option.some.injEq] at hleaf
      rw [← hleaf, htdirectory] at hdirectory
      simp at hdirectory
    · exact hignored n (mem_dropLast_cons_iff.2 ⟨by rintro rfl; simp at hn, Or.inr hn⟩)
  · rintro ⟨t, ht, hwalk, ⟨leaf, hleaf, hdirectory⟩, hignored⟩
    refine ⟨⟨leaf, ?_, hdirectory⟩, fun n hn => ?_⟩
    · rw [get?_cons, ht]
      exact hleaf
    · obtain ⟨hne, rfl | hn⟩ := mem_dropLast_cons_iff.1 hn
      · obtain ⟨m, rest, rfl⟩ := List.exists_cons_of_ne_nil hne
        rw [get?_cons, Option.bind_eq_some_iff] at hleaf
        obtain ⟨e, he, -⟩ := hleaf
        exact (hwalked t).1 hwalk (isDirectory_of_entry he)
      · exact hignored n hn

/-- A walk reports exactly what a tree shows. -/
lemma mem_places_iff (htree : tree.ProperlyNamed) {place : List String} :
    place ∈ places ignored tree ↔ Shows ignored tree place := by
  induction htree generalizing place with
  | file content =>
    rw [places_of_leaf rfl, List.mem_singleton]
    constructor
    · rintro rfl
      exact shows_nil_iff.2 rfl
    · rintro ⟨⟨leaf, hleaf, -⟩, -⟩
      exact (eq_of_get?_leaf rfl hleaf).1
  | link target =>
    rw [places_of_leaf rfl, List.mem_singleton]
    constructor
    · rintro rfl
      exact shows_nil_iff.2 rfl
    · rintro ⟨⟨leaf, hleaf, -⟩, -⟩
      exact (eq_of_get?_leaf rfl hleaf).1
  | @directory entries hnodup hnames hentries ih =>
    rw [places_directory hnodup, List.mem_flatMap]
    constructor
    · rintro ⟨⟨name, t⟩, hentry, hplace⟩
      rw [placesOfEntry] at hplace
      split at hplace
      · rename_i hwalked
        obtain ⟨names, hnames, rfl⟩ := List.mem_map.1 hplace
        have hmem := mem_inOrder.1 hentry
        exact shows_cons_iff.2 ⟨t, entry?_of_mem hnodup hmem, hwalked, (ih _ hmem).1 hnames⟩
      · simp at hplace
    · intro hshows
      cases place with
      | nil => simp [shows_nil_iff, isDirectory] at hshows
      | cons name names =>
        obtain ⟨t, ht, hwalked, hshows⟩ := shows_cons_iff.1 hshows
        have hmem := mem_of_entry ht
        refine ⟨(name, t), mem_inOrder.2 hmem, ?_⟩
        rw [placesOfEntry, if_pos hwalked]
        exact List.mem_map_of_mem ((ih _ hmem).2 hshows)

/-- Every reported place is one of a file or a link. -/
lemma leaf_of_mem_places (htree : tree.ProperlyNamed) {place : List String}
    (h : place ∈ places ignored tree) :
    ∃ leaf, tree.get? place = some leaf ∧ leaf.isDirectory = false :=
  ((mem_places_iff htree).1 h).leaf

/-- A walk that ignores nothing reports every link. -/
lemma mem_places_of_link (htree : tree.ProperlyNamed) {place : List String} {target : String}
    (h : tree.get? place = some (link target)) : place ∈ places [] tree :=
  (mem_places_iff htree).2 ⟨⟨_, h, rfl⟩, fun _ _ => List.not_mem_nil⟩

/-- No place is reported twice. -/
lemma nodup_places (htree : tree.ProperlyNamed) : (places ignored tree).Nodup := by
  induction htree with
  | file content => simp [places]
  | link target => simp [places]
  | @directory entries hnodup hnames hentries ih =>
    rw [places_directory hnodup, List.nodup_flatMap]
    constructor
    · intro entry hentry
      rw [placesOfEntry]
      split
      · exact (ih _ (mem_inOrder.1 hentry)).map fun a b h => (List.cons.inj h).2
      · exact List.nodup_nil
    · have hdistinct : ((inOrder entries).map (·.1)).Nodup :=
        ((List.mergeSort_perm entries _).map _).nodup_iff.2 hnodup
      refine (List.pairwise_map.1 hdistinct).imp ?_
      intro a b hne place ha hb
      obtain ⟨names, -, rfl⟩ := mem_placesOfEntry ha
      obtain ⟨names', -, h⟩ := mem_placesOfEntry hb
      exact hne (List.cons.inj h).1

/-! ### A walk without one place -/

/-- Without the entry of a file or a link, an entry adds what it added before, but for that place. -/
lemma placesOfEntry_erase {name : String} {names : List String} {entry : String × FileTree}
    (ih : entry.1 = name →
      places ignored (entry.2.erase names) = (places ignored entry.2).filter (· ≠ names))
    (hnames : names ≠ []) :
    placesOfEntry ignored
        (if entry.1 = name then (entry.1, entry.2.erase names) else (entry.1, entry.2)) =
      (placesOfEntry ignored entry).filter (· ≠ name :: names) := by
  by_cases h : entry.1 = name
  · obtain ⟨m, rest, rfl⟩ := List.exists_cons_of_ne_nil hnames
    rw [if_pos h, placesOfEntry, placesOfEntry, isWalked, isWalked, isDirectory_erase, ih h]
    split
    · rw [List.filter_map]
      congr 1
      refine List.filter_congr fun place _ => ?_
      simp [h]
    · rfl
  · rw [if_neg h]
    refine (List.filter_eq_self.2 fun place hplace => ?_).symm
    obtain ⟨rest, -, rfl⟩ := mem_placesOfEntry hplace
    simp [h]

/-- Taking a file or a link away takes its place out of the walk. -/
lemma places_erase (htree : tree.ProperlyNamed) {place : List String} (hne : place ≠ [])
    {leaf : FileTree} (hget : tree.get? place = some leaf) (hleaf : leaf.isDirectory = false) :
    places ignored (tree.erase place) = (places ignored tree).filter (· ≠ place) := by
  induction htree generalizing place with
  | file content =>
    have hnone : (file content).get? place = none := get?_eq_none_of_leaf rfl hne
    simp [hnone] at hget
  | link target =>
    have hnone : (link target).get? place = none := get?_eq_none_of_leaf rfl hne
    simp [hnone] at hget
  | @directory entries hnodup hproper hentries ih =>
    obtain ⟨name, names, rfl⟩ := List.exists_cons_of_ne_nil hne
    rw [get?_cons, Option.bind_eq_some_iff] at hget
    obtain ⟨t, ht, hget⟩ := hget
    have htmem := mem_of_entry ht
    rw [places_directory hnodup, List.filter_flatMap]
    by_cases hnames : names = []
    · -- the entry itself goes
      subst hnames
      rw [get?_nil, Option.some.injEq] at hget
      subst hget
      have hnodup' : ((entries.filter (·.1 != name)).map (·.1)).Nodup :=
        (List.filter_sublist.map _).nodup hnodup
      rw [erase, places_directory hnodup', inOrder_filter hnodup]
      refine flatMap_filter (fun entry _ h => ?_) fun entry hentry h => ?_
      · refine List.filter_eq_self.2 fun place hplace => ?_
        obtain ⟨rest, -, rfl⟩ := mem_placesOfEntry hplace
        have hname : entry.1 ≠ name := by simpa using h
        simp [hname]
      · have heq : entry = (name, t) :=
          List.inj_on_of_nodup_map hnodup (mem_inOrder.1 hentry) htmem (by simpa using h)
        simp [heq, placesOfEntry, isWalked, hleaf, places_of_leaf hleaf]
    · -- something below an entry goes
      have hbelow : erase (name :: names) (directory entries) = directory (entries.map fun entry =>
          if entry.1 = name then (entry.1, erase names entry.2) else entry) :=
        (erase_below _ _ hnames).trans (congrArg directory (List.map_congr_left fun _ _ => rfl))
      have hmap : ((entries.map fun entry =>
          if entry.1 = name then (entry.1, erase names entry.2) else entry).map (·.1)) =
          entries.map (·.1) := by
        rw [List.map_map]
        refine List.map_congr_left fun entry _ => ?_
        by_cases h : entry.1 = name <;> simp [h]
      rw [hbelow, places_directory (by rw [hmap]; exact hnodup), inOrder_map, List.flatMap_map]
      · refine List.flatMap_congr fun entry hentry => placesOfEntry_erase (fun h => ?_) hnames
        have hmem := mem_inOrder.1 hentry
        have heq : entry = (name, t) := List.inj_on_of_nodup_map hnodup hmem htmem h
        exact ih entry hmem hnames (by rw [heq]; exact hget)
      · intro entry
        by_cases h : entry.1 = name <;> simp [h]

end Survey.FileTree
