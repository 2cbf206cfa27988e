/-
# Entries of a tree

What stands at a place of a tree, and what is seen from outside of it when the entry at one place is
taken away: every other place looks as it did, up to what directories hold.  The names of the entries
of a directory are distinct in every tree that a file system can show, and never dots.
-/
import Survey.FileTree.Links
import Mathlib.Data.List.Basic
import Mathlib.Data.List.Nodup

namespace Survey.FileTree

variable {tree : FileTree} {place : List String}

/-! ### Places -/

@[simp] lemma get?_nil (tree : FileTree) : tree.get? [] = some tree := by
  rw [get?]

lemma get?_cons (tree : FileTree) (name : String) (names : List String) :
    tree.get? (name :: names) = (tree.entry? name).bind (·.get? names) := by
  rw [get?]

lemma get?_append (tree : FileTree) (xs ys : List String) :
    tree.get? (xs ++ ys) = (tree.get? xs).bind (·.get? ys) := by
  induction xs generalizing tree with
  | nil => simp
  | cons name names ih =>
    rw [List.cons_append, get?_cons, get?_cons]
    cases tree.entry? name with
    | none => rfl
    | some t => exact ih t

lemma isDirectory_of_entry {name : String} {t : FileTree} (h : tree.entry? name = some t) :
    tree.isDirectory = true := by
  cases tree with
  | directory entries => rfl
  | file content => simp [entries, entry?] at h
  | link target => simp [entries, entry?] at h

/-- Nothing stands below a file or a link. -/
lemma isDirectory_of_get?_append {t : FileTree} {xs ys : List String} (hys : ys ≠ [])
    (h : tree.get? (xs ++ ys) = some t) : ∃ d, tree.get? xs = some d ∧ d.isDirectory = true := by
  rw [get?_append, Option.bind_eq_some_iff] at h
  obtain ⟨d, hd, ht⟩ := h
  obtain ⟨name, names, rfl⟩ := List.exists_cons_of_ne_nil hys
  rw [get?_cons, Option.bind_eq_some_iff] at ht
  obtain ⟨e, he, -⟩ := ht
  exact ⟨d, hd, isDirectory_of_entry he⟩

lemma get?_eq_none_of_leaf (h : tree.isDirectory = false) {names : List String} (hne : names ≠ []) :
    tree.get? names = none := by
  obtain ⟨name, rest, rfl⟩ := List.exists_cons_of_ne_nil hne
  cases tree with
  | directory entries => exact absurd h (by simp [isDirectory])
  | file content => simp [get?_cons, entry?, entries]
  | link target => simp [get?_cons, entry?, entries]

lemma eq_of_get?_leaf (h : tree.isDirectory = false) {names : List String} {t : FileTree}
    (hget : tree.get? names = some t) : names = [] ∧ t = tree := by
  by_cases hnil : names = []
  · subst hnil
    rw [get?_nil, Option.some.injEq] at hget
    exact ⟨rfl, hget.symm⟩
  · simp [get?_eq_none_of_leaf h hnil] at hget

/-! ### Well-formed trees -/

/-- A name that an entry may have. -/
structure IsName (name : String) : Prop where
  not_dots : isDots name = false
  size_le : name.utf8ByteSize ≤ maxNameSize

/-- In every directory of a tree the entries have names of their own, which are names that an entry
may have. -/
inductive ProperlyNamed : FileTree → Prop
  | file (content : Except String (List UInt8)) : ProperlyNamed (file content)
  | link (target : String) : ProperlyNamed (link target)
  | directory {entries : List (String × FileTree)} : (entries.map (·.1)).Nodup →
      (∀ entry ∈ entries, IsName entry.1) → (∀ entry ∈ entries, ProperlyNamed entry.2) →
      ProperlyNamed (directory entries)

/-- A properly named directory, as every tree is that a file system holds. -/
structure WellFormed (tree : FileTree) : Prop where
  isDirectory : tree.isDirectory = true
  properlyNamed : tree.ProperlyNamed

lemma mem_of_entry {entries : List (String × FileTree)} {name : String} {t : FileTree}
    (h : entry? (directory entries) name = some t) : (name, t) ∈ entries := by
  obtain ⟨before, after, rfl, -⟩ := List.lookup_eq_some_iff.1 h
  simp

/-- With distinct names, an entry is found under its name. -/
lemma entry?_of_mem {entries : List (String × FileTree)} (hnodup : (entries.map (·.1)).Nodup)
    {name : String} {t : FileTree} (h : (name, t) ∈ entries) :
    entry? (directory entries) name = some t := by
  obtain ⟨before, after, rfl⟩ := List.append_of_mem h
  refine List.lookup_eq_some_iff.2 ⟨before, after, rfl, fun entry hentry => ?_⟩
  rw [List.map_append, List.nodup_append] at hnodup
  have hne := hnodup.2.2 entry.1 (List.mem_map_of_mem hentry) name (by simp)
  simpa using hne.symm

lemma ProperlyNamed.of_entry (htree : tree.ProperlyNamed) {name : String} {t : FileTree}
    (h : tree.entry? name = some t) : IsName name ∧ t.ProperlyNamed := by
  cases htree with
  | directory hnodup hnames hentries =>
    have hmem := mem_of_entry h
    exact ⟨hnames _ hmem, hentries _ hmem⟩
  | file content => simp [entries, entry?] at h
  | link target => simp [entries, entry?] at h

lemma ProperlyNamed.of_get? (htree : tree.ProperlyNamed) {t : FileTree}
    (h : tree.get? place = some t) : (∀ name ∈ place, IsName name) ∧ t.ProperlyNamed := by
  induction place generalizing tree with
  | nil =>
    rw [get?_nil, Option.some.injEq] at h
    exact ⟨by simp, h ▸ htree⟩
  | cons name names ih =>
    rw [get?_cons, Option.bind_eq_some_iff] at h
    obtain ⟨e, he, ht⟩ := h
    obtain ⟨hname, hproper⟩ := htree.of_entry he
    obtain ⟨hnames, ht⟩ := ih hproper ht
    refine ⟨fun n hn => ?_, ht⟩
    rcases List.mem_cons.1 hn with rfl | hn
    · exact hname
    · exact hnames n hn

/-! ### Checking that a tree is well-formed -/

instance (name : String) : Decidable (IsName name) :=
  decidable_of_iff (isDots name = false ∧ name.utf8ByteSize ≤ maxNameSize)
    ⟨fun ⟨hdots, hsize⟩ => ⟨hdots, hsize⟩, fun ⟨hdots, hsize⟩ => ⟨hdots, hsize⟩⟩

mutual

/-- Whether a tree is properly named, told by going through it. -/
def isProperlyNamed : FileTree → Bool
  | file _ => true
  | link _ => true
  | directory entries => decide (entries.map (·.1)).Nodup && areProperlyNamed entries

/-- Whether some entries have proper names and are properly named themselves. -/
def areProperlyNamed : List (String × FileTree) → Bool
  | [] => true
  | (name, tree) :: rest => decide (IsName name) && tree.isProperlyNamed && areProperlyNamed rest

end

lemma areProperlyNamed_iff {entries : List (String × FileTree)} :
    areProperlyNamed entries = true ↔
      ∀ entry ∈ entries, IsName entry.1 ∧ entry.2.isProperlyNamed = true := by
  induction entries with
  | nil => simp [areProperlyNamed]
  | cons entry rest ih =>
    rw [areProperlyNamed, Bool.and_eq_true, Bool.and_eq_true, decide_eq_true_eq, ih,
      List.forall_mem_cons]

mutual

lemma properlyNamed_of_isProperlyNamed :
    (tree : FileTree) → tree.isProperlyNamed = true → tree.ProperlyNamed
  | file content, _ => .file content
  | link target, _ => .link target
  | directory entries, h => by
    rw [isProperlyNamed, Bool.and_eq_true, decide_eq_true_eq] at h
    exact .directory h.1 (fun entry hentry => (areProperlyNamed_iff.1 h.2 entry hentry).1)
      (properlyNamed_of_areProperlyNamed entries h.2)

lemma properlyNamed_of_areProperlyNamed : (entries : List (String × FileTree)) →
    areProperlyNamed entries = true → ∀ entry ∈ entries, entry.2.ProperlyNamed
  | [], _, entry, hentry => absurd hentry List.not_mem_nil
  | (name, tree) :: rest, h, entry, hentry => by
    rw [areProperlyNamed, Bool.and_eq_true, Bool.and_eq_true] at h
    rcases List.mem_cons.1 hentry with rfl | hentry
    · exact properlyNamed_of_isProperlyNamed tree h.1.2
    · exact properlyNamed_of_areProperlyNamed rest h.2 entry hentry

end

lemma isProperlyNamed_iff : tree.isProperlyNamed = true ↔ tree.ProperlyNamed := by
  refine ⟨properlyNamed_of_isProperlyNamed tree, fun h => ?_⟩
  induction h with
  | file content => rfl
  | link target => rfl
  | directory hnodup hnames _ ih =>
    rw [isProperlyNamed, Bool.and_eq_true, decide_eq_true_eq, areProperlyNamed_iff]
    exact ⟨hnodup, fun entry hentry => ⟨hnames entry hentry, ih entry hentry⟩⟩

instance : DecidablePred ProperlyNamed := fun _ => decidable_of_iff _ isProperlyNamed_iff

instance : DecidablePred WellFormed := fun tree =>
  decidable_of_iff (tree.isDirectory = true ∧ tree.ProperlyNamed)
    ⟨fun ⟨hdirectory, hproper⟩ => ⟨hdirectory, hproper⟩,
      fun ⟨hdirectory, hproper⟩ => ⟨hdirectory, hproper⟩⟩

/-! ### What is seen of a tree -/

/-- A tree without what is in it. -/
def outline : FileTree → FileTree
  | directory _ => empty
  | tree => tree

/-- What is seen at a place without looking into it. -/
def sight (tree : FileTree) (place : List String) : Option FileTree := (tree.get? place).map outline

lemma sight_eq_none_iff : tree.sight place = none ↔ tree.get? place = none := by
  rw [sight, Option.map_eq_none_iff]

lemma sight_eq_empty_iff :
    tree.sight place = some empty ↔ ∃ d, tree.get? place = some d ∧ d.isDirectory = true := by
  rw [sight, Option.map_eq_some_iff]
  refine exists_congr fun d => and_congr_right fun _ => ?_
  cases d <;> simp [outline, empty, isDirectory]

lemma sight_of_leaf {leaf : FileTree} (hget : tree.get? place = some leaf)
    (hleaf : leaf.isDirectory = false) : tree.sight place = some leaf := by
  rw [sight, hget]
  cases leaf with
  | directory entries => exact absurd hleaf (by simp [isDirectory])
  | file content => rfl
  | link target => rfl

lemma get?_of_sight_link {target : String} (h : tree.sight place = some (link target)) :
    tree.get? place = some (link target) := by
  obtain ⟨t, ht, hout⟩ := Option.map_eq_some_iff.1 h
  rw [ht]
  cases t <;> simp_all [outline, empty]

/-- Where something stands, directories lead to it. -/
lemma sight_of_get?_append {t : FileTree} {xs ys : List String} (hys : ys ≠ [])
    (h : tree.get? (xs ++ ys) = some t) : tree.sight xs = some empty :=
  sight_eq_empty_iff.2 (isDirectory_of_get?_append hys h)

lemma get?_append_eq_none {xs : List String} (h : tree.get? xs = none) (ys : List String) :
    tree.get? (xs ++ ys) = none := by
  rw [get?_append, h]
  rfl

/-! ### Taking an entry away -/

/-- What is taken away below an entry changes that entry. -/
lemma erase_below (entries : List (String × FileTree)) (name : String) {names : List String}
    (hnames : names ≠ []) :
    erase (name :: names) (directory entries) =
      directory (entries.map fun (n, t) => if n = name then (n, erase names t) else (n, t)) := by
  obtain ⟨m, rest, rfl⟩ := List.exists_cons_of_ne_nil hnames
  rfl

lemma isDirectory_erase (name : String) (names : List String) :
    (tree.erase (name :: names)).isDirectory = tree.isDirectory := by
  cases tree <;> cases names <;> rfl

lemma lookup_filter_ne (entries : List (String × FileTree)) (name n : String) :
    (entries.filter (·.1 != name)).lookup n = if n = name then none else entries.lookup n := by
  induction entries with
  | nil => simp
  | cons entry rest ih =>
    obtain ⟨m, t⟩ := entry
    by_cases hm : m = name
    · subst hm
      rw [List.filter_cons_of_neg (by simp), ih]
      by_cases hn : n = m
      · simp [hn]
      · have hne : (n == m) = false := by simpa using hn
        rw [if_neg hn, if_neg hn, List.lookup_cons, hne]
    · rw [List.filter_cons_of_pos (by simpa using hm), List.lookup_cons, List.lookup_cons, ih]
      by_cases hn : n = m
      · subst hn
        simp [hm]
      · have hne : (n == m) = false := by simpa using hn
        rw [hne]

lemma lookup_map_at (entries : List (String × FileTree)) (name n : String)
    (change : FileTree → FileTree) :
    (entries.map fun (m, t) => if m = name then (m, change t) else (m, t)).lookup n =
      if n = name then (entries.lookup n).map change else entries.lookup n := by
  induction entries with
  | nil => simp
  | cons entry rest ih =>
    obtain ⟨m, t⟩ := entry
    rw [List.map_cons, List.lookup_cons]
    by_cases hn : n = m
    · subst hn
      by_cases hm : n = name <;> simp [hm]
    · have hne : (n == m) = false := by simpa using hn
      rw [List.lookup_cons, hne]
      by_cases hm : m = name
      · rw [if_pos hm, hne]
        exact ih
      · rw [if_neg hm, hne]
        exact ih

/-- The entries of a tree after something was taken away at a place below it. -/
lemma entry?_erase (tree : FileTree) (name : String) (names : List String) (n : String) :
    entry? (tree.erase (name :: names)) n =
      if n = name then if names = [] then none else (tree.entry? n).map (erase names)
      else tree.entry? n := by
  cases tree with
  | file content => cases names <;> simp [erase, entry?, entries]
  | link target => cases names <;> simp [erase, entry?, entries]
  | directory entries =>
    cases names with
    | nil => simpa [erase, entry?, FileTree.entries] using lookup_filter_ne entries name n
    | cons m names =>
      simpa [erase, entry?, FileTree.entries] using lookup_map_at entries name n (erase (m :: names))

lemma get?_erase_self (tree : FileTree) (place : List String) (hplace : place ≠ [])
    (names : List String) : (tree.erase place).get? (place ++ names) = none := by
  induction place generalizing tree with
  | nil => exact absurd rfl hplace
  | cons name rest ih =>
    rw [List.cons_append, get?_cons, entry?_erase, if_pos rfl]
    by_cases hrest : rest = []
    · simp [hrest]
    · rw [if_neg hrest]
      cases tree.entry? name with
      | none => rfl
      | some t => exact ih t hrest

lemma get?_erase_below {base names : List String} {d : FileTree} (h : tree.get? base = some d)
    (hnames : names ≠ []) : (tree.erase (base ++ names)).get? base = some (d.erase names) := by
  induction base generalizing tree with
  | nil =>
    rw [get?_nil, Option.some.injEq] at h
    rw [get?_nil, h, List.nil_append]
  | cons name rest ih =>
    rw [get?_cons, Option.bind_eq_some_iff] at h
    obtain ⟨t, ht, hrest⟩ := h
    rw [List.cons_append, get?_cons, entry?_erase, if_pos rfl, if_neg (by simp [hnames]), ht]
    exact ih hrest

/-- Taking a file or a link away changes nothing else that is seen. -/
lemma sight_erase_of_ne {leaf : FileTree} (hplace : tree.get? place = some leaf)
    (hleaf : leaf.isDirectory = false) {q : List String} (hne : q ≠ place) :
    (tree.erase place).sight q = tree.sight q := by
  induction place generalizing tree q with
  | nil =>
    rw [get?_nil, Option.some.injEq] at hplace
    subst hplace
    obtain ⟨name, names, rfl⟩ := List.exists_cons_of_ne_nil hne
    rw [sight, sight, get?_eq_none_of_leaf hleaf hne]
    simp [erase, empty, get?_cons, entry?, entries]
  | cons name rest ih =>
    cases q with
    | nil =>
      cases tree with
      | directory entries => cases rest <;> rfl
      | file content => cases rest <;> rfl
      | link target => cases rest <;> rfl
    | cons m names =>
      rw [sight, sight, get?_cons, get?_cons, entry?_erase]
      by_cases hm : m = name
      · subst hm
        rw [get?_cons, Option.bind_eq_some_iff] at hplace
        obtain ⟨t, ht, hrest⟩ := hplace
        have hnames : names ≠ rest := fun h => hne (by rw [h])
        rw [if_pos rfl, ht]
        by_cases hnil : rest = []
        · subst hnil
          rw [get?_nil, Option.some.injEq] at hrest
          subst hrest
          rw [if_pos rfl, Option.bind_some, get?_eq_none_of_leaf hleaf hnames]
          rfl
        · rw [if_neg hnil]
          exact ih hrest hnames
      · rw [if_neg hm]

end Survey.FileTree
