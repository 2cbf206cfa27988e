/-
# What is discovered, and in which order

A walk reports the files and links below its root that no ignored directory hides, and nothing else.
It reports them in the order of their places, name by name from the top.  A directory stands at its
own name, so its content comes before an entry whose name only continues that name, whatever the
character after it: `a/Z.java` comes before `a-b.java`, although a hyphen is a smaller character than a
slash.

A discovered file is one of the reported places that has a category, and each category keeps the order
of the walk.
-/
import Survey.Proofs.Scan.Isolation
import Survey.Proofs.Text.ByteOrder

namespace Survey

open Text

/-- One place comes before another: the names are compared one after the other, by their bytes. -/
def PlaceLt (place other : List String) : Prop :=
  (place.map fun name => utf8 name.toList) < other.map fun name => utf8 name.toList

lemma placeLt_cons_of_byteLt {name name' : String} (h : ByteLt name name') (names names' : List String) :
    PlaceLt (name :: names) (name' :: names') :=
  List.cons_lt_cons_iff.2 (Or.inl h)

lemma PlaceLt.cons {names names' : List String} (h : PlaceLt names names') (name : String) :
    PlaceLt (name :: names) (name :: names') :=
  List.cons_lt_cons_iff.2 (Or.inr ⟨rfl, h⟩)

namespace FileTree

variable {ignored : List String} {tree : FileTree}

/-! ### The order of a walk -/

/-- A walk reports places in their order. -/
lemma pairwise_places (htree : tree.ProperlyNamed) :
    (places ignored tree).Pairwise PlaceLt := by
  induction htree with
  | file content => simp [places]
  | link target => simp [places]
  | @directory entries hnodup hnames hentries ih =>
    rw [places_directory hnodup, List.pairwise_flatMap]
    constructor
    · -- the places of one entry share its name
      intro entry hentry
      rw [placesOfEntry]
      split
      · refine List.pairwise_map.2 ((ih entry (mem_inOrder.1 hentry)).imp ?_)
        intro names names' h
        exact h.cons entry.1
      · exact List.Pairwise.nil
    · -- the places of two entries differ in the first name
      refine (pairwise_lt_sorted hnodup).imp ?_
      intro entry entry' hlt place hplace place' hplace'
      obtain ⟨names, -, rfl⟩ := mem_placesOfEntry hplace
      obtain ⟨names', -, rfl⟩ := mem_placesOfEntry hplace'
      exact placeLt_cons_of_byteLt (byteLt_of_lt hlt) names names'

end FileTree

/-! ### Discovered files -/

namespace Discovery

open FileTree

variable {settings : Settings} {tree : FileTree} {root names : List String}

/-- From a root that is no link, a walk reports the places of what the root is. -/
lemma walk_of_not_link {top : FileTree} (htop : tree.at? root = some top)
    (hlink : ∀ target, top ≠ .link target) :
    walk settings tree root = top.places settings.ignoredDirectories := by
  rw [walk, htop]
  cases top with
  | file content => rfl
  | directory entries => rfl
  | link target => exact absurd rfl (hlink target)

lemma ofCategory_sublist (category : Category) :
    ((ofTree settings tree root).inCategory category).Sublist (walk settings tree root) := by
  cases category <;> exact List.filter_sublist

/-- **Discovery is exact and ordered.**  From a root that is no link, the files of a category are those
files and links at or below the root that have the category and stand in no ignored directory; the
root's own name is not asked.  Each is discovered once, and each category lists its files by their names
from the root on, compared by bytes.  Where there is no root, nothing is discovered, and a root that is
a file is all that can be. -/
theorem discovery_exact (settings : Settings) (tree : FileTree) (root : List String)
    (htree : tree.WellFormed) (hroot : ∀ target, tree.at? root ≠ some (.link target)) :
    (∀ category names, names ∈ (ofTree settings tree root).inCategory category ↔
      category? settings root names = some category ∧
        ∃ top, tree.at? root = some top ∧ top.Shows settings.ignoredDirectories names) ∧
    (ofTree settings tree root).files.Nodup ∧
    (∀ category, ((ofTree settings tree root).inCategory category).Pairwise PlaceLt) ∧
    (tree.at? root = none → (ofTree settings tree root).files = []) ∧
    (∀ top, tree.at? root = some top → top.isDirectory = false →
      (ofTree settings tree root).files = [] ∨ (ofTree settings tree root).files = [[]]) := by
  have hproper : ∀ top, tree.at? root = some top → top.ProperlyNamed := by
    intro top htop
    obtain ⟨place, -, hget⟩ := get?_of_at? htop
    exact (htree.properlyNamed.of_get? hget).2
  have hwalk : ∀ top, tree.at? root = some top →
      walk settings tree root = top.places settings.ignoredDirectories := by
    intro top htop
    exact walk_of_not_link htop fun target h => hroot target (h ▸ htop)
  have hnone : tree.at? root = none → walk settings tree root = [] := by
    intro h
    rw [walk, h]
  refine ⟨fun category names => ?_, nodup_files htree, fun category => ?_, fun h => ?_,
    fun top htop hleaf => ?_⟩
  · rw [mem_inCategory, and_comm]
    refine and_congr_right fun _ => ?_
    cases htop : tree.at? root with
    | none => simp [hnone htop]
    | some top =>
      rw [hwalk top htop, mem_places_iff (hproper top htop)]
      constructor
      · intro hshows
        exact ⟨top, rfl, hshows⟩
      · rintro ⟨top', heq, hshows⟩
        rwa [Option.some.inj heq]
  · refine List.Pairwise.sublist (ofCategory_sublist category) ?_
    cases htop : tree.at? root with
    | none => simp [hnone htop]
    | some top =>
      rw [hwalk top htop]
      exact pairwise_places (hproper top htop)
  · refine List.eq_nil_iff_forall_not_mem.2 fun names hmem => ?_
    obtain ⟨category, hcategory⟩ := mem_files_iff.1 hmem
    have hmem := (mem_inCategory.1 hcategory).1
    rw [hnone h] at hmem
    simp at hmem
  · -- only the root itself can be there, and it is there at most once
    have hnil : ∀ names ∈ (ofTree settings tree root).files, names = [] := by
      intro names hmem
      obtain ⟨category, hcategory⟩ := mem_files_iff.1 hmem
      have hmem := (mem_inCategory.1 hcategory).1
      rw [hwalk top htop, places_of_leaf hleaf] at hmem
      exact List.mem_singleton.1 hmem
    have hnodup : (ofTree settings tree root).files.Nodup := nodup_files htree
    cases hfiles : (ofTree settings tree root).files with
    | nil => exact Or.inl rfl
    | cons first rest =>
      rw [hfiles] at hnil hnodup
      right
      cases rest with
      | nil => rw [hnil first List.mem_cons_self]
      | cons second rest =>
        have hfirst := hnil first List.mem_cons_self
        have hsecond := hnil second (by simp)
        simp [hfirst, hsecond] at hnodup

/-- A tree with a name that continues the name of a directory, with an ignored directory, and with a
link that leads nowhere. -/
def hyphenTree : FileTree :=
  .directory [("a-b.java", .file (.ok [])), ("target", .directory [("T.java", .file (.ok []))]),
    ("a", .directory [("Z.java", .file (.ok []))]), ("none.idl", .link "none")]

lemma hyphenTree_wellFormed : hyphenTree.WellFormed := by decide

/-- Both source units are discovered, the content of the directory `a` before `a-b.java`; the ignored
directory shows nothing, and the link is listed where it stands. -/
theorem discovery_exact_hyphenTree :
    hyphenTree.WellFormed ∧ (∀ target, hyphenTree.at? [] ≠ some (.link target)) ∧
      ["a", "Z.java"] ∈ (ofTree {} hyphenTree []).sourceUnits ∧
      ["a-b.java"] ∈ (ofTree {} hyphenTree []).sourceUnits ∧
      (ofTree {} hyphenTree []).sourceUnits.Pairwise PlaceLt ∧ PlaceLt ["a", "Z.java"] ["a-b.java"] ∧
      ["target", "T.java"] ∉ (ofTree {} hyphenTree []).sourceUnits ∧
      ["none.idl"] ∈ (ofTree {} hyphenTree []).interfaceDefinitions := by
  have hroot : ∀ target, hyphenTree.at? [] ≠ some (.link target) := by
    intro target h
    simp [at?, locateEntry_nil, Except.toOption, hyphenTree] at h
  obtain ⟨hmem, -, hordered, -, -⟩ := discovery_exact {} hyphenTree [] hyphenTree_wellFormed hroot
  refine ⟨hyphenTree_wellFormed, hroot, ?_, ?_, hordered .sourceUnit, ?_, fun h => ?_, ?_⟩
  · refine (hmem .sourceUnit _).2 ⟨by decide, hyphenTree, rfl, ⟨.file (.ok []), rfl, rfl⟩, ?_⟩
    decide
  · exact (hmem .sourceUnit _).2
      ⟨by decide, hyphenTree, rfl, ⟨.file (.ok []), rfl, rfl⟩, by decide⟩
  · show List.map _ _ < List.map _ _
    decide
  · obtain ⟨-, top, -, hshows⟩ := (hmem .sourceUnit _).1 h
    exact hshows.notIgnored "target" (by simp) (by decide)
  · exact (hmem .interfaceDefinition _).2
      ⟨by decide, hyphenTree, rfl, ⟨.link "none", rfl, rfl⟩, by decide⟩

end Discovery

end Survey
