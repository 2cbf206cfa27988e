/-
# Removing a discovered file

A file that a walk reports stands below the directory that the root leads to.  When it is removed, the
walk reports what it reported before without it, and every other file reads as before, if no other
link of the tree asks for the removed entry and the root does not lead through it.
-/
import Survey.Discovery
import Survey.Proofs.FileTree.Trail
import Survey.Proofs.FileTree.Walk

namespace Survey.FileTree

variable {tree : FileTree} {names place root : List String}

/-! ### The entry at the end of a path -/

lemma locateEntry_nil : tree.locateEntry [] = .ok [] := rfl

lemma locateEntry_of_isDots {xs : List String} {name : String} (h : isDots name = true) :
    tree.locateEntry (xs ++ [name]) = tree.locate (xs ++ [name]) := by
  rw [locateEntry, List.getLast?_concat]
  exact if_pos h

lemma locateEntry_of_isName {xs : List String} {name : String} (h : IsName name) :
    tree.locateEntry (xs ++ [name]) = (tree.locate xs).map fun dir => dir ++ [name] := by
  rw [locateEntry, List.getLast?_concat]
  simp [h.not_dots, Nat.not_lt.2 h.size_le]

/-- The entry at the end of a path is what the whole path leads to, or it has a name in the directory
that the path leads to without it. -/
lemma locateEntry_cases (h : tree.locateEntry names = .ok place) :
    (tree.locate names = .ok place ∧ ∀ t : FileTree, t.locateEntry names = t.locate names) ∨
      ∃ xs name dir, names = xs ++ [name] ∧ IsName name ∧ tree.locate xs = .ok dir ∧
        place = dir ++ [name] := by
  rcases List.eq_nil_or_concat names with rfl | ⟨xs, name, rfl⟩
  · have hlocate : ∀ t : FileTree, t.locateEntry [] = t.locate [] := fun t => by
      rw [locateEntry_nil, locate, locateFrom_nil]
    exact Or.inl ⟨hlocate tree ▸ h, hlocate⟩
  · rw [List.concat_eq_append] at h ⊢
    cases hdots : isDots name with
    | true =>
      have hlocate : ∀ t : FileTree, t.locateEntry (xs ++ [name]) = t.locate (xs ++ [name]) :=
        fun t => locateEntry_of_isDots hdots
      exact Or.inl ⟨hlocate tree ▸ h, hlocate⟩
    | false =>
      by_cases hsize : maxNameSize < name.utf8ByteSize
      · rw [locateEntry, List.getLast?_concat] at h
        simp [hdots, hsize] at h
      · have hname : IsName name := ⟨hdots, Nat.not_lt.1 hsize⟩
        rw [locateEntry_of_isName hname] at h
        cases hdir : tree.locate xs with
        | error error => simp [hdir, Except.map] at h
        | ok dir =>
          rw [hdir] at h
          exact Or.inr ⟨xs, name, dir, rfl, hname, hdir, (Except.ok.inj h).symm⟩

lemma WellFormed.sight_nil (htree : tree.WellFormed) : tree.sight [] = some empty :=
  sight_eq_empty_iff.2 ⟨tree, get?_nil _, htree.isDirectory⟩

/-- A path to an entry that is a directory leads to that directory. -/
lemma locate_of_locateEntry (htree : tree.WellFormed) (h : tree.locateEntry names = .ok place)
    (hplace : tree.sight place = some empty) : tree.locate names = .ok place := by
  rcases locateEntry_cases h with ⟨hlocate, -⟩ | ⟨xs, name, dir, rfl, hname, hdir, rfl⟩
  · exact hlocate
  · obtain ⟨d, hd, -⟩ := sight_eq_empty_iff.1 hplace
    obtain ⟨fewer, -, hlocate, -⟩ :=
      locateFrom_append [name] hdir (sight_of_get?_append (by simp) hd)
    rw [locate, hlocate]
    exact locateFrom_directories htree.properlyNamed hplace

/-- A link at the end of a path is on its trail. -/
lemma mem_trail_of_link (htree : tree.WellFormed) (h : tree.locateEntry names = .ok place)
    {target : String} (hlink : tree.get? place = some (link target)) : place ∈ tree.trail names := by
  have hsight : tree.sight place = some (link target) := sight_of_leaf hlink rfl
  rcases locateEntry_cases h with ⟨hlocate, -⟩ | ⟨xs, name, dir, rfl, hname, hdir, rfl⟩
  · rcases sight_of_locateFrom htree.sight_nil hlocate with hnone | hempty | ⟨hmem, -⟩
    · simp [hsight] at hnone
    · simp [hsight, empty] at hempty
    · exact hmem
  · obtain ⟨fewer, -, -, htrail⟩ :=
      locateFrom_append [name] hdir (sight_of_get?_append (by simp) hlink)
    refine (htrail _).2 (Or.inr ?_)
    rw [trailFrom_cons]
    exact List.mem_cons_self

section

variable {leaf : FileTree}

/-- Taking a file or a link away does not move the entries at the ends of other paths. -/
lemma locateEntry_erase (hget : tree.get? place = some leaf) (hleaf : leaf.isDirectory = false)
    (hnot : place ∉ tree.trail names) {q : List String} {t : FileTree}
    (h : tree.locateEntry names = .ok q) (hq : tree.get? q = some t) :
    (tree.erase place).locateEntry names = .ok q := by
  rcases locateEntry_cases h with ⟨hlocate, heq⟩ | ⟨xs, name, dir, rfl, hname, hdir, rfl⟩
  · rw [heq, locate_erase hget hleaf hnot, hlocate]
  · obtain ⟨fewer, -, -, htrail⟩ :=
      locateFrom_append [name] hdir (sight_of_get?_append (by simp) hq)
    have hxs : place ∉ tree.trail xs := fun hmem => hnot ((htrail place).2 (Or.inl hmem))
    rw [locateEntry_of_isName hname, locate_erase hget hleaf hxs, hdir]
    rfl

/-- Where a file or a link was taken away nothing is found. -/
lemma at?_erase_self (htree : tree.WellFormed) (h : tree.locateEntry names = .ok place)
    (hget : tree.get? place = some leaf) (hleaf : leaf.isDirectory = false) :
    (tree.erase place).at? names = none := by
  have hne : place ≠ [] := by
    rintro rfl
    rw [get?_nil, Option.some.injEq] at hget
    rw [← hget, htree.isDirectory] at hleaf
    simp at hleaf
  have hgone : ∀ rest, (tree.erase place).get? (place ++ rest) = none := get?_erase_self tree place hne
  have hlocate : ∀ xs dir, tree.locate xs = .ok dir →
      (tree.erase place).locate xs = .ok dir ∨
        ∃ rest, (tree.erase place).locate xs = .ok (place ++ rest) := by
    intro xs dir hdir
    rw [← hdir]
    exact (locateFrom_erase hget hleaf).imp_right fun hstuck => hstuck.2
  have hself : (tree.erase place).get? place = none := by
    have h := hgone []
    rwa [List.append_nil] at h
  rcases locateEntry_cases h with ⟨hplace, heq⟩ | ⟨xs, name, dir, rfl, hname, hdir, rfl⟩
  · rw [at?, heq]
    rcases hlocate _ _ hplace with hsame | ⟨rest, hstuck⟩
    · rw [hsame]
      exact hself
    · rw [hstuck]
      exact hgone rest
  · rw [at?, locateEntry_of_isName hname]
    rcases hlocate _ _ hdir with hsame | ⟨rest, hstuck⟩
    · rw [hsame]
      exact hself
    · have hbelow := hgone (rest ++ [name])
      rw [← List.append_assoc] at hbelow
      rw [hstuck]
      exact hbelow

end

/-! ### Links that lead through an entry -/

/-- No other link of a tree asks for the entry at the end of a path. -/
def NoLinkThrough (tree : FileTree) (names : List String) : Prop :=
  ∀ place, tree.locateEntry names = .ok place →
    ∀ dir name target, tree.get? (dir ++ [name]) = some (link target) → dir ++ [name] ≠ place →
      place ∉ tree.trailFrom maxLinks dir [name]

/-- A root leads to a directory, and asks for a place on its way. -/
def LeadsThrough (tree : FileTree) (root place : List String) : Prop :=
  ∃ d, tree.follow root = .ok d ∧ d.isDirectory = true ∧ place ∈ tree.trail root

end Survey.FileTree

namespace Survey.Discovery

open FileTree

variable {settings : Settings} {tree : FileTree} {root names : List String}

/-! ### The directory of a walk -/

lemma get?_of_at? {t : FileTree} (h : tree.at? root = some t) :
    ∃ place, tree.locateEntry root = .ok place ∧ tree.get? place = some t := by
  rw [at?] at h
  cases hlocate : tree.locateEntry root with
  | error error => simp [hlocate, Except.toOption] at h
  | ok place =>
    rw [hlocate] at h
    exact ⟨place, rfl, h⟩

lemma get?_of_follow {t : FileTree} (h : tree.follow root = .ok t) :
    ∃ place, tree.locate root = .ok place ∧ tree.get? place = some t := by
  rw [follow] at h
  cases hlocate : tree.locate root with
  | error error => simp [hlocate, bind, Except.bind] at h
  | ok place =>
    cases hget : tree.get? place with
    | none => simp [hlocate, hget, bind, Except.bind] at h
    | some found =>
      refine ⟨place, rfl, ?_⟩
      simpa [hlocate, hget, bind, Except.bind] using h

lemma follow_of_get? {place : List String} {t : FileTree} (hlocate : tree.locate root = .ok place)
    (hget : tree.get? place = some t) : tree.follow root = .ok t := by
  rw [follow, hlocate]
  simp [hget, bind, Except.bind]

/-- The root of a walk is a directory, or a link to a directory; the link is then reported too. -/
inductive Walks (settings : Settings) (tree : FileTree) (root base : List String) (d : FileTree) : Prop
  | directory : tree.locateEntry root = .ok base →
      walk settings tree root = d.places settings.ignoredDirectories → Walks settings tree root base d
  | link {entry : List String} {target : String} : tree.locateEntry root = .ok entry →
      tree.get? entry = some (.link target) →
      walk settings tree root = [] :: d.places settings.ignoredDirectories →
      Walks settings tree root base d

/-- A file that a walk reports stands below the directory that the root leads to. -/
structure StandsBelow (settings : Settings) (tree : FileTree) (root names base : List String)
    (d leaf : FileTree) : Prop where
  locate_root : tree.locate root = .ok base
  get?_base : tree.get? base = some d
  isDirectory : d.isDirectory = true
  properlyNamed : d.ProperlyNamed
  get?_names : d.get? names = some leaf
  isLeaf : leaf.isDirectory = false
  walks : Walks settings tree root base d

/-- Every reported file other than the root stands below the directory that the root leads to. -/
lemma standsBelow_of_mem_walk (htree : tree.WellFormed) (h : names ∈ walk settings tree root)
    (hne : names ≠ []) : ∃ base d leaf, StandsBelow settings tree root names base d leaf := by
  -- what the root leads to is all that the two kinds of roots differ in
  have hbelow : ∀ base d, tree.locate root = .ok base → tree.get? base = some d →
      d.isDirectory = true → names ∈ d.places settings.ignoredDirectories →
      Walks settings tree root base d →
      ∃ base d leaf, StandsBelow settings tree root names base d leaf := by
    intro base d hbase hd hdirectory hmem hwalks
    have hproper := (htree.properlyNamed.of_get? hd).2
    obtain ⟨leaf, hleaf, hleafdir⟩ := leaf_of_mem_places hproper hmem
    exact ⟨base, d, leaf, hbase, hd, hdirectory, hproper, hleaf, hleafdir, hwalks⟩
  rw [walk] at h
  cases hroot : tree.at? root with
  | none => simp [hroot] at h
  | some t =>
    obtain ⟨entry, hentry, hget⟩ := get?_of_at? hroot
    cases t with
    | file content => simp [hroot, places, hne] at h
    | directory entries =>
      simp only [hroot] at h
      have hsight : tree.sight entry = some empty := sight_eq_empty_iff.2 ⟨_, hget, rfl⟩
      refine hbelow entry _ (locate_of_locateEntry htree hentry hsight) hget rfl h
        (.directory hentry ?_)
      rw [walk, hroot]
    | link target =>
      simp only [hroot] at h
      cases hfollow : tree.follow root with
      | error error => simp [hfollow] at h
      | ok d =>
        cases hdirectory : d.isDirectory with
        | false => simp [hfollow, hdirectory, hne] at h
        | true =>
          obtain ⟨base, hbase, hd⟩ := get?_of_follow hfollow
          refine hbelow base d hbase hd hdirectory ?_ (.link hentry hget ?_)
          · simpa [hfollow, hdirectory, hne] using h
          · simp [walk, hroot, hfollow, hdirectory]

namespace StandsBelow

variable {base : List String} {d leaf : FileTree}

lemma get? (h : StandsBelow settings tree root names base d leaf) :
    tree.get? (base ++ names) = some leaf := by
  rw [get?_append, h.get?_base]
  exact h.get?_names

/-- The path of a reported file ends at its entry. -/
lemma locateEntry (h : StandsBelow settings tree root names base d leaf) (htree : tree.WellFormed)
    (hne : names ≠ []) : tree.locateEntry (root ++ names) = .ok (base ++ names) := by
  have hget := h.get?
  rcases List.eq_nil_or_concat names with rfl | ⟨xs, name, rfl⟩
  · exact absurd rfl hne
  · rw [List.concat_eq_append] at hget ⊢
    have hname : IsName name := (htree.properlyNamed.of_get? hget).1 name (by simp)
    have hsight : tree.sight base = some empty := sight_of_get?_append (by simp) hget
    rw [← List.append_assoc] at hget ⊢
    obtain ⟨fewer, -, hlocate, -⟩ := locateFrom_append xs h.locate_root hsight
    have hdirs : tree.locate (root ++ xs) = .ok (base ++ xs) := by
      rw [locate, hlocate]
      exact locateFrom_directories htree.properlyNamed (sight_of_get?_append (by simp) hget)
    rw [locateEntry_of_isName hname, hdirs]
    simp [Except.map]

/-- A root that leads to a directory asks for no entry of a file that it does not lead through. -/
lemma notMem_trail (h : StandsBelow settings tree root names base d leaf) {place : List String}
    (hthrough : ¬ tree.LeadsThrough root place) : place ∉ tree.trail root := fun hmem =>
  hthrough ⟨d, follow_of_get? h.locate_root h.get?_base, h.isDirectory, hmem⟩

end StandsBelow

/-- A walk that reports its root reports nothing else, or the root is a link that leads to a
directory. -/
lemma walk_of_nil_mem (htree : tree.WellFormed) (h : [] ∈ walk settings tree root) :
    ∃ place leaf, tree.locateEntry root = .ok place ∧ tree.get? place = some leaf ∧
      leaf.isDirectory = false ∧
        (tree.LeadsThrough root place ∨ walk settings tree root = [[]]) := by
  rw [walk] at h ⊢
  cases hroot : tree.at? root with
  | none => simp [hroot] at h
  | some t =>
    obtain ⟨place, hentry, hget⟩ := get?_of_at? hroot
    refine ⟨place, t, hentry, hget, ?_⟩
    cases t with
    | file content => exact ⟨rfl, Or.inr (places_of_leaf rfl)⟩
    | directory entries =>
      simp only [hroot] at h
      obtain ⟨leaf, hleaf, hdirectory⟩ :=
        leaf_of_mem_places (htree.properlyNamed.of_get? hget).2 h
      rw [get?_nil, Option.some.injEq] at hleaf
      simp [← hleaf, isDirectory] at hdirectory
    | link target =>
      refine ⟨rfl, ?_⟩
      simp only [hroot] at h
      cases hfollow : tree.follow root with
      | error error => simp [hfollow] at h
      | ok d =>
        cases hdirectory : d.isDirectory with
        | true => exact Or.inl ⟨d, hfollow, hdirectory, mem_trail_of_link htree hentry hget⟩
        | false =>
          right
          simp [hdirectory]

/-! ### Removing a reported file -/

lemma remove_eq_erase {place : List String} {t : FileTree}
    (hentry : tree.locateEntry names = .ok place) (hget : tree.get? place = some t) :
    tree.remove names = tree.erase place := by
  rw [remove, hentry]
  exact if_pos (by simp [hget])

section

variable (htree : tree.WellFormed) (h : names ∈ walk settings tree root)
  (hroot : ∀ place, tree.locateEntry (root ++ names) = .ok place → ¬ tree.LeadsThrough root place)

include htree h hroot

/-- Without a file, the walk reports the same files but that one. -/
lemma walk_remove :
    walk settings (tree.remove (root ++ names)) root =
      (walk settings tree root).filter (· ≠ names) := by
  by_cases hne : names = []
  · subst hne
    rw [List.append_nil] at hroot ⊢
    obtain ⟨place, leaf, hentry, hget, hleaf, hwalk⟩ := walk_of_nil_mem htree h
    rw [hwalk.resolve_left (hroot place hentry), remove_eq_erase hentry hget, walk,
      at?_erase_self htree hentry hget hleaf]
    simp
  · obtain ⟨base, d, leaf, hbelow⟩ := standsBelow_of_mem_walk htree h hne
    have hentry := hbelow.locateEntry htree hne
    have hnot := hbelow.notMem_trail (hroot _ hentry)
    have hget' := get?_erase_below hbelow.get?_base hne
    have hplaces : (d.erase names).places settings.ignoredDirectories =
        (d.places settings.ignoredDirectories).filter (· ≠ names) :=
      places_erase hbelow.properlyNamed hne hbelow.get?_names hbelow.isLeaf
    have hstill : (d.erase names).isDirectory = true := by
      obtain ⟨name, rest, rfl⟩ := List.exists_cons_of_ne_nil hne
      rw [isDirectory_erase, hbelow.isDirectory]
    rw [remove_eq_erase hentry hbelow.get?]
    cases hbelow.walks with
    | directory hrootEntry hwalk =>
      have hrootEntry' :=
        locateEntry_erase hbelow.get? hbelow.isLeaf hnot hrootEntry hbelow.get?_base
      have hat : (tree.erase (base ++ names)).at? root = some (d.erase names) := by
        rw [at?, hrootEntry']
        exact hget'
      rw [hwalk, ← hplaces, walk, hat]
      cases herase : d.erase names with
      | directory entries => rfl
      | file content => simp [herase, FileTree.isDirectory] at hstill
      | link target => simp [herase, FileTree.isDirectory] at hstill
    | @link entry target hrootEntry hlink hwalk =>
      have hrootEntry' := locateEntry_erase hbelow.get? hbelow.isLeaf hnot hrootEntry hlink
      have hentryNe : entry ≠ base ++ names := by
        rintro rfl
        exact hnot (mem_trail_of_link htree hrootEntry hlink)
      have hlink' : (tree.erase (base ++ names)).get? entry = some (.link target) := by
        refine get?_of_sight_link ?_
        rw [sight_erase_of_ne hbelow.get? hbelow.isLeaf hentryNe]
        exact sight_of_leaf hlink rfl
      have hat : (tree.erase (base ++ names)).at? root = some (.link target) := by
        rw [at?, hrootEntry']
        exact hlink'
      have hfollow : (tree.erase (base ++ names)).follow root = .ok (d.erase names) := by
        refine follow_of_get? ?_ hget'
        rw [locate_erase hbelow.get? hbelow.isLeaf hnot, hbelow.locate_root]
      rw [hwalk, List.filter_cons_of_pos (by simpa using Ne.symm hne), ← hplaces, walk, hat]
      simp only [hfollow, hstill, if_true]

/-- Without a file, the others read as before. -/
lemma read_remove (hlinks : tree.NoLinkThrough (root ++ names)) {other : List String}
    (hother : other ∈ walk settings tree root) (hotherNe : other ≠ names) :
    (tree.remove (root ++ names)).read (root ++ other) = tree.read (root ++ other) := by
  by_cases hne : names = []
  · -- a walk that reports its root reports nothing else
    subst hne
    rw [List.append_nil] at hroot
    obtain ⟨place, leaf, hentry, -, -, hwalk⟩ := walk_of_nil_mem htree h
    rw [hwalk.resolve_left (hroot place hentry)] at hother
    exact absurd (List.mem_singleton.1 hother) hotherNe
  · obtain ⟨base, d, leaf, hbelow⟩ := standsBelow_of_mem_walk htree h hne
    have hentry := hbelow.locateEntry htree hne
    have hnot := hbelow.notMem_trail (hroot _ hentry)
    rw [remove_eq_erase hentry hbelow.get?]
    refine read_erase htree.isDirectory hbelow.get? hbelow.isLeaf fun hmem => ?_
    have hsight : tree.sight base = some empty :=
      sight_eq_empty_iff.2 ⟨d, hbelow.get?_base, hbelow.isDirectory⟩
    obtain ⟨fewer, hfewer, -, htrail⟩ := locateFrom_append other hbelow.locate_root hsight
    rcases (htrail _).1 hmem with hmem | hmem
    · exact hnot hmem
    · by_cases hnil : other = []
      · simp [hnil] at hmem
      · obtain ⟨base', d', leaf', hbelow'⟩ := standsBelow_of_mem_walk htree hother hnil
        obtain rfl : base = base' :=
          Except.ok.inj (hbelow.locate_root.symm.trans hbelow'.locate_root)
        rcases trailFrom_of_get? htree.properlyNamed hbelow'.get? hmem with
          hempty | ⟨dir, name, hdir, hmem⟩
        · rw [sight_of_leaf hbelow.get? hbelow.isLeaf, Option.some.injEq] at hempty
          simpa [hempty, empty, FileTree.isDirectory] using hbelow.isLeaf
        · have hdirNe : dir ++ [name] ≠ base ++ names := by
            rw [hdir]
            exact fun heq => hotherNe (List.append_cancel_left heq)
          rcases link_of_mem_trailFrom hmem with heq | ⟨target, htarget⟩
          · exact hdirNe heq.symm
          · exact hlinks _ hentry dir name target htarget hdirNe (mem_trailFrom_of_le hfewer hmem)

end

end Survey.Discovery
