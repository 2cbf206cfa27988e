/-
# The trail of a path

On its way a path asks a tree for entries, one after the other: they are its trail.  What a path
leads to depends only on what is seen on its trail, so taking away a file or a link that is not on the
trail of a path does not change what is read there; and a path whose trail it is on may only end
there.
-/
import Survey.Proofs.FileTree.Entries

namespace Survey.FileTree

variable {tree : FileTree} {links : Nat} {here names : List String} {name : String}

/-! ### One name after the other -/

/-- What a path comes to at one of its names. -/
inductive Turn where
  /-- It goes on from a directory. -/
  | goOn (there : List String)
  /-- It goes on along the target of a link, from the directory where the target starts. -/
  | jump (there target : List String)
  /-- It ends, with a result that the names behind still have a say in. -/
  | stop (result : List String → Except ReadError (List String))

/-- What a path comes to at a name in a directory. -/
def turn (tree : FileTree) (here : List String) (name : String) : Turn :=
  if name = "." then .goOn here
  else if name = ".." then .goOn here.dropLast
  else if maxNameSize < name.utf8ByteSize then .stop fun _ => .error .nameTooLong
  else
    match tree.sight (here ++ [name]) with
    | none => .stop fun names => .ok (here ++ name :: names)
    | some (file _) =>
      .stop fun names => if names = [] then .ok (here ++ [name]) else .error .notADirectory
    | some (directory _) => .goOn (here ++ [name])
    | some (link target) => .jump (targetStart here target) (namesOf target)

/-- Goes along names behind a link that was met with some links left to follow. -/
def locateBehind (tree : FileTree) : Nat → List String → List String →
    Except ReadError (List String)
  | 0, _, _ => .error .tooManyLinks
  | links + 1, here, names => locateFrom tree links here names

lemma locateFrom_eq (tree : FileTree) (links : Nat) :
    locateFrom tree links = locateWith tree (locateBehind tree links) := by
  cases links <;> rfl

@[simp] lemma locateFrom_nil : locateFrom tree links here [] = .ok here := by
  rw [locateFrom_eq, locateWith]

lemma locateFrom_cons :
    locateFrom tree links here (name :: names) =
      match turn tree here name with
      | .goOn there => locateFrom tree links there names
      | .jump there target => locateBehind tree links there (target ++ names)
      | .stop result => result names := by
  rw [locateFrom_eq, locateWith, turn]
  by_cases hdot : name = "."
  · simp only [hdot, if_true]
  by_cases hdots : name = ".."
  · simp [hdots]
  by_cases hsize : maxNameSize < name.utf8ByteSize
  · simp only [hdot, hdots, hsize, if_true, if_false]
  simp only [hdot, hdots, hsize, if_false, sight]
  cases hget : tree.get? (here ++ [name]) with
  | none => rfl
  | some t =>
    cases t with
    | file content => rfl
    | directory entries => rfl
    | link target => rfl

/-- The entries that a path asks a tree for, when links are left to `jump`. -/
def trailWith (tree : FileTree) (jump : List String → List String → List (List String)) :
    List String → List String → List (List String)
  | _, [] => []
  | here, name :: names =>
    (here ++ [name]) ::
      match turn tree here name with
      | .goOn there => trailWith tree jump there names
      | .jump there target => jump there (target ++ names)
      | .stop _ => []

/-- The entries that a path asks a tree for on its way through at most `links` links. -/
def trailFrom (tree : FileTree) : Nat → List String → List String → List (List String)
  | 0 => trailWith tree fun _ _ => []
  | links + 1 => trailWith tree (trailFrom tree links)

/-- The trail behind a link that was met with some links left to follow. -/
def trailBehind (tree : FileTree) : Nat → List String → List String → List (List String)
  | 0, _, _ => []
  | links + 1, here, names => trailFrom tree links here names

/-- The entries that some names ask a tree for. -/
def trail (tree : FileTree) (names : List String) : List (List String) :=
  trailFrom tree maxLinks [] names

lemma trailFrom_eq (tree : FileTree) (links : Nat) :
    trailFrom tree links = trailWith tree (trailBehind tree links) := by
  cases links <;> rfl

@[simp] lemma trailFrom_nil : trailFrom tree links here [] = [] := by
  rw [trailFrom_eq, trailWith]

lemma trailFrom_cons :
    trailFrom tree links here (name :: names) =
      (here ++ [name]) ::
        match turn tree here name with
        | .goOn there => trailFrom tree links there names
        | .jump there target => trailBehind tree links there (target ++ names)
        | .stop _ => [] := by
  rw [trailFrom_eq, trailWith]

/-- A path is followed name by name, and along the target of every link; the links left to follow
decrease with every link. -/
lemma path_induction (tree : FileTree) {P : Nat → List String → List String → Prop}
    (nil : ∀ links here, P links here [])
    (goOn : ∀ links here name names there, turn tree here name = .goOn there →
      P links there names → P links here (name :: names))
    (jump : ∀ links here name names there target, turn tree here name = .jump there target →
      (∀ fewer, links = fewer + 1 → P fewer there (target ++ names)) → P links here (name :: names))
    (stop : ∀ links here name names result, turn tree here name = .stop result →
      P links here (name :: names))
    (links : Nat) (here names : List String) : P links here names := by
  induction links using Nat.strongRecOn generalizing here names with
  | ind links ihlinks =>
    induction names generalizing here with
    | nil => exact nil links here
    | cons name names ih =>
      cases hturn : turn tree here name with
      | goOn there => exact goOn _ _ _ _ _ hturn (ih there)
      | jump there target =>
        exact jump _ _ _ _ _ _ hturn fun fewer h => ihlinks fewer (by omega) there (target ++ names)
      | stop result => exact stop _ _ _ _ _ hturn

/-! ### Where a path leads -/

/-- Only a directory has places. -/
lemma sight_nil_of_sight (hhere : tree.sight here = some empty) : tree.sight [] = some empty := by
  by_cases hnil : here = []
  · exact hnil ▸ hhere
  · obtain ⟨d, hd, -⟩ := sight_eq_empty_iff.1 hhere
    exact sight_of_get?_append hnil hd

/-- The directory around a directory is one, also at the top. -/
lemma sight_dropLast (hhere : tree.sight here = some empty) :
    tree.sight here.dropLast = some empty := by
  by_cases hnil : here = []
  · subst hnil
    exact hhere
  · obtain ⟨d, hd, -⟩ := sight_eq_empty_iff.1 hhere
    rw [← List.dropLast_append_getLast hnil] at hd
    exact sight_of_get?_append (by simp) hd

/-- From a directory a path goes on to a directory. -/
lemma sight_of_turn_goOn {there : List String} (hturn : turn tree here name = .goOn there)
    (hhere : tree.sight here = some empty) : tree.sight there = some empty := by
  rw [turn] at hturn
  split at hturn
  · cases hturn
    exact hhere
  split at hturn
  · cases hturn
    exact sight_dropLast hhere
  split at hturn
  · simp at hturn
  split at hturn
  · simp at hturn
  · simp at hturn
  · next hsight =>
    cases hturn
    obtain ⟨d, hd, hout⟩ := Option.map_eq_some_iff.1 hsight
    refine sight_eq_empty_iff.2 ⟨d, hd, ?_⟩
    cases d <;> simp_all [outline, isDirectory]
  · simp at hturn

/-- A path ends where nothing stands, or at a file. -/
lemma sight_of_turn_stop {result : List String → Except ReadError (List String)}
    (hturn : turn tree here name = .stop result) {place : List String}
    (hplace : result names = .ok place) :
    tree.sight place = none ∨
      place = here ++ [name] ∧ ∃ content, tree.sight place = some (file content) := by
  rw [turn] at hturn
  split at hturn
  · simp at hturn
  split at hturn
  · simp at hturn
  split at hturn
  · cases hturn
    simp at hplace
  split at hturn
  · next hsight =>
    cases hturn
    obtain rfl := Except.ok.inj hplace
    rw [sight_eq_none_iff] at hsight ⊢
    have h := get?_append_eq_none hsight names
    rw [List.append_assoc] at h
    exact Or.inl h
  · next content hsight =>
    cases hturn
    by_cases hnames : names = []
    · obtain rfl : here ++ [name] = place := by simpa [hnames] using hplace
      exact Or.inr ⟨rfl, content, hsight⟩
    · simp [hnames] at hplace
  · simp at hturn
  · simp at hturn

/-- A path jumps where a link stands, to the directory where the target of the link starts. -/
lemma link_of_turn_jump {there target : List String}
    (hturn : turn tree here name = .jump there target) :
    ∃ written, tree.get? (here ++ [name]) = some (link written) ∧ there = targetStart here written := by
  rw [turn] at hturn
  split at hturn
  · simp at hturn
  split at hturn
  · simp at hturn
  split at hturn
  · simp at hturn
  split at hturn
  · simp at hturn
  · simp at hturn
  · simp at hturn
  · next written hsight =>
    cases hturn
    exact ⟨written, get?_of_sight_link hsight, rfl⟩

lemma sight_of_turn_jump {there target : List String}
    (hturn : turn tree here name = .jump there target) (hhere : tree.sight here = some empty) :
    tree.sight there = some empty := by
  obtain ⟨written, -, rfl⟩ := link_of_turn_jump hturn
  rw [targetStart]
  split
  · exact sight_nil_of_sight hhere
  · exact hhere

/-- A path leads to a directory, to a file on its trail, or to where nothing stands. -/
lemma sight_of_locateFrom {place : List String} (hhere : tree.sight here = some empty)
    (h : locateFrom tree links here names = .ok place) :
    tree.sight place = none ∨ tree.sight place = some empty ∨
      place ∈ trailFrom tree links here names ∧ ∃ content, tree.sight place = some (file content) := by
  induction links, here, names using path_induction tree with
  | nil links here =>
    rw [locateFrom_nil, Except.ok.injEq] at h
    exact Or.inr (Or.inl (h ▸ hhere))
  | goOn links here name names there hturn ih =>
    rw [locateFrom_cons, hturn] at h
    rcases ih (sight_of_turn_goOn hturn hhere) h with hnone | hempty | ⟨hmem, hfile⟩
    · exact Or.inl hnone
    · exact Or.inr (Or.inl hempty)
    · refine Or.inr (Or.inr ⟨?_, hfile⟩)
      rw [trailFrom_cons, hturn]
      exact List.mem_cons_of_mem _ hmem
  | jump links here name names there target hturn ih =>
    rw [locateFrom_cons, hturn] at h
    cases links with
    | zero => simp [locateBehind] at h
    | succ fewer =>
      rcases ih fewer rfl (sight_of_turn_jump hturn hhere) h with hnone | hempty | ⟨hmem, hfile⟩
      · exact Or.inl hnone
      · exact Or.inr (Or.inl hempty)
      · refine Or.inr (Or.inr ⟨?_, hfile⟩)
        rw [trailFrom_cons, hturn]
        exact List.mem_cons_of_mem _ hmem
  | stop links here name names result hturn =>
    rw [locateFrom_cons, hturn] at h
    rcases sight_of_turn_stop hturn h with hnone | ⟨rfl, hfile⟩
    · exact Or.inl hnone
    · refine Or.inr (Or.inr ⟨?_, hfile⟩)
      rw [trailFrom_cons]
      exact List.mem_cons_self

/-! ### Paths in two parts -/

/-- A path to a directory and on from there is a path to the directory, then a path from it, with no
more links left to follow. -/
lemma locateFrom_append {xs place : List String} (ys : List String)
    (h : locateFrom tree links here xs = .ok place) (hplace : tree.sight place = some empty) :
    ∃ fewer ≤ links, locateFrom tree links here (xs ++ ys) = locateFrom tree fewer place ys ∧
      ∀ q, q ∈ trailFrom tree links here (xs ++ ys) ↔
        q ∈ trailFrom tree links here xs ∨ q ∈ trailFrom tree fewer place ys := by
  induction links, here, xs using path_induction tree with
  | nil links here =>
    rw [locateFrom_nil, Except.ok.injEq] at h
    subst h
    exact ⟨links, Nat.le_refl _, rfl, by simp⟩
  | goOn links here name xs there hturn ih =>
    rw [locateFrom_cons, hturn] at h
    obtain ⟨fewer, hfewer, hlocate, htrail⟩ := ih h
    refine ⟨fewer, hfewer, ?_, fun q => ?_⟩
    · rw [List.cons_append, locateFrom_cons, hturn]
      exact hlocate
    · rw [List.cons_append, trailFrom_cons, trailFrom_cons, hturn, List.mem_cons, List.mem_cons,
        or_assoc]
      exact or_congr_right (htrail q)
  | jump links here name xs there target hturn ih =>
    rw [locateFrom_cons, hturn] at h
    cases links with
    | zero => simp [locateBehind] at h
    | succ links =>
      obtain ⟨fewer, hfewer, hlocate, htrail⟩ := ih links rfl h
      rw [List.append_assoc] at hlocate htrail
      refine ⟨fewer, by omega, ?_, fun q => ?_⟩
      · rw [List.cons_append, locateFrom_cons, hturn]
        exact hlocate
      · rw [List.cons_append, trailFrom_cons, trailFrom_cons, hturn, List.mem_cons, List.mem_cons,
          or_assoc]
        exact or_congr_right (htrail q)
  | stop links here name xs result hturn =>
    rw [locateFrom_cons, hturn] at h
    rcases sight_of_turn_stop hturn h with hnone | ⟨-, content, hfile⟩
    · simp [hplace] at hnone
    · simp [hplace, empty] at hfile

/-- With more links left to follow, a path asks for the same entries and maybe for more. -/
lemma mem_trailFrom_of_le {fewer : Nat} (hle : fewer ≤ links) {q : List String}
    (h : q ∈ trailFrom tree fewer here names) : q ∈ trailFrom tree links here names := by
  induction fewer, here, names using path_induction tree generalizing links with
  | nil fewer here => simp at h
  | goOn fewer here name names there hturn ih =>
    rw [trailFrom_cons, hturn, List.mem_cons] at h ⊢
    exact h.imp_right (ih hle)
  | jump fewer here name names there target hturn ih =>
    rw [trailFrom_cons, hturn, List.mem_cons] at h ⊢
    refine h.imp_right fun h => ?_
    cases fewer with
    | zero => simp [trailBehind] at h
    | succ fewer =>
      obtain ⟨links, rfl⟩ : ∃ more, links = more + 1 := ⟨links - 1, by omega⟩
      exact ih fewer rfl (by omega) h
  | stop fewer here name names result hturn =>
    rw [trailFrom_cons, hturn, List.mem_cons] at h ⊢
    exact h

/-! ### Paths without links -/

lemma turn_of_isName (hname : IsName name) {t : FileTree} (h : tree.get? (here ++ [name]) = some t)
    (hdirectory : t.isDirectory = true) : turn tree here name = .goOn (here ++ [name]) := by
  have hsight : tree.sight (here ++ [name]) = some empty := sight_eq_empty_iff.2 ⟨t, h, hdirectory⟩
  have hdots := hname.not_dots
  simp only [isDots, Bool.or_eq_false_iff, beq_eq_false_iff_ne] at hdots
  rw [turn, if_neg hdots.1, if_neg hdots.2, if_neg (Nat.not_lt.2 hname.size_le), hsight]
  rfl

/-- Directories lead to where they stand. -/
lemma locateFrom_directories (htree : tree.ProperlyNamed)
    (h : tree.sight (here ++ names) = some empty) :
    locateFrom tree links here names = .ok (here ++ names) := by
  induction names generalizing here with
  | nil => simp
  | cons name names ih =>
    have happend : here ++ name :: names = (here ++ [name]) ++ names := by simp
    obtain ⟨d, hd, hdirectory⟩ := sight_eq_empty_iff.1 h
    have hname : IsName name := (htree.of_get? hd).1 name (by simp)
    have hstep : ∃ t, tree.get? (here ++ [name]) = some t ∧ t.isDirectory = true := by
      rw [happend] at hd
      by_cases hnames : names = []
      · exact ⟨d, by simpa [hnames] using hd, hdirectory⟩
      · exact isDirectory_of_get?_append hnames hd
    obtain ⟨t, ht, htdirectory⟩ := hstep
    rw [locateFrom_cons, turn_of_isName hname ht htdirectory, happend]
    rw [happend] at h
    exact ih h

/-- A path that does not run through links asks for directories, and then for the entry at its
end. -/
lemma trailFrom_of_get? (htree : tree.ProperlyNamed) {t : FileTree}
    (h : tree.get? (here ++ names) = some t) {q : List String}
    (hq : q ∈ trailFrom tree links here names) :
    tree.sight q = some empty ∨
      ∃ dir name, dir ++ [name] = here ++ names ∧ q ∈ trailFrom tree links dir [name] := by
  induction names generalizing here with
  | nil => simp at hq
  | cons name names ih =>
    have happend : here ++ name :: names = (here ++ [name]) ++ names := by simp
    by_cases hnames : names = []
    · subst hnames
      exact Or.inr ⟨here, name, rfl, hq⟩
    · have hname : IsName name := (htree.of_get? h).1 name (by simp)
      rw [happend] at h
      obtain ⟨d, hd, hdirectory⟩ := isDirectory_of_get?_append hnames h
      rw [trailFrom_cons, turn_of_isName hname hd hdirectory, List.mem_cons] at hq
      rw [happend]
      rcases hq with rfl | hq
      · exact Or.inl (sight_eq_empty_iff.2 ⟨d, hd, hdirectory⟩)
      · exact ih h hq

/-- An entry that is no link asks for nothing else. -/
lemma link_of_mem_trailFrom {q : List String} (hq : q ∈ trailFrom tree links here [name]) :
    q = here ++ [name] ∨ ∃ target, tree.get? (here ++ [name]) = some (link target) := by
  rw [trailFrom_cons, List.mem_cons] at hq
  rcases hq with rfl | hq
  · exact Or.inl rfl
  · cases hturn : turn tree here name with
    | goOn there => simp [hturn] at hq
    | jump there target =>
      obtain ⟨written, hlink, -⟩ := link_of_turn_jump hturn
      exact Or.inr ⟨written, hlink⟩
    | stop result => simp [hturn] at hq

/-! ### Taking an entry away -/

section

variable {place : List String} {leaf : FileTree}

lemma turn_erase (hget : tree.get? place = some leaf) (hleaf : leaf.isDirectory = false) :
    turn (tree.erase place) here name = turn tree here name ∨
      here ++ [name] = place ∧
        turn (tree.erase place) here name = .stop fun names => .ok (here ++ name :: names) := by
  by_cases hplace : here ++ [name] = place
  · have hnone : (tree.erase place).sight (here ++ [name]) = none := by
      rw [sight_eq_none_iff, hplace]
      have h := get?_erase_self tree place (by simp [← hplace]) []
      rwa [List.append_nil] at h
    rw [turn, hnone, turn]
    split
    · exact Or.inl rfl
    split
    · exact Or.inl rfl
    split
    · exact Or.inl rfl
    exact Or.inr ⟨hplace, rfl⟩
  · left
    rw [turn, turn, sight_erase_of_ne hget hleaf hplace]

/-- Without a file or a link, a path leads to where it led, or it is stuck where the file or the link
stood. -/
lemma locateFrom_erase (hget : tree.get? place = some leaf) (hleaf : leaf.isDirectory = false) :
    locateFrom (tree.erase place) links here names = locateFrom tree links here names ∨
      place ∈ trailFrom tree links here names ∧
        ∃ rest, locateFrom (tree.erase place) links here names = .ok (place ++ rest) := by
  have hstuck : ∀ links here name names, here ++ [name] = place →
      turn (tree.erase place) here name = .stop (fun names => .ok (here ++ name :: names)) →
      place ∈ trailFrom tree links here (name :: names) ∧
        ∃ rest, locateFrom (tree.erase place) links here (name :: names) = .ok (place ++ rest) := by
    intro links here name names hplace hturn
    rw [trailFrom_cons, locateFrom_cons, hturn]
    exact ⟨by simp [hplace], names, by simp [← hplace]⟩
  induction links, here, names using path_induction tree with
  | nil links here => simp
  | goOn links here name names there hturn ih =>
    rcases turn_erase hget hleaf with hsame | ⟨hplace, hgone⟩
    · rw [locateFrom_cons, locateFrom_cons, trailFrom_cons, hsame, hturn]
      exact ih.imp_right fun h => ⟨List.mem_cons_of_mem _ h.1, h.2⟩
    · exact Or.inr (hstuck _ _ _ _ hplace hgone)
  | jump links here name names there target hturn ih =>
    rcases turn_erase hget hleaf with hsame | ⟨hplace, hgone⟩
    · rw [locateFrom_cons, locateFrom_cons, trailFrom_cons, hsame, hturn]
      cases links with
      | zero => exact Or.inl rfl
      | succ fewer => exact (ih fewer rfl).imp_right fun h => ⟨List.mem_cons_of_mem _ h.1, h.2⟩
    · exact Or.inr (hstuck _ _ _ _ hplace hgone)
  | stop links here name names result hturn =>
    rcases turn_erase hget hleaf with hsame | ⟨hplace, hgone⟩
    · rw [locateFrom_cons, locateFrom_cons, hsame, hturn]
      exact Or.inl rfl
    · exact Or.inr (hstuck _ _ _ _ hplace hgone)

/-- What is read at the end of a path, as far as it can be seen there. -/
lemma read_eq (names : List String) :
    tree.read names = (tree.locate names).bind fun place =>
      match tree.sight place with
      | none => .error .noSuchFile
      | some (file content) => content.mapError .refused
      | some (directory _) => .error .isADirectory
      | some (link _) => .error .tooManyLinks := by
  rw [read, follow]
  cases tree.locate names with
  | error error => rfl
  | ok place =>
    simp only [sight, bind, Except.bind]
    cases tree.get? place with
    | none => rfl
    | some t => cases t <;> rfl

/-- Taking a file or a link away changes nothing at paths whose trail it is not on. -/
lemma locate_erase (hget : tree.get? place = some leaf) (hleaf : leaf.isDirectory = false)
    (hnot : place ∉ tree.trail names) : (tree.erase place).locate names = tree.locate names := by
  have h : locateFrom (tree.erase place) maxLinks [] names = locateFrom tree maxLinks [] names ∨
      place ∈ trailFrom tree maxLinks [] names ∧
        ∃ rest, locateFrom (tree.erase place) maxLinks [] names = .ok (place ++ rest) :=
    locateFrom_erase hget hleaf
  rcases h with hsame | hstuck
  · exact hsame
  · exact absurd hstuck.1 hnot

lemma read_erase (htree : tree.isDirectory = true) (hget : tree.get? place = some leaf)
    (hleaf : leaf.isDirectory = false) (hnot : place ∉ tree.trail names) :
    (tree.erase place).read names = tree.read names := by
  rw [read_eq, read_eq, locate_erase hget hleaf hnot]
  cases hlocate : tree.locate names with
  | error error => rfl
  | ok q =>
    have hne : q ≠ place := by
      rintro rfl
      have htop : tree.sight [] = some empty := sight_eq_empty_iff.2 ⟨tree, get?_nil _, htree⟩
      have hsight := sight_of_leaf hget hleaf
      rcases sight_of_locateFrom htop hlocate with hnone | hempty | ⟨hmem, -⟩
      · simp [hsight] at hnone
      · rw [hsight, Option.some.injEq] at hempty
        rw [hempty] at hleaf
        simp [empty, isDirectory] at hleaf
      · exact hnot hmem
    simp only [Except.bind, sight_erase_of_ne hget hleaf hne]

end

end Survey.FileTree
