/-
# Models whose keys are the names of their types

In a model that comes from a scan every type stands under its own qualified name, no name is used
twice, and the members of the types have names made of word characters.  Taking types out keeps all
of this.  Hence the types by key and the types as a list are two views of the same thing.
-/
import Survey.Proofs.Declaration.Names
import Survey.Proofs.Registry
import Survey.Scan

namespace Survey

namespace Model

/-- Every type of a model stands under its qualified name, once, and its members have names made of
word characters. -/
structure WellKeyed (model : Model) : Prop where
  nodup : model.classes.keys.Nodup
  key_eq : ∀ q type, (q, type) ∈ model.classes.toList → type.qualifiedName = q
  named : ∀ q type, (q, type) ∈ model.classes.toList → type.WordNamed

lemma wellKeyed_dropClass {model : Model} (h : model.WellKeyed) (q : String) :
    (model.dropClass q).WellKeyed where
  nodup := Registry.nodup_keys_erase h.nodup q
  key_eq q' type hmem := h.key_eq q' type (List.mem_filter.1 hmem).1
  named q' type hmem := h.named q' type (List.mem_filter.1 hmem).1

lemma wellKeyed_dropClasses {model : Model} (h : model.WellKeyed) (drops : List String) :
    (drops.foldl dropClass model).WellKeyed := by
  induction drops generalizing model with
  | nil => exact h
  | cons q drops ih => exact ih (wellKeyed_dropClass h q)

/-- A result among the outcomes of some files is what parsing the text of one of them gave. -/
lemma exists_read_of_mem_results_map {α : Type} {parse : String → String → Outcome α}
    {tree : FileTree} {root : List String} {isCancelled : List String → Bool}
    {files : List (List String)} {a : α}
    (h : a ∈ Outcome.results (files.map (Outcome.ofFile parse tree root isCancelled))) :
    ∃ names ∈ files, ∃ bytes, tree.read (root ++ names) = .ok bytes ∧
      parse (String.ofList (Text.decode bytes)) (pathText names) = .ok a := by
  rw [Outcome.results, List.mem_filterMap] at h
  obtain ⟨outcome, hmem, hresult⟩ := h
  obtain ⟨names, hnames, rfl⟩ := List.mem_map.1 hmem
  rw [Outcome.result?_eq_some_iff, Outcome.ofFile] at hresult
  split at hresult
  · simp at hresult
  · split at hresult
    · simp at hresult
    · rename_i bytes hread
      exact ⟨names, hnames, bytes, hread, hresult⟩

lemma mem_results_map {α : Type} {parse : String → String → Outcome α} {tree : FileTree}
    {root : List String} {isCancelled : List String → Bool} {files : List (List String)} {a : α}
    (h : a ∈ Outcome.results (files.map (Outcome.ofFile parse tree root isCancelled))) :
    ∃ source path, parse source path = .ok a := by
  obtain ⟨names, -, bytes, -, hparse⟩ := exists_read_of_mem_results_map h
  exact ⟨_, _, hparse⟩

/-- The model of a scan is well keyed, whichever files find it cancelled. -/
theorem wellKeyed_scanWith (settings : Settings) (tree : FileTree) (root : List String)
    (isCancelled : List String → Bool) : (scanWith settings tree root isCancelled).WellKeyed := by
  have hmem : ∀ q type,
      (q, type) ∈ (scanWith settings tree root isCancelled).classes.toList →
        type.qualifiedName = q ∧ type.WordNamed := by
    intro q type h
    obtain ⟨hname, htype⟩ := Registry.mem_of_mem_ofPairs_map h
    obtain ⟨source, path, hparse⟩ := mem_results_map htype
    exact ⟨hname, TypeDeclaration.wordNamed_of_parse hparse⟩
  exact ⟨Registry.nodup_keys_ofPairs _, fun q type h => (hmem q type h).1,
    fun q type h => (hmem q type h).2⟩

/-! ### The types of a well-keyed model -/

variable {model : Model}

/-- Looking a name up finds exactly the type of that name. -/
lemma class?_eq_some_iff (h : model.WellKeyed) {q : String} {type : TypeDeclaration} :
    model.class? q = some type ↔ type ∈ model.sortedClasses ∧ type.qualifiedName = q := by
  rw [class?, Registry.get?_eq_some_iff h.nodup, sortedClasses, List.mem_mergeSort,
    Registry.values, List.mem_map]
  constructor
  · intro hmem
    exact ⟨⟨_, hmem, rfl⟩, h.key_eq q type hmem⟩
  · rintro ⟨⟨⟨q', type'⟩, hmem, rfl⟩, rfl⟩
    rwa [← h.key_eq q' type' hmem] at hmem

lemma wordNamed_of_mem (h : model.WellKeyed) {type : TypeDeclaration}
    (hmem : type ∈ model.sortedClasses) : type.WordNamed := by
  rw [sortedClasses, List.mem_mergeSort, Registry.values, List.mem_map] at hmem
  obtain ⟨⟨q, type'⟩, hmem, rfl⟩ := hmem
  exact h.named q type' hmem

lemma nodup_qualifiedName_values (h : model.WellKeyed) :
    (model.classes.values.map (·.qualifiedName)).Nodup := by
  have hkeys : model.classes.values.map (·.qualifiedName) = model.classes.keys := by
    rw [Registry.values, Registry.keys, List.map_map]
    exact List.map_congr_left fun pair hpair => h.key_eq pair.1 pair.2 hpair
  exact hkeys ▸ h.nodup

/-- No two types in the sorted list share their name. -/
lemma nodup_qualifiedName (h : model.WellKeyed) :
    (model.sortedClasses.map (·.qualifiedName)).Nodup :=
  ((List.mergeSort_perm _ _).map _).nodup_iff.2 (nodup_qualifiedName_values h)

end Model

end Survey
