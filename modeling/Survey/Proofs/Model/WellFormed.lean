/-
# The representation of a model

A model stores every item under the name that the item itself carries, and nothing in it is empty
that a look-up would need: names, paths, targets of forwards.  This holds for the model of every scan,
whatever the files contain and whichever of them find the scan cancelled, because it holds for the
result of every parser; and it is kept by every change, because a change never puts an item in.
-/
import Survey.Proofs.Declaration.WellFormed
import Survey.Proofs.Model.Changes
import Survey.Proofs.Model.WellKeyed
import Survey.Proofs.Routing.WellFormed

namespace Survey.Model

/-- Every item of a model stands once, under its own name, and is well-formed. -/
structure WellFormed (model : Model) : Prop where
  nodup_keys : model.classes.keys.Nodup ∧ model.routes.keys.Nodup ∧ model.formBeans.keys.Nodup ∧
    model.remoteInterfaces.keys.Nodup
  classes : ∀ q type, (q, type) ∈ model.classes.toList →
    type.qualifiedName = q ∧ type.WellFormed
  routes : ∀ path route, (path, route) ∈ model.routes.toList →
    route.path = path ∧ route.WellFormed
  formBeans : ∀ name bean, (name, bean) ∈ model.formBeans.toList →
    bean.name = name ∧ bean.WellFormed
  remoteInterfaces : ∀ name i, (name, i) ∈ model.remoteInterfaces.toList → i.name = name
  globalForwards : Filled model.globalForwards

/-- A well-formed model is well keyed. -/
lemma WellFormed.wellKeyed {model : Model} (h : model.WellFormed) : model.WellKeyed where
  nodup := h.nodup_keys.1
  key_eq q type hmem := (h.classes q type hmem).1
  named q type hmem := by
    have htype := (h.classes q type hmem).2
    exact ⟨fun m hm => (htype.methods m hm).name.2, fun f hf => (htype.fields f hf).2⟩

/-- The model of a scan is well-formed. -/
lemma wellFormed_scanWith (settings : Settings) (tree : FileTree) (root : List String)
    (isCancelled : List String → Bool) :
    (scanWith settings tree root isCancelled).WellFormed := by
  have hrouting : ∀ routing ∈ Outcome.results (Outcomes.ofDiscovery tree root isCancelled
      (.ofTree settings tree root)).routings, routing.WellFormed := by
    intro routing hmem
    obtain ⟨source, path, hparse⟩ := mem_results_map hmem
    exact Routing.wellFormed_of_parse hparse
  -- every item was put in by the parser of its own file
  constructor
  case nodup_keys =>
    exact ⟨Registry.nodup_keys_ofPairs _, Registry.nodup_keys_ofPairs _,
      Registry.nodup_keys_ofPairs _, Registry.nodup_keys_ofPairs _⟩
  case classes =>
    intro q type hmem
    obtain ⟨hname, htype⟩ := Registry.mem_of_mem_ofPairs_map hmem
    obtain ⟨source, path, hparse⟩ := mem_results_map htype
    exact ⟨hname, TypeDeclaration.wellFormed_of_parse hparse⟩
  case routes =>
    intro path route hmem
    obtain ⟨hname, routing, hmem', hroute⟩ := Registry.mem_of_mem_ofPairs_flatMap hmem
    exact ⟨hname, (hrouting routing hmem').routes route hroute⟩
  case formBeans =>
    intro name bean hmem
    obtain ⟨hname, routing, hmem', hbean⟩ := Registry.mem_of_mem_ofPairs_flatMap hmem
    exact ⟨hname, (hrouting routing hmem').formBeans bean hbean⟩
  case remoteInterfaces => exact fun name i hmem => (Registry.mem_of_mem_ofPairs_map hmem).1
  case globalForwards =>
    exact filled_empty.foldl_insertMany fun routing hmem => (hrouting routing hmem).globalForwards

/-- No change puts an item into a model, so all of them keep it well-formed. -/
lemma wellFormed_change {model : Model} (h : model.WellFormed) (c : Change) :
    (model.change c).WellFormed := by
  cases c with
  | dropClass q =>
    obtain ⟨hclasses, hothers⟩ := h.nodup_keys
    exact ⟨⟨Registry.nodup_keys_erase hclasses q, hothers⟩,
      fun q' type hmem => h.classes q' type (List.mem_filter.1 hmem).1, h.routes, h.formBeans,
      h.remoteInterfaces, h.globalForwards⟩
  | clearFailures =>
    exact ⟨h.nodup_keys, h.classes, h.routes, h.formBeans, h.remoteInterfaces, h.globalForwards⟩
  | recount =>
    exact ⟨h.nodup_keys, h.classes, h.routes, h.formBeans, h.remoteInterfaces, h.globalForwards⟩

/-- **The representation invariant.**  After every scan and any changes, every item stands once and
under its own name; names of types and members are words, names of extended and implemented types are
trimmed, thrown types and called names are listed once, and no name, path or target is empty. -/
theorem wellFormed_afterRun (settings : Settings) (tree : FileTree) (root : List String)
    (isCancelled : List String → Bool) (changes : List Change) :
    (afterRun settings tree root isCancelled changes).WellFormed :=
  holds_afterRun (wellFormed_scanWith settings tree root isCancelled)
    (fun _ c h => wellFormed_change h c) changes

end Survey.Model
