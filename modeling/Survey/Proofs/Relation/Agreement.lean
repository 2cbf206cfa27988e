/-
# Entries and edges of one model

A model is listed in two ways: as signatures, in which only the first method of a name has an entry,
and as edges, in which every method has one.  On every model that comes from a scan, also after
changes, the two lists tell of the same types and methods in the same order.  Both go through the
types in strictly increasing order of their names and do not show the order in which the types came,
because no two types share a name.  The methods agree because the qualified name of a method gives
its type back.
-/
import Survey.Proofs.Model.WellFormed
import Survey.Proofs.Signature.Resolution
import Survey.Proofs.Sorting
import Survey.Proofs.Text.ByteOrder
import Survey.Relation

namespace Survey

/-! ### The views of one type -/

namespace TypeDeclaration

variable {type : TypeDeclaration}

/-- The edges of a type: what it extends and implements, its methods, and what they call. -/
lemma mem_edges_iff {edge : RelationEdge} :
    edge ∈ type.edges ↔
      (∃ name ∈ type.superclassName, edge = ⟨type.qualifiedName, name, .extendsType⟩) ∨
      (∃ name ∈ type.implementedNames, edge = ⟨type.qualifiedName, name, .implementsType⟩) ∨
      ∃ m ∈ type.methods,
        edge = ⟨type.memberName m.name, type.qualifiedName, .methodOf⟩ ∨
        ∃ callee ∈ m.calledNames, edge = ⟨type.memberName m.name, callee, .calls⟩ := by
  simp only [edges, methodEdges, List.mem_append, List.mem_map, Option.mem_toList, List.mem_flatMap,
    List.mem_cons, Option.mem_def, eq_comm (a := edge), or_assoc]

lemma memberName_injective (type : TypeDeclaration) (name name' : String)
    (h : type.memberName name = type.memberName name') : name = name' :=
  (String.append_right_inj _).1 h

/-- The sources of the edges from methods are the names of all methods. -/
lemma methodSources_edges (type : TypeDeclaration) :
    (type.edges.filter (·.kind = .methodOf)).map (·.source) =
      type.methods.map fun m => type.memberName m.name := by
  have hextends : (type.superclassName.toList.map fun name =>
      (⟨type.qualifiedName, name, .extendsType⟩ : RelationEdge)).filter (·.kind = .methodOf) = [] := by
    simp [List.filter_eq_nil_iff]
  have himplements : (type.implementedNames.map fun name =>
      (⟨type.qualifiedName, name, .implementsType⟩ : RelationEdge)).filter (·.kind = .methodOf) =
        [] := by
    simp [List.filter_eq_nil_iff]
  have hmethods : (type.methods.flatMap type.methodEdges).filter (·.kind = .methodOf) =
      type.methods.map fun m => ⟨type.memberName m.name, type.qualifiedName, .methodOf⟩ := by
    rw [List.filter_flatMap, ← List.flatMap_singleton' (type.methods.map _), List.flatMap_map]
    refine List.flatMap_congr fun m _ => ?_
    simp [methodEdges, List.filter_eq_nil_iff]
  rw [edges, List.filter_append, List.filter_append, hextends, himplements, hmethods,
    List.nil_append, List.nil_append, List.map_map]
  rfl

/-- The identifiers of the entries for methods are the names of the methods, each once. -/
lemma methodIdentifiers_signatureEntries (type : TypeDeclaration) :
    (type.signatureEntries.filter (·.kind = .ofMethod)).map (·.identifier) =
      distinct (type.methods.map fun m => type.memberName m.name) := by
  have hmethods (methods : List Method) : (methods.map fun m =>
      SignatureEntry.make .ofMethod (type.memberName m.name) (some type.qualifiedName)
        m.signature).filter (·.kind = .ofMethod) =
      methods.map fun m => SignatureEntry.make .ofMethod (type.memberName m.name)
        (some type.qualifiedName) m.signature := by
    rw [List.filter_eq_self]
    simp [SignatureEntry.make]
  have hfields (fields : List Field) : (fields.map fun f =>
      SignatureEntry.make .ofField (type.memberName f.name) (some type.qualifiedName)
        f.signature).filter (·.kind = .ofMethod) = [] := by
    rw [List.filter_eq_nil_iff]
    simp [SignatureEntry.make]
  rw [signatureEntries, List.cons_append, List.filter_cons_of_neg (by simp [SignatureEntry.make]),
    List.filter_append, hmethods, hfields, List.append_nil, List.map_map]
  exact (distinct_map_of_injective (·.name) type.memberName_injective type.methods).symm

/-- Types with different names have no method name in common. -/
lemma memberName_ne_of_ne {type' : TypeDeclaration} (h : type.WordNamed) (h' : type'.WordNamed)
    (hne : type.qualifiedName ≠ type'.qualifiedName) :
    ∀ name ∈ type.methods.map fun m => type.memberName m.name,
      name ∉ type'.methods.map fun m => type'.memberName m.name := by
  intro name hname hname'
  obtain ⟨m, hm, rfl⟩ := List.mem_map.1 hname
  obtain ⟨m', hm', heq⟩ := List.mem_map.1 hname'
  exact hne (memberName_inj (h.methods m hm).dot_notMem (h'.methods m' hm').dot_notMem heq.symm).1

end TypeDeclaration

namespace Model

variable {model model' : Model}

/-! ### The order of enumeration -/

/-- Two models hold the same types and routes, perhaps in another order. -/
structure Reorders (model model' : Model) : Prop where
  classes : model.classes.toList.Perm model'.classes.toList
  routes : model.routes.toList.Perm model'.routes.toList

/-- The routes with their paths, in the order of the paths. -/
def sortedRoutes (model : Model) : List (String × Route) :=
  model.routes.toList.mergeSort fun a b => a.1 ≤ b.1

lemma edges_eq (model : Model) :
    model.edges =
      model.sortedClasses.flatMap (·.edges) ++ model.sortedRoutes.flatMap fun r => r.2.edges r.1 :=
  rfl

lemma sortedClasses_eq_of_reorders (h : model.WellKeyed) (hperm : model.Reorders model') :
    model.sortedClasses = model'.sortedClasses :=
  sorted_eq_of_perm (nodup_qualifiedName_values h) (hperm.classes.map _)

lemma sortedRoutes_eq_of_reorders (h : model.WellFormed) (hperm : model.Reorders model') :
    model.sortedRoutes = model'.sortedRoutes :=
  sorted_eq_of_perm h.nodup_keys.2.1 hperm.routes

/-! ### The two views -/

lemma methodSources_eq (model : Model) :
    (model.edges.filter (·.kind = .methodOf)).map (·.source) =
      model.sortedClasses.flatMap fun type => type.methods.map fun m => type.memberName m.name := by
  have hroutes : (model.sortedRoutes.flatMap fun r => r.2.edges r.1).filter
      (·.kind = .methodOf) = [] := by
    rw [List.filter_eq_nil_iff]
    intro edge hedge
    obtain ⟨r, -, hedge⟩ := List.mem_flatMap.1 hedge
    rcases List.mem_cons.1 hedge with rfl | hedge
    · simp
    · obtain ⟨bean, -, rfl⟩ := List.mem_map.1 hedge
      simp
  rw [edges_eq, List.filter_append, hroutes, List.append_nil, List.filter_flatMap, List.map_flatMap]
  exact List.flatMap_congr fun type _ => type.methodSources_edges

lemma methodIdentifiers_eq (model : Model) :
    (model.signatureEntries.filter (·.kind = .ofMethod)).map (·.identifier) =
      model.sortedClasses.flatMap fun type =>
        distinct (type.methods.map fun m => type.memberName m.name) := by
  rw [signatureEntries, List.filter_flatMap, List.map_flatMap]
  exact List.flatMap_congr fun type _ => type.methodIdentifiers_signatureEntries

/-- The methods of the edges, each once, are the methods of the entries. -/
lemma distinct_methodSources (h : model.WellKeyed) :
    distinct ((model.edges.filter (·.kind = .methodOf)).map (·.source)) =
      (model.signatureEntries.filter (·.kind = .ofMethod)).map (·.identifier) := by
  rw [methodSources_eq, methodIdentifiers_eq]
  -- names occur twice within one type only, so each type may drop them by itself
  refine distinct_flatMap ?_
  have hne := List.pairwise_map.1 (nodup_qualifiedName h)
  exact hne.imp_of_mem fun hmem hmem' => TypeDeclaration.memberName_ne_of_ne
    (wordNamed_of_mem h hmem) (wordNamed_of_mem h hmem')

/-- An edge of a model that does not start at a route is an edge of one of its types. -/
lemma exists_type_of_mem_edges {edge : RelationEdge} (h : edge ∈ model.edges)
    (hroute : edge.kind ≠ .handlesRoute) (hbean : edge.kind ≠ .usesFormBean) :
    ∃ type ∈ model.sortedClasses, edge ∈ type.edges := by
  rw [edges_eq, List.mem_append] at h
  rcases h with h | h
  · exact List.mem_flatMap.1 h
  · obtain ⟨r, -, h⟩ := List.mem_flatMap.1 h
    rcases List.mem_cons.1 h with rfl | h
    · exact absurd rfl hroute
    · obtain ⟨bean, -, rfl⟩ := List.mem_map.1 h
      exact absurd rfl hbean

lemma mem_edges_of_type {type : TypeDeclaration} {edge : RelationEdge}
    (hmem : type ∈ model.sortedClasses) (hedge : edge ∈ type.edges) : edge ∈ model.edges :=
  List.mem_append_left _ (List.mem_flatMap.2 ⟨type, hmem, hedge⟩)

/-! ### Agreement -/

/-- What the two views of a model have in common. -/
structure ViewsAgree (model : Model) : Prop where
  /-- Neither view shows the order in which types and routes are enumerated. -/
  reorder : ∀ model', model.Reorders model' →
    model'.signatureEntries = model.signatureEntries ∧ model'.edges = model.edges
  /-- Both list the same methods in the same order, the edges perhaps several times. -/
  methods_eq : distinct ((model.edges.filter (·.kind = .methodOf)).map (·.source)) =
    (model.signatureEntries.filter (·.kind = .ofMethod)).map (·.identifier)
  /-- The edge of a method leads to the owner of its entry, and the method is found. -/
  owner_eq : ∀ edge ∈ model.edges, edge.kind = .methodOf →
    (∃ entry ∈ model.signatureEntries, entry.kind = .ofMethod ∧ entry.identifier = edge.source ∧
      entry.owner = some edge.target) ∧ ∃ m, model.method? edge.source = some m
  /-- Only listed methods call. -/
  caller : ∀ edge ∈ model.edges, edge.kind = .calls →
    ∃ edge' ∈ model.edges, edge'.kind = .methodOf ∧ edge'.source = edge.source
  /-- Only listed types extend or implement. -/
  subtype : ∀ edge ∈ model.edges, edge.kind = .extendsType ∨ edge.kind = .implementsType →
    ∃ entry ∈ model.signatureEntries, entry.kind = .ofClass ∧ entry.identifier = edge.source
  /-- The types come in strictly increasing order of their names, then the routes in strictly
  increasing order of their paths. -/
  ordered : ∃ (types : List TypeDeclaration) (routes : List (String × Route)),
    types.Perm model.classes.values ∧ routes.Perm model.routes.toList ∧
    types.Pairwise (fun a b => Text.ByteLt a.qualifiedName b.qualifiedName) ∧
    routes.Pairwise (fun a b => Text.ByteLt a.1 b.1) ∧
    model.signatureEntries = types.flatMap (·.signatureEntries) ∧
    model.edges = types.flatMap (·.edges) ++ routes.flatMap fun r => r.2.edges r.1

/-- The entry of the first method that has the name of a given one. -/
lemma exists_method_entry (h : model.WellKeyed) {type : TypeDeclaration}
    (hmem : type ∈ model.sortedClasses) {m : Method} (hm : m ∈ type.methods) :
    (∃ entry ∈ model.signatureEntries, entry.kind = .ofMethod ∧
      entry.identifier = type.memberName m.name ∧ entry.owner = some type.qualifiedName) ∧
    ∃ first, model.method? (type.memberName m.name) = some first := by
  have hsome : (type.method? m.name).isSome = true :=
    List.find?_isSome.2 ⟨m, hm, by simp⟩
  -- of several methods with one name the first one has the entry
  obtain ⟨first, hfirst⟩ := Option.isSome_iff_exists.1 hsome
  obtain ⟨hname, -⟩ := TypeDeclaration.name_of_method? hfirst
  rw [← hname] at hfirst ⊢
  refine ⟨⟨_, List.mem_flatMap.2 ⟨type, hmem, TypeDeclaration.mem_signatureEntries_iff.2
    (Or.inr (Or.inl ⟨first, hfirst, rfl⟩))⟩, rfl, rfl, rfl⟩, first, ?_⟩
  exact (method?_eq_some_iff h).2 ⟨type, hmem, hfirst, rfl⟩

/-- The views of a well-formed model agree. -/
lemma viewsAgree_of_wellFormed (h : model.WellFormed) : model.ViewsAgree := by
  have hkeyed := h.wellKeyed
  constructor
  case reorder =>
    intro model' hperm
    rw [signatureEntries, signatureEntries, edges_eq, edges_eq,
      sortedClasses_eq_of_reorders hkeyed hperm, sortedRoutes_eq_of_reorders h hperm]
    exact ⟨rfl, rfl⟩
  case methods_eq => exact distinct_methodSources hkeyed
  case owner_eq =>
    intro edge hedge hkind
    obtain ⟨type, hmem, hedge⟩ := exists_type_of_mem_edges hedge (by simp [hkind]) (by simp [hkind])
    rcases TypeDeclaration.mem_edges_iff.1 hedge with
      ⟨name, -, rfl⟩ | ⟨name, -, rfl⟩ | ⟨m, hm, rfl | ⟨callee, -, rfl⟩⟩
    · simp at hkind
    · simp at hkind
    · exact exists_method_entry hkeyed hmem hm
    · simp at hkind
  case caller =>
    intro edge hedge hkind
    obtain ⟨type, hmem, hedge⟩ := exists_type_of_mem_edges hedge (by simp [hkind]) (by simp [hkind])
    rcases TypeDeclaration.mem_edges_iff.1 hedge with
      ⟨name, -, rfl⟩ | ⟨name, -, rfl⟩ | ⟨m, hm, rfl | ⟨callee, -, rfl⟩⟩
    · simp at hkind
    · simp at hkind
    · simp at hkind
    · exact ⟨_, mem_edges_of_type hmem (TypeDeclaration.mem_edges_iff.2
        (Or.inr (Or.inr ⟨m, hm, Or.inl rfl⟩))), rfl, rfl⟩
  case subtype =>
    intro edge hedge hkind
    have hroute : edge.kind ≠ .handlesRoute ∧ edge.kind ≠ .usesFormBean := by
      rcases hkind with hkind | hkind <;> simp [hkind]
    obtain ⟨type, hmem, hedge⟩ := exists_type_of_mem_edges hedge hroute.1 hroute.2
    have hentry : ∃ entry ∈ model.signatureEntries,
        entry.kind = .ofClass ∧ entry.identifier = type.qualifiedName :=
      ⟨_, List.mem_flatMap.2 ⟨type, hmem, TypeDeclaration.mem_signatureEntries_iff.2 (Or.inl rfl)⟩,
        rfl, rfl⟩
    -- the type itself is the source of what it extends and implements
    rcases TypeDeclaration.mem_edges_iff.1 hedge with
      ⟨name, -, rfl⟩ | ⟨name, -, rfl⟩ | ⟨m, hm, rfl | ⟨callee, -, rfl⟩⟩
    · exact hentry
    · exact hentry
    · simp at hkind
    · simp at hkind
  case ordered =>
    refine ⟨model.sortedClasses, model.sortedRoutes, List.mergeSort_perm _ _,
      List.mergeSort_perm _ _, ?_, ?_, rfl, edges_eq model⟩
    · exact (pairwise_lt_sorted (nodup_qualifiedName_values hkeyed)).imp Text.byteLt_of_lt
    · exact (pairwise_lt_sorted h.nodup_keys.2.1).imp Text.byteLt_of_lt

/-- **Entries and edges agree.**  After every scan and any changes, the entries and the edges of the
model do not depend on the order in which its types and routes are enumerated; they list the same
methods in the same order, each under its owner; only listed methods call and only listed types
extend or implement; and types come before routes, both in strictly increasing byte order. -/
theorem viewsAgree_afterRun (settings : Settings) (tree : FileTree) (root : List String)
    (isCancelled : List String → Bool) (changes : List Change) :
    (afterRun settings tree root isCancelled changes).ViewsAgree :=
  viewsAgree_of_wellFormed <|
    holds_afterRun (wellFormed_scanWith settings tree root isCancelled)
      (fun _ c h => wellFormed_change h c) changes

end Model

end Survey
