/-
# The ends of edges

Every edge of a model starts at a name.  It also leads to one, with a single exception: a route is
kept when its element has no handler type, or an empty one, and its edge to the handler then leads
to the empty name.  A form bean without a name, in contrast, gives no edge at all.
-/
import Survey.Proofs.Relation.Agreement

namespace Survey

lemma append_ne_empty_of_right {s t : String} (h : t ≠ "") : s ++ t ≠ "" :=
  fun hempty => h (String.append_eq_empty_iff.1 hempty).2

lemma qualify_ne_empty {simpleName : String} (h : simpleName ≠ "") (package : String) :
    qualify package simpleName ≠ "" := by
  rw [qualify]
  split
  · exact h
  · exact append_ne_empty_of_right h

/-! ### Types -/

namespace TypeDeclaration

variable {type : TypeDeclaration}

lemma WellFormed.qualifiedName_ne (h : type.WellFormed) : type.qualifiedName ≠ "" :=
  h.qualifiedName_eq ▸ qualify_ne_empty h.simpleName.1 type.package

/-- Every edge of a type leads from a name to a name. -/
lemma WellFormed.ends_ne_of_mem_edges (h : type.WellFormed) {edge : RelationEdge}
    (hedge : edge ∈ type.edges) : edge.source ≠ "" ∧ edge.target ≠ "" := by
  rcases mem_edges_iff.1 hedge with
    ⟨name, hname, rfl⟩ | ⟨name, hname, rfl⟩ | ⟨m, hm, rfl | ⟨callee, hcallee, rfl⟩⟩
  · exact ⟨h.qualifiedName_ne, (h.superclassName name hname).1⟩
  · exact ⟨h.qualifiedName_ne, (h.implementedNames name hname).1⟩
  · exact ⟨append_ne_empty_of_right (h.methods m hm).name.1, h.qualifiedName_ne⟩
  · have hlists := (h.methods m hm).calledNames.2
    exact ⟨append_ne_empty_of_right (h.methods m hm).name.1,
      fun hempty => hlists (hempty ▸ hcallee)⟩

/-- The edges to handlers are those of routes. -/
lemma kind_ne_handlesRoute_of_mem_edges {edge : RelationEdge} (hedge : edge ∈ type.edges) :
    edge.kind ≠ .handlesRoute := by
  rcases mem_edges_iff.1 hedge with
    ⟨name, -, rfl⟩ | ⟨name, -, rfl⟩ | ⟨m, -, rfl | ⟨callee, -, rfl⟩⟩ <;> simp

end TypeDeclaration

/-! ### Routes -/

namespace Route

variable {path : String} {route : Route} {edge : RelationEdge}

/-- The edges of a route: to its handler, and to its form bean if it names one. -/
lemma mem_edges_iff :
    edge ∈ route.edges path ↔
      edge = ⟨path, route.handlerTypeName, .handlesRoute⟩ ∨
      ∃ bean ∈ route.name, bean ≠ "" ∧ edge = ⟨path, bean, .usesFormBean⟩ := by
  simp only [edges, List.mem_cons, List.mem_map, List.mem_filter, Option.mem_toList, bne_iff_ne,
    Option.mem_def, and_assoc, eq_comm (a := edge)]

/-- Only the edge to the handler can lead to the empty name, and it does so when no handler type is
given. -/
lemma target_eq_empty_iff_of_mem_edges (hedge : edge ∈ route.edges path) :
    edge.target = "" ↔ edge.kind = .handlesRoute ∧ route.handlerTypeName = "" := by
  rcases mem_edges_iff.1 hedge with rfl | ⟨bean, -, hne, rfl⟩
  · simp
  · simp [hne]

lemma source_of_mem_edges (hedge : edge ∈ route.edges path) : edge.source = path := by
  rcases mem_edges_iff.1 hedge with rfl | ⟨bean, -, -, rfl⟩ <;> rfl

end Route

/-! ### Models -/

namespace Model

variable {model : Model}

/-- The ends of the edges of a model: sources are names, and targets are too except where a route
has no handler type. -/
structure EdgesNamed (model : Model) : Prop where
  source_ne : ∀ edge ∈ model.edges, edge.source ≠ ""
  target_eq_empty_iff : ∀ edge ∈ model.edges,
    (edge.target = "" ↔ edge.kind = .handlesRoute ∧
      ∃ route, model.route? edge.source = some route ∧ route.handlerTypeName = "")

/-- An edge of a model is one of a type or of a route that the model holds. -/
lemma exists_of_mem_edges {edge : RelationEdge} (hedge : edge ∈ model.edges) :
    (∃ q type, (q, type) ∈ model.classes.toList ∧ edge ∈ type.edges) ∨
      ∃ path route, (path, route) ∈ model.routes.toList ∧ edge ∈ route.edges path := by
  rw [edges_eq, List.mem_append, List.mem_flatMap, List.mem_flatMap] at hedge
  rcases hedge with ⟨type, htype, hedge⟩ | ⟨⟨path, route⟩, hroute, hedge⟩
  · obtain ⟨⟨q, type⟩, hmem, rfl⟩ := List.mem_map.1 (List.mem_mergeSort.1 htype)
    exact Or.inl ⟨q, type, hmem, hedge⟩
  · exact Or.inr ⟨path, route, List.mem_mergeSort.1 hroute, hedge⟩

lemma edgesNamed_of_wellFormed (h : model.WellFormed) : model.EdgesNamed := by
  constructor
  case source_ne =>
    intro edge hedge
    rcases exists_of_mem_edges hedge with ⟨q, type, hmem, hedge⟩ | ⟨path, route, hmem, hedge⟩
    · exact ((h.classes q type hmem).2.ends_ne_of_mem_edges hedge).1
    · obtain ⟨hpath, hroute⟩ := h.routes path route hmem
      rw [Route.source_of_mem_edges hedge, ← hpath]
      exact hroute.path_ne
  case target_eq_empty_iff =>
    intro edge hedge
    rcases exists_of_mem_edges hedge with ⟨q, type, hmem, hedge⟩ | ⟨path, route, hmem, hedge⟩
    · -- an edge of a type has a target and does not lead to a handler
      have htarget := ((h.classes q type hmem).2.ends_ne_of_mem_edges hedge).2
      have hkind := TypeDeclaration.kind_ne_handlesRoute_of_mem_edges hedge
      exact ⟨fun hempty => absurd hempty htarget, fun hhandles => absurd hhandles.1 hkind⟩
    · -- the path finds the route that the edge belongs to
      have hfound : model.route? edge.source = some route := by
        rw [Route.source_of_mem_edges hedge]
        exact (Registry.get?_eq_some_iff h.nodup_keys.2.1).2 hmem
      rw [Route.target_eq_empty_iff_of_mem_edges hedge, hfound]
      simp

/-- **Edges have ends.**  After every scan and any changes, every edge of the model starts at a name
that is not empty.  Its target is empty exactly if the edge leads from a route to its handler and
the model holds that route without a handler type. -/
theorem edgesNamed_afterRun (settings : Settings) (tree : FileTree) (root : List String)
    (isCancelled : List String → Bool) (changes : List Change) :
    (afterRun settings tree root isCancelled changes).EdgesNamed :=
  edgesNamed_of_wellFormed <|
    holds_afterRun (wellFormed_scanWith settings tree root isCancelled)
      (fun _ c h => wellFormed_change h c) changes

/-- A tree with a routing document whose only route has no handler type. -/
def handlerlessTree : FileTree :=
  .directory [("struts-config.xml", .file (.ok (Text.utf8 "<a><action path='/p'/></a>".toList)))]

/-- The edge from a route without a handler type leads nowhere. -/
theorem handler_edge_without_target :
    ¬ ∀ (settings : Settings) (tree : FileTree) (root : List String),
      ∀ edge ∈ (scan settings tree root).edges, edge.source ≠ "" ∧ edge.target ≠ "" := by
  intro hclaim
  have hedge : ⟨"/p", "", .handlesRoute⟩ ∈ (scan {} handlerlessTree []).edges := by decide +kernel
  exact (hclaim {} handlerlessTree [] _ hedge).2 rfl

end Model

end Survey
