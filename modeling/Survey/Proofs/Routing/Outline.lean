/-
# The outline of a document

A routing is read off the elements of a few names, wherever they stand, and off their attributes without
a qualifier.  The outline of a document keeps just these: every other element gives way to its children,
and text, comments and instructions are left out.  A document declares what its outline declares
(`ofDocument_outline`), and changes that keep the outline (`Edit`) keep the routing.  The outermost element
may be changed like any other, so edits may lead through forests that are no documents.
-/
import Mathlib.Logic.Relation
import Survey.Proofs.Routing.Forwards

namespace Survey

namespace Markup

/-! ### Forests -/

/-- Forests by their first node: an element with a forest in it, or a node with nothing in it. -/
@[elab_as_elim]
lemma forest_induction {P : List Node → Prop} (nil : P [])
    (element : ∀ name attributes children rest, P children → P rest →
      P (.element name attributes children :: rest))
    (other : ∀ node rest, node.isElement = false → P rest → P (node :: rest)) (nodes : List Node) :
    P nodes :=
  @Node.rec_1 (fun node => ∀ rest, P rest → P (node :: rest)) P
    (fun name attributes children hchildren rest => element name attributes children rest hchildren)
    (fun content rest => other (.text content) rest rfl)
    (fun content rest => other (.comment content) rest rfl)
    (fun target content rest => other (.instruction target content) rest rfl)
    nil (fun _ rest hnode => hnode rest) nodes

namespace Node

lemma descendants_of_not_isElement {node : Node} (h : node.isElement = false) :
    node.descendants = [node] := by
  cases node with
  | element name attributes children => simp [isElement] at h
  | text | comment | instruction => rfl

/-- The elements of a name among some nodes, the first of which is an element. -/
lemma filter_descendantsOfAll_element (tag name : String) (attributes : List Attribute)
    (children rest : List Node) :
    (descendantsOfAll (.element name attributes children :: rest)).filter (isNamed tag) =
      [element name attributes children].filter (isNamed tag) ++
        ((descendantsOfAll children).filter (isNamed tag) ++
          (descendantsOfAll rest).filter (isNamed tag)) := by
  rw [descendantsOfAll, descendants, List.cons_append, ← List.singleton_append, List.filter_append,
    List.filter_append]

lemma descendantsOfAll_append (nodes nodes' : List Node) :
    descendantsOfAll (nodes ++ nodes') = descendantsOfAll nodes ++ descendantsOfAll nodes' := by
  induction nodes with
  | nil => rfl
  | cons node nodes ih =>
    rw [List.cons_append, descendantsOfAll, descendantsOfAll, ih, List.append_assoc]

end Node

/-! ### Edits -/

/-- One change of a forest that keeps every element of the given names, in the same order and in the same
elements of these names. -/
inductive Edit (tags : List String) : List Node → List Node → Prop
  /-- An element of another name gives way to its children. -/
  | unwrap {name : String} {attributes : List Attribute} {children : List Node} (rest : List Node) :
      name ∉ tags → Edit tags (.element name attributes children :: rest) (children ++ rest)
  /-- Text, a comment or an instruction is taken out. -/
  | drop {node : Node} (rest : List Node) : node.isElement = false → Edit tags (node :: rest) rest
  /-- The attributes with a qualifier are replaced by others. -/
  | requalify {attributes attributes' : List Attribute} (name : String) (children rest : List Node) :
      attributes.filter (·.space.isNone) = attributes'.filter (·.space.isNone) →
      Edit tags (.element name attributes children :: rest) (.element name attributes' children :: rest)
  /-- The change is made inside of an element. -/
  | inside {children children' : List Node} (name : String) (attributes : List Attribute)
      (rest : List Node) : Edit tags children children' →
      Edit tags (.element name attributes children :: rest) (.element name attributes children' :: rest)
  /-- The change is made behind a node. -/
  | behind {nodes nodes' : List Node} (node : Node) : Edit tags nodes nodes' →
      Edit tags (node :: nodes) (node :: nodes')

/-! ### Outlines -/

section

variable (tags : List String)

mutual

/-- The outline of a node: the node if it is an element of one of the names, with the outline of its
children in it; else that outline alone. -/
def outlineOfNode : Node → List Node
  | .element name attributes children =>
    if name ∈ tags then [.element name (attributes.filter (·.space.isNone)) (outline children)]
    else outline children
  | .text _ => []
  | .comment _ => []
  | .instruction _ _ => []

/-- The outline of some nodes, one after the other. -/
def outline : List Node → List Node
  | [] => []
  | node :: nodes => outlineOfNode node ++ outline nodes

end

/-- An element as it stands in an outline. -/
def Node.outlined : Node → Node
  | .element name attributes children =>
    .element name (attributes.filter (·.space.isNone)) (outline tags children)
  | node => node

variable {tags} {name : String} {attributes : List Attribute} {children : List Node}

lemma outline_cons_of_mem (h : name ∈ tags) (rest : List Node) :
    outline tags (.element name attributes children :: rest) =
      Node.outlined tags (.element name attributes children) :: outline tags rest := by
  rw [outline, outlineOfNode, if_pos h]
  rfl

lemma outline_cons_of_notMem (h : name ∉ tags) (rest : List Node) :
    outline tags (.element name attributes children :: rest) =
      outline tags children ++ outline tags rest := by
  rw [outline, outlineOfNode, if_neg h]

lemma outline_cons_of_not_isElement {node : Node} (h : node.isElement = false) (rest : List Node) :
    outline tags (node :: rest) = outline tags rest := by
  rw [outline]
  cases node with
  | element name attributes children => simp [Node.isElement] at h
  | text | comment | instruction => rfl

lemma outline_append (nodes nodes' : List Node) :
    outline tags (nodes ++ nodes') = outline tags nodes ++ outline tags nodes' := by
  induction nodes with
  | nil => rfl
  | cons node nodes ih => rw [List.cons_append, outline, outline, ih, List.append_assoc]

/-- The elements of a name that counts stand in the outline in the same order. -/
lemma filter_descendantsOfAll_outline {tag : String} (htag : tag ∈ tags) (nodes : List Node) :
    (Node.descendantsOfAll (outline tags nodes)).filter (Node.isNamed tag) =
      ((Node.descendantsOfAll nodes).filter (Node.isNamed tag)).map (Node.outlined tags) := by
  induction nodes using forest_induction with
  | nil => rfl
  | other node rest hnode ih =>
    have hnamed : node.isNamed tag = false := by
      cases node with
      | element name attributes children => simp [Node.isElement] at hnode
      | text | comment | instruction => rfl
    rw [outline_cons_of_not_isElement hnode, ih, Node.descendantsOfAll,
      Node.descendants_of_not_isElement hnode, List.singleton_append, List.filter_cons, hnamed]
    rfl
  | element name attributes children rest ihChildren ihRest =>
    rw [Node.filter_descendantsOfAll_element]
    by_cases hname : name ∈ tags
    · have hself : [Node.outlined tags (.element name attributes children)].filter (Node.isNamed tag) =
          ([Node.element name attributes children].filter (Node.isNamed tag)).map
            (Node.outlined tags) := by
        by_cases heq : name = tag <;> simp [Node.outlined, Node.isNamed, heq]
      rw [outline_cons_of_mem hname, List.map_append, List.map_append, ← ihChildren, ← ihRest,
        ← hself]
      exact Node.filter_descendantsOfAll_element tag name _ _ _
    · have hne : name ≠ tag := fun heq => hname (heq ▸ htag)
      have hself : [Node.element name attributes children].filter (Node.isNamed tag) = [] := by
        simp [Node.isNamed, hne]
      rw [outline_cons_of_notMem hname, Node.descendantsOfAll_append, List.filter_append, ihChildren,
        ihRest, hself, List.nil_append, List.map_append]

/-- An edit keeps the outline. -/
lemma Edit.outline_eq {nodes nodes' : List Node} (h : Edit tags nodes nodes') :
    outline tags nodes = outline tags nodes' := by
  induction h with
  | unwrap rest hname => rw [outline_cons_of_notMem hname, outline_append]
  | drop rest hnode => exact outline_cons_of_not_isElement hnode rest
  | requalify name children rest hplain =>
    rw [outline, outline, outlineOfNode, outlineOfNode, hplain]
  | inside name attributes rest _ ih =>
    rw [outline, outline, outlineOfNode, outlineOfNode, ih]
  | behind node _ ih => rw [outline, outline, ih]

/-- So do any edits and their inverses, one after the other. -/
lemma outline_eq_of_edits {nodes nodes' : List Node} (h : Relation.EqvGen (Edit tags) nodes nodes') :
    outline tags nodes = outline tags nodes' := by
  induction h with
  | rel nodes nodes' h => exact h.outline_eq
  | refl nodes => rfl
  | symm nodes nodes' _ ih => exact ih.symm
  | trans nodes middle nodes' _ _ ih ih' => exact ih.trans ih'

/-! ### What is read of an element in an outline -/

/-- A node that stays in an outline. -/
def Node.Counts (tags : List String) (node : Node) : Prop := ∃ tag ∈ tags, node.isNamed tag = true

lemma counts_of_mem_elementsNamed {tag : String} (htag : tag ∈ tags) {document : Document}
    {node : Node} (h : node ∈ document.elementsNamed tag) : node.Counts tags :=
  ⟨tag, htag, (List.mem_filter.1 h).2⟩

lemma elementsNamed_outline {tag : String} (htag : tag ∈ tags) (document : Document) :
    (Document.mk (outline tags document.nodes)).elementsNamed tag =
      (document.elementsNamed tag).map (Node.outlined tags) :=
  filter_descendantsOfAll_outline htag document.nodes

namespace Node

lemma elementsNamed_eq (tag : String) (node : Node) :
    node.elementsNamed tag = (descendantsOfAll [node]).filter (isNamed tag) := by
  rw [descendantsOfAll, descendantsOfAll, List.append_nil, elementsNamed]

lemma Counts.outline_singleton {node : Node} (h : node.Counts tags) :
    outline tags [node] = [node.outlined tags] := by
  obtain ⟨tag, htag, hnamed⟩ := h
  cases node with
  | element name attributes children =>
    obtain rfl : name = tag := by simpa [isNamed] using hnamed
    exact outline_cons_of_mem htag []
  | text | comment | instruction => simp [isNamed] at hnamed

/-- What counts inside of an element stands in its outline in the same order. -/
lemma Counts.elementsNamed_outlined {node : Node} (h : node.Counts tags) {tag : String}
    (htag : tag ∈ tags) :
    (node.outlined tags).elementsNamed tag = (node.elementsNamed tag).map (outlined tags) := by
  rw [elementsNamed_eq, elementsNamed_eq, ← h.outline_singleton,
    filter_descendantsOfAll_outline htag]

@[simp] lemma attribute?_outlined (name : String) (node : Node) :
    (node.outlined tags).attribute? name = node.attribute? name := by
  cases node with
  | element own attributes children =>
    rw [outlined, attribute?, attribute?, List.find?_filter]
    congr 2
    funext a
    rw [Bool.eq_iff_iff]
    simp
  | text | comment | instruction => rfl

end Node

end

end Markup

open Markup

/-! ### Routings -/

/-- The names of the elements that a routing is read off. -/
def routingTags : List String :=
  ["action-mapping", "action", "form-bean", "form-property", "global-forwards", "forward"]

section

variable {node : Node}

@[simp] lemma filledAttribute?_outlined (name : String) (node : Node) :
    filledAttribute? name (node.outlined routingTags) = filledAttribute? name node := by
  rw [filledAttribute?, Node.attribute?_outlined, filledAttribute?]

lemma forwardPairs_outlined (h : node.Counts routingTags) :
    forwardPairs (node.outlined routingTags) = forwardPairs node := by
  have hpair (forward : Node) :
      forwardPair? (forward.outlined routingTags) = forwardPair? forward := by
    simp only [forwardPair?, filledAttribute?_outlined]
  rw [forwardPairs, h.elementsNamed_outlined (by decide), List.filterMap_map]
  exact List.filterMap_congr fun forward _ => hpair forward

lemma Route.ofNode?_outlined (h : node.Counts routingTags) :
    ofNode? (node.outlined routingTags) = ofNode? node := by
  simp only [ofNode?, filledAttribute?_outlined, Node.attribute?_outlined, forwardPairs_outlined h]

lemma FormBean.ofNode?_outlined (h : node.Counts routingTags) :
    ofNode? (node.outlined routingTags) = ofNode? node := by
  have hproperties : ((node.outlined routingTags).elementsNamed "form-property").filterMap
      (filledAttribute? "name") =
        (node.elementsNamed "form-property").filterMap (filledAttribute? "name") := by
    rw [h.elementsNamed_outlined (by decide), List.filterMap_map]
    exact List.filterMap_congr fun property _ => filledAttribute?_outlined "name" property
  simp only [ofNode?, filledAttribute?_outlined, hproperties]

end

section

variable (document : Document)

lemma routeNodes_outline :
    routeNodes ⟨outline routingTags document.nodes⟩ =
      (routeNodes document).map (Node.outlined routingTags) := by
  have htags : routeTags.map (fun tag =>
      (Document.mk (outline routingTags document.nodes)).elementsNamed tag) =
        (routeTags.map fun tag => document.elementsNamed tag).map
          (List.map (Node.outlined routingTags)) := by
    rw [List.map_map]
    refine List.map_congr_left fun tag htag => elementsNamed_outline ?_ document
    simp only [routeTags, List.mem_cons, List.not_mem_nil, or_false] at htag
    rcases htag with rfl | rfl <;> decide
  rw [routeNodes, routeNodes, htags, List.find?_map]
  simp only [Function.comp_def, List.isEmpty_map]
  cases (routeTags.map fun tag => document.elementsNamed tag).find? (!·.isEmpty) <;> rfl

lemma counts_of_mem_routeNodes {node : Node} (h : node ∈ routeNodes document) :
    node.Counts routingTags := by
  rw [routeNodes] at h
  cases hfind : (routeTags.map fun tag => document.elementsNamed tag).find? (!·.isEmpty) with
  | none => simp [hfind] at h
  | some nodes =>
    rw [hfind, Option.getD_some] at h
    obtain ⟨tag, htag, rfl⟩ := List.mem_map.1 (List.mem_of_find?_eq_some hfind)
    refine counts_of_mem_elementsNamed ?_ h
    simp only [routeTags, List.mem_cons, List.not_mem_nil, or_false] at htag
    rcases htag with rfl | rfl <;> decide

lemma sharedForwards_outline :
    sharedForwards ⟨outline routingTags document.nodes⟩ = sharedForwards document := by
  have hpairs : sharedForwardPairs ⟨outline routingTags document.nodes⟩ =
      sharedForwardPairs document := by
    rw [sharedForwardPairs_eq, sharedForwardPairs_eq, elementsNamed_outline (by decide),
      List.flatMap_map]
    exact List.flatMap_congr fun node hnode =>
      forwardPairs_outlined (counts_of_mem_elementsNamed (by decide) hnode)
  rw [(filledWith_sharedForwards _).eq_ofPairs, hpairs,
    ← (filledWith_sharedForwards document).eq_ofPairs]

/-- **A document declares what its outline declares.** -/
theorem Routing.ofDocument_outline :
    ofDocument ⟨outline routingTags document.nodes⟩ = ofDocument document := by
  have hroutes : (routeNodes ⟨outline routingTags document.nodes⟩).filterMap Route.ofNode? =
      (routeNodes document).filterMap Route.ofNode? := by
    rw [routeNodes_outline, List.filterMap_map]
    exact List.filterMap_congr fun node hnode =>
      Route.ofNode?_outlined (counts_of_mem_routeNodes document hnode)
  have hbeans : ((Document.mk (outline routingTags document.nodes)).elementsNamed
      "form-bean").filterMap FormBean.ofNode? =
        (document.elementsNamed "form-bean").filterMap FormBean.ofNode? := by
    rw [elementsNamed_outline (by decide), List.filterMap_map]
    exact List.filterMap_congr fun node hnode =>
      FormBean.ofNode?_outlined (counts_of_mem_elementsNamed (by decide) hnode)
  rw [ofDocument, hroutes, hbeans, sharedForwards_outline, ofDocument]

end

/-- **A routing is kept by edits around what it is read off.**  Take the document of a source and change
it any number of times, at the top or at any depth: replace an element of none of the names that count by
its children, in their order and in its place, or the other way round; take out or put in text, comments
and instructions; change attributes with a qualifier.  What comes out declares the same routes, form beans
and global forwards, in the same order, and so does every source that writes it. -/
theorem Routing.parse_eq_of_edits {source path : String} {document document' : Document}
    (hparse : Document.parse? source.toList = some document)
    (hedits : Relation.EqvGen (Edit routingTags) document.nodes document'.nodes) :
    parse source path = .ok (ofDocument document') ∧
      ∀ source', Document.parse? source'.toList = some document' →
        parse source' path = parse source path := by
  have hsame : ofDocument document = ofDocument document' := by
    rw [← ofDocument_outline document, outline_eq_of_edits hedits, ofDocument_outline]
  have hsource : parse source path = .ok (ofDocument document') := by
    rw [parse, hparse]
    exact congrArg Except.ok hsame
  refine ⟨hsource, fun source' hparse' => ?_⟩
  rw [hsource, parse, hparse']

/-- A document with a route in an element of another name, and a comment and another element around the
forward of the route. -/
def wrappedRoute : Document :=
  ⟨[.element "a" [] [.element "b" [] [.element "action" [⟨none, "path", "/p"⟩]
    [.comment "c", .element "d" [] [.element "forward"
      [⟨none, "name", "n"⟩, ⟨none, "path", "/q"⟩] []]]]]]⟩

/-- The same route with its forward alone. -/
def bareRoute : Document :=
  ⟨[.element "a" [] [.element "action" [⟨none, "path", "/p"⟩] [.element "forward"
    [⟨none, "name", "n"⟩, ⟨none, "path", "/q"⟩] []]]]⟩

/-- A source that writes the first of them. -/
def wrappedRouteText : String :=
  "<a><b><action path='/p'><!--c--><d><forward name='n' path='/q'/></d></action></b></a>"

/-- A source that writes the second of them. -/
def bareRouteText : String := "<a><action path='/p'><forward name='n' path='/q'/></action></a>"

theorem Routing.parse_wrappedRoute :
    Document.parse? wrappedRouteText.toList = some wrappedRoute ∧
      Relation.EqvGen (Edit routingTags) wrappedRoute.nodes bareRoute.nodes ∧
      Document.parse? bareRouteText.toList = some bareRoute ∧
      parse wrappedRouteText "struts-config.xml" = .ok (ofDocument bareRoute) ∧
      parse bareRouteText "struts-config.xml" = parse wrappedRouteText "struts-config.xml" := by
  have hwrapped : Document.parse? wrappedRouteText.toList = some wrappedRoute := by rfl
  have hbare : Document.parse? bareRouteText.toList = some bareRoute := by rfl
  have hedits : Relation.EqvGen (Edit routingTags) wrappedRoute.nodes bareRoute.nodes := by
    have hb : "b" ∉ routingTags := by decide
    have hd : "d" ∉ routingTags := by decide
    refine .trans _ _ _ (.rel _ _ (.inside "a" [] [] (.unwrap [] hb))) ?_
    refine .trans _ _ _ (.rel _ _ (.inside "a" [] [] (.inside "action" _ [] (.drop _ rfl)))) ?_
    exact .rel _ _ (.inside "a" [] [] (.inside "action" _ [] (.unwrap [] hd)))
  obtain ⟨hsource, hother⟩ :=
    @parse_eq_of_edits wrappedRouteText "struts-config.xml" wrappedRoute bareRoute hwrapped hedits
  exact ⟨hwrapped, hedits, hbare, hsource, hother bareRouteText hbare⟩

end Survey
