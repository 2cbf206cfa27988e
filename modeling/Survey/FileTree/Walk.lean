/-
# Walking a tree

A walk reports the files and links of a tree.  Links are reported and not followed, so a walk is a
recursion on the tree.
-/
import Survey.FileTree.Basic

namespace Survey.FileTree

mutual

/-- The places of the files and links in a tree, in the order of the walk: the entries of every
directory by their names, a directory's content in its place.  Directories with an ignored name
are not entered; the tree itself has no name and is always walked. -/
def places (ignored : List String) : FileTree → List (List String)
  | file _ => [[]]
  | link _ => [[]]
  | directory entries =>
    ((placesInEntries ignored entries).mergeSort fun a b => a.1 ≤ b.1).flatMap (·.2)

/-- The places of the files and links in some entries, under the names of the entries. -/
def placesInEntries (ignored : List String) :
    List (String × FileTree) → List (String × List (List String))
  | [] => []
  | (name, tree) :: rest =>
    if tree.isDirectory && ignored.contains name then placesInEntries ignored rest
    else (name, (places ignored tree).map (name :: ·)) :: placesInEntries ignored rest

end

end Survey.FileTree
