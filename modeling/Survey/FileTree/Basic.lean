/-
# File trees

A file tree is a file with its bytes, a symbolic link with its target, or a directory with named
entries.  A file that is not given out has, in place of its bytes, what the system states then.  A
place in a tree is given by the names of the entries that lead to it from the top; no link is
followed on the way.
-/

namespace Survey

/-- A file, a link or a directory. -/
inductive FileTree where
  /-- A file with its bytes, or with what the system states when it does not give them. -/
  | file (content : Except String (List UInt8))
  /-- A symbolic link with its target. -/
  | link (target : String)
  /-- A directory with its entries. -/
  | directory (entries : List (String × FileTree))

namespace FileTree

/-- The tree with nothing in it. -/
def empty : FileTree := directory []

/-- Whether a tree is a directory. -/
def isDirectory : FileTree → Bool
  | directory _ => true
  | _ => false

/-- The entries of a tree; a file and a link have none. -/
def entries : FileTree → List (String × FileTree)
  | directory entries => entries
  | _ => []

/-- The entry with a name. -/
def entry? (tree : FileTree) (name : String) : Option FileTree := tree.entries.lookup name

/-- What stands at a place. -/
def get? : FileTree → List String → Option FileTree
  | tree, [] => some tree
  | tree, name :: names => (tree.entry? name).bind (get? · names)

/-! ### Changing what stands at a place -/

/-- Some entries with the entry of one name replaced, or added when there is none. -/
def setEntry (name : String) (tree : FileTree) :
    List (String × FileTree) → List (String × FileTree)
  | [] => [(name, tree)]
  | (n, t) :: rest => if n = name then (name, tree) :: rest else (n, t) :: setEntry name tree rest

/-- Puts a tree at a place.  The directory of the place must be there; otherwise nothing changes. -/
def put (new : FileTree) : List String → FileTree → FileTree
  | [name], directory entries => directory (setEntry name new entries)
  | name :: names, directory entries =>
    directory (entries.map fun (n, t) => if n = name then (n, put new names t) else (n, t))
  | _, tree => tree

/-- Takes away what stands at a place, and everything at the top. -/
def erase : List String → FileTree → FileTree
  | [], _ => empty
  | [name], directory entries => directory (entries.filter (·.1 != name))
  | name :: names, directory entries =>
    directory (entries.map fun (n, t) => if n = name then (n, erase names t) else (n, t))
  | _, tree => tree

end FileTree

end Survey
