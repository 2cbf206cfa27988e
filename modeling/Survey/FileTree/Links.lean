/-
# Following links

A path leads to a place of a tree through the links on its way.  The tree is all of a file system: a
path that begins with a slash begins at the top, and the top is the directory around itself.  The
target of any other link is taken from the directory of the link, and a path that runs through more
than forty links is refused.

`locate` finds the place; reading and changing a tree are then done at that place.  Where nothing
stands the rest of the path is the rest of the place, so a file written through a dangling link
stands afterwards where the link points.  A change that cannot be made, because the place cannot
be found or something stands in the way, leaves the tree as it is.
-/
import Survey.Failure
import Survey.FileTree.Basic
import Survey.Text.Blank

namespace Survey.FileTree

/-! ### Places -/

/-- The names in a path.  A slash at the end asks for a directory: it counts as a dot. -/
def namesOf (path : String) : List String :=
  let names := (Text.nonEmpty (Text.cutAt (· == '/') path.toList)).map String.ofList
  if path.toList.getLast? = some '/' then names ++ ["."] else names

/-- Whether a name is a dot, for the directory itself, or two dots, for the one around it. -/
def isDots (name : String) : Bool := name == "." || name == ".."

/-- The most bytes that a name may have. -/
def maxNameSize : Nat := 255

/-- The directory from which the target of a link is followed, for a link in a directory at a place:
the top for a target that begins with a slash. -/
def targetStart (here : List String) (target : String) : List String :=
  if target.toList.head? = some '/' then [] else here

/-- Goes along some names from a directory at a place; a link is left to `jump`. -/
def locateWith (tree : FileTree)
    (jump : List String → List String → Except ReadError (List String)) :
    List String → List String → Except ReadError (List String)
  | here, [] => .ok here
  | here, name :: names =>
    if name = "." then locateWith tree jump here names
    else if name = ".." then locateWith tree jump here.dropLast names
    else if maxNameSize < name.utf8ByteSize then .error .nameTooLong
    else
      match tree.get? (here ++ [name]) with
      | none => .ok (here ++ name :: names)
      | some (file _) => if names = [] then .ok (here ++ [name]) else .error .notADirectory
      | some (directory _) => locateWith tree jump (here ++ [name]) names
      | some (link target) => jump (targetStart here target) (namesOf target ++ names)

/-- Goes along some names from a directory at a place, through at most `links` links. -/
def locateFrom (tree : FileTree) : Nat → List String → List String →
    Except ReadError (List String)
  | 0 => locateWith tree fun _ _ => .error .tooManyLinks
  | links + 1 => locateWith tree (locateFrom tree links)

/-- The most links that a path may run through. -/
def maxLinks : Nat := 40

/-- The place that some names lead to. -/
def locate (tree : FileTree) (names : List String) : Except ReadError (List String) :=
  locateFrom tree maxLinks [] names

/-- The place that some names lead to when the last of them is taken as the entry itself: a link
there is not followed. -/
def locateEntry (tree : FileTree) (names : List String) : Except ReadError (List String) :=
  match names.getLast? with
  | none => .ok []
  | some name =>
    if isDots name then tree.locate names
    else if maxNameSize < name.utf8ByteSize then .error .nameTooLong
    else (tree.locate names.dropLast).map fun place => place ++ [name]

/-! ### Reading -/

/-- What some names lead to. -/
def follow (tree : FileTree) (names : List String) : Except ReadError FileTree := do
  match tree.get? (← tree.locate names) with
  | some found => .ok found
  | none => .error .noSuchFile

/-- The bytes of the file that some names lead to. -/
def read (tree : FileTree) (names : List String) : Except ReadError (List UInt8) := do
  match ← tree.follow names with
  | file content => content.mapError .refused
  | directory _ => .error .isADirectory
  | link _ => .error .tooManyLinks

/-- The entry that some names lead to, which may be a link. -/
def at? (tree : FileTree) (names : List String) : Option FileTree :=
  (tree.locateEntry names).toOption.bind tree.get?

/-! ### Changing a tree -/

/-- Makes a change at a place, if the place was found and what stands there may be changed. -/
def changeAt (tree : FileTree) (place : Except ReadError (List String))
    (mayChange : Option FileTree → Bool) (change : List String → FileTree → FileTree) :
    FileTree :=
  match place with
  | .ok place => if mayChange (tree.get? place) then change place tree else tree
  | .error _ => tree

/-- Makes a directory in a directory, unless there is an entry of that name. -/
def makeEntry (tree : FileTree) (names : List String) : FileTree :=
  tree.changeAt (tree.locateEntry names) (·.isNone) (put empty)

/-- Makes the directories along some names, starting in a directory that some names lead to. -/
def makeDirectories (tree : FileTree) (done : List String) : List String → FileTree
  | [] => tree
  | name :: names =>
    makeDirectories (tree.makeEntry (done ++ [name])) (done ++ [name]) names

/-- Makes a directory, and the directories that lead to it. -/
def makeDirectory (tree : FileTree) (names : List String) : FileTree :=
  tree.makeDirectories [] names

/-- Writes a file, also through a link, and makes the directories that lead to it.  A directory is
not written over. -/
def write (tree : FileTree) (names : List String) (content : List UInt8) : FileTree :=
  let tree := tree.makeDirectory names.dropLast
  tree.changeAt (tree.locate names) (!·.any isDirectory) (put (file (.ok content)))

/-- Puts a link into a directory, unless there is an entry of that name, and makes the directories
that lead to it. -/
def addLink (tree : FileTree) (names : List String) (target : String) : FileTree :=
  let tree := tree.makeDirectory names.dropLast
  tree.changeAt (tree.locateEntry names) (·.isNone) (put (link target))

/-- Takes an entry away; of a link, the link and not what it leads to. -/
def remove (tree : FileTree) (names : List String) : FileTree :=
  tree.changeAt (tree.locateEntry names) (·.isSome) erase

end Survey.FileTree
