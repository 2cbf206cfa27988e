/-
# Paths

A path is a text whose parts are divided by slashes.  Two paths lead to the same place when their
components agree: empty parts and single dots do not count, except a slash at the very start,
which is the root, and a dot at the very start, which is the current directory.

The part of a path below another keeps its own spelling; only empty parts and dots at its ends are
taken away.
-/
import Survey.Text.Blank

namespace Survey.Path

open Survey.Text

/-- A component of a path. -/
inductive Component where
  /-- The root. -/
  | root
  /-- The current directory, at the start of a path. -/
  | current
  /-- The directory above. -/
  | parent
  /-- A name. -/
  | name (chars : List Char)
deriving DecidableEq, Repr

/-- The pieces of a path between its slashes. -/
def pieces (path : List Char) : List (List Char) := cutAt (· == '/') path

/-- The text of some pieces with slashes between them. -/
def join (pieces : List (List Char)) : List Char := List.intercalate ['/'] pieces

/-- The component that a piece writes; an empty piece and a dot write none. -/
def component? (piece : List Char) : Option Component :=
  if piece = [] ∨ piece = ['.'] then none
  else if piece = ['.', '.'] then some .parent
  else some (.name piece)

/-- The component that only the start of a path can write. -/
def leading? : List (List Char) → Option Component
  | [] :: _ :: _ => some .root
  | ['.'] :: _ => some .current
  | _ => none

/-- The components of a path. -/
def components (path : List Char) : List Component :=
  (leading? (pieces path)).toList ++ (pieces path).filterMap component?

/-! ### Names and extensions -/

/-- The name at the end of a path, if it ends in one. -/
def fileName? (path : List Char) : Option (List Char) :=
  match (components path).getLast? with
  | some (.name chars) => some chars
  | _ => none

/-- What follows the last dot of a name; a dot at the start of a name does not count. -/
def extension? (name : List Char) : Option (List Char) :=
  let ending := name.reverse.takeWhile (· != '.')
  if ending.length + 1 < name.length then some ending.reverse else none

/-! ### Paths below others -/

/-- Some pieces without the first `count` that write a component. -/
def dropComponents : Nat → List (List Char) → List (List Char)
  | 0, pieces => pieces
  | _ + 1, [] => []
  | count + 1, piece :: pieces =>
    if (component? piece).isSome then dropComponents count pieces
    else dropComponents (count + 1) pieces

/-- Some pieces without those at the end that write no component. -/
def trimPiecesEnd (pieces : List (List Char)) : List (List Char) :=
  (pieces.reverse.dropWhile fun piece => (component? piece).isNone).reverse

/-- Some pieces without those at the two ends that write no component. -/
def trimPieces (pieces : List (List Char)) : List (List Char) :=
  trimPiecesEnd (pieces.dropWhile fun piece => (component? piece).isNone)

/-- A path without the pieces at its end that write no component. -/
def trimPath (path : List Char) : List Char :=
  match leading? (pieces path) with
  | some .root => '/' :: join (trimPiecesEnd (pieces path).tail)
  | some _ => join (['.'] :: trimPiecesEnd (pieces path).tail)
  | none => join (trimPiecesEnd (pieces path))

/-- The part of a path behind its first components, one or more of them. -/
def behind (count : Nat) (path : List Char) : List Char :=
  let below :=
    match leading? (pieces path) with
    | some _ => dropComponents (count - 1) (pieces path).tail
    | none => dropComponents count (pieces path)
  join (trimPieces below)

/-- The part of a path below a base, if it lies there. -/
def below? (base path : List Char) : Option (List Char) :=
  if (components base).isPrefixOf (components path) then
    match (components base).length with
    | 0 => some (trimPath path)
    | count + 1 => some (behind (count + 1) path)
  else none

/-- A text with every backslash turned into a slash. -/
def withSlashes (text : List Char) : List Char := text.map fun c => if c = '\\' then '/' else c

/-- The part of a path below a base, with slashes only; the whole path when it does not lie
there. -/
def relative (base path : List Char) : List Char := withSlashes ((below? base path).getD path)

end Survey.Path
