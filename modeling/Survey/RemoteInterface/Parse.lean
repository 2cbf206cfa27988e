/-
# Reading interface definitions

The logical lines of a document are read one after the other.  Outside an interface, a line can
name a module, open an interface, or be passed over; a line that only announces an interface is
passed over too.  Inside an interface every line is a member until a line starts with a closing
brace.  An interface that is still open at the end keeps the members read so far.

A document is malformed only when no interface was found in it and it does not open and close the
same number of blocks.
-/
import Survey.Failure
import Survey.Pattern.Search
import Survey.RemoteInterface.Basic
import Survey.RemoteInterface.LogicalLines
import Survey.Text.Substring

namespace Survey

open Survey.Text

/-! ### Shapes of lines -/

namespace RemoteShape

open Survey.Pattern

/-- Whether a character may stand in a word of a type. -/
def isTypeChar (c : Char) : Bool := isWordChar c || c == ':' || c == '<' || c == '>'

/-- Whether a character may stand in a list of inherited interfaces. -/
def isInheritanceChar (c : Char) : Bool := isWordChar c || isBlank c || c == ',' || c == ':'

/-- A line that names a module; group 1 is the name. -/
def moduleLine : Pattern := textStart ++ lit "module" ++ blanks ++ group 1 name

/-- A line that opens or announces an interface; group 1 is the name, group 2 lists the inherited
interfaces. -/
def interfaceLine : Pattern :=
  textStart ++ optional (either (lit "abstract" ++ blanks) (lit "local" ++ blanks)) ++
  lit "interface" ++ blanks ++ group 1 name ++
  optional (anyBlanks ++ lit ":" ++ run Text.isBlank 0 ++ group 2 (all isInheritanceChar 1))

/-- An operation: group 1 is the last word of the return type, group 2 the name, group 3 the
parameter list. -/
def operationLine : Pattern :=
  group 1 (all isTypeChar 1) ++ blanks ++ group 2 name ++ anyBlanks ++
  lit "(" ++ group 3 (allBefore ')' 0) ++ lit ")"

/-- An attribute: group 1 takes part when it can only be read, group 2 is the type, group 3 the
name. -/
def attributeLine : Pattern :=
  wordBoundary ++ optional (group 1 (lit "readonly" ++ blanks)) ++ lit "attribute" ++ blanks ++
  group 2 (all isTypeChar 1 ++ rounds (blanks ++ all isTypeChar 1) .fewest) ++
  blanks ++ group 3 name ++ anyBlanks ++ either (lit ";") textEnd

end RemoteShape

namespace RemoteInterface

/-! ### Members -/

/-- The operation that a line declares, if it declares one. -/
def operation? (line : List Char) : Option RemoteOperation :=
  (RemoteShape.operationLine.find? line).map fun m =>
    { name := String.ofList (m.groupText 2)
      returnType := String.ofList (m.groupText 1)
      rawParameterList := String.ofList (trim (m.groupText 3)) }

/-- The attribute that a line declares, if it declares one. -/
def attribute? (line : List Char) : Option RemoteAttribute :=
  (RemoteShape.attributeLine.find? line).map fun m =>
    { name := String.ofList (m.groupText 3)
      type := String.ofList (m.groupText 2)
      readonly := (m.group? 1).isSome }

/-- Adds the member that a line declares.  A line with both parentheses can only declare an
operation. -/
def addMember (i : RemoteInterface) (line : List Char) : RemoteInterface :=
  if line.contains '(' && line.contains ')' then
    { i with operations := i.operations ++ (operation? line).toList }
  else if contains "attribute".toList line then
    { i with attributes := i.attributes ++ (attribute? line).toList }
  else i

/-- The interface that a line opens in a module, without members yet; none when the line only
announces one. -/
def opened? (module : String) (line : List Char) : Option RemoteInterface :=
  match RemoteShape.interfaceLine.find? line with
  | some m =>
    if line.getLast? = some ';' then none
    else
      some {
        name := String.ofList (m.groupText 1)
        module
        operations := []
        attributes := []
        inheritedNames :=
          (nonEmpty ((cutAt (· == ',') (m.groupText 2)).map trim)).map String.ofList }
  | none => none

/-! ### Documents -/

/-- What has been read of a document. -/
structure Reading where
  /-- The module named last. -/
  module : String
  /-- The interface whose members are being read, if one is open. -/
  current : Option RemoteInterface
  /-- The finished interfaces in textual order. -/
  finished : List RemoteInterface
deriving DecidableEq, Repr

namespace Reading

/-- The state before the first line. -/
def start : Reading := ⟨"", none, []⟩

/-- Reads one line. -/
def read (r : Reading) (line : List Char) : Reading :=
  match r.current with
  | some i =>
    if line.head? = some '}' then { r with current := none, finished := r.finished ++ [i] }
    else { r with current := some (i.addMember line) }
  | none =>
    match RemoteShape.moduleLine.find? line with
    | some m => { r with module := String.ofList (m.groupText 1) }
    | none => { r with current := opened? r.module line }

/-- The interfaces read so far, the open one included. -/
def interfaces (r : Reading) : List RemoteInterface := r.finished ++ r.current.toList

end Reading

/-- The interfaces that some logical lines declare. -/
def ofLines (lines : List (List Char)) : List RemoteInterface :=
  (lines.foldl Reading.read Reading.start).interfaces

/-- The number of occurrences of a character in some lines. -/
def countIn (c : Char) (lines : List (List Char)) : Nat := lines.flatten.count c

/-- The interfaces of a document. -/
def parse (document path : String) : Except Failure (List RemoteInterface) :=
  let lines := logicalLines document.toList
  let interfaces := ofLines lines
  let opened := countIn '{' lines
  let closed := countIn '}' lines
  if interfaces.isEmpty ∧ opened ≠ closed then
    .error ⟨path, .unbalancedBlocks opened closed⟩
  else .ok interfaces

/-- The interfaces of a document; none when it is malformed. -/
def parseOrEmpty (document path : String) : List RemoteInterface :=
  match parse document path with
  | .ok interfaces => interfaces
  | .error _ => []

end RemoteInterface

end Survey
