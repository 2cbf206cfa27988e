/-
# References

A reference stands for a character, by its number or by one of five names, or for an entity, whose
replacement text was declared in the document.  A replacement text may refer to entities again.
Two limits keep this finite: entities are nested at most ten deep, and one outermost reference
leads to at most 255 others.

In the value of an attribute every tab and every line break becomes a space.  A character that is
given by its number stands for itself, but inside a replacement text it is treated like a written
one, and `<` is refused there.
-/
import Survey.Markup.Name
import Survey.Text.Utf8

namespace Survey.Markup

open Survey.Text

/-- The declared entities with their replacement texts, in the order of their declarations. -/
abbrev Entities : Type := List (List Char × List Char)

/-- The replacement text of an entity; the first declaration of a name counts. -/
def Entities.get? (entities : Entities) (name : List Char) : Option (List Char) :=
  (entities.find? fun entity => entity.1 == name).map (·.2)

/-- A piece of a text with references. -/
inductive Chunk where
  /-- A character as written. -/
  | written (c : Char)
  /-- A reference to a character. -/
  | character (c : Char)
  /-- A reference to an entity. -/
  | entity (name : List Char)
deriving DecidableEq, Repr

/-! ### Reading references -/

/-- The value of a decimal or hexadecimal digit. -/
def digitValue (c : Char) : Nat :=
  if isDigit c then c.toNat - 48 else if 'a' ≤ c then c.toNat - 87 else c.toNat - 55

/-- Whether a character is a hexadecimal digit. -/
def isHexDigit (c : Char) : Bool :=
  isDigit c || ('a' ≤ c && c ≤ 'f') || ('A' ≤ c && c ≤ 'F')

/-- The number that some digits write. -/
def numberOf (base : Nat) (digits : List Char) : Nat :=
  digits.foldl (fun n c => n * base + digitValue c) 0

/-- The character with a number: the replacement character when the number has none, and no
character at all when there are no digits, the number has more than 32 bits, or the character is
not allowed. -/
def numberedChar? (base : Nat) (digits : List Char) : Option Char :=
  let n := numberOf base digits
  if digits.isEmpty || 0x100000000 ≤ n then none
  else
    let c := if n.isValidChar then Char.ofNat n else replacementChar
    if isAllowed c then some c else none

/-- The character with one of the five predefined names. -/
def predefined? (name : List Char) : Option Char :=
  [("amp", '&'), ("lt", '<'), ("gt", '>'), ("quot", '\x22'), ("apos", '\x27')].lookup
    (String.ofList name)

/-- Reads what stands behind `&`, up to the semicolon. -/
def reference? (text : List Char) : Option (Chunk × List Char) :=
  match text with
  | '#' :: 'x' :: rest =>
    (numberedChar? 16 (rest.takeWhile isHexDigit)).bind fun c =>
      (word? [';'] (rest.dropWhile isHexDigit)).map fun rest => (.character c, rest)
  | '#' :: rest =>
    (numberedChar? 10 (rest.takeWhile isDigit)).bind fun c =>
      (word? [';'] (rest.dropWhile isDigit)).map fun rest => (.character c, rest)
  | _ =>
    (name? text).bind fun (name, rest) =>
      (word? [';'] rest).map fun rest =>
        match predefined? name with
        | some c => (.character c, rest)
        | none => (.entity name, rest)

/-- The pieces of a text, at most `bound` of them. -/
def chunksUpTo? : Nat → List Char → Option (List Chunk)
  | _, [] => some []
  | 0, _ => none
  | bound + 1, c :: rest =>
    if c = '&' then
      (reference? rest).bind fun (chunk, rest) => (chunksUpTo? bound rest).map (chunk :: ·)
    else (chunksUpTo? bound rest).map (.written c :: ·)

/-- The pieces of a text; none when a reference in it is malformed. -/
def chunks? (text : List Char) : Option (List Chunk) := chunksUpTo? text.length text

/-! ### Limits -/

/-- How deep entities may be nested. -/
def maxDepth : Nat := 10

/-- How many references one outermost reference may lead to. -/
def maxReferences : Nat := 255

/-- Whether a text with some room for nesting left is no replacement text. -/
def isOutermost (room : Nat) : Bool := room == maxDepth

/-- Counts a reference to an entity, made in a text with some room left; an outermost one is not
counted. -/
def countReference? (room count : Nat) : Option Nat :=
  if isOutermost room then some count
  else if count = maxReferences then none
  else some (count + 1)

/-- The count behind a reference that was made in a text with some room left. -/
def countAfter (room count : Nat) : Nat := if isOutermost room then 0 else count

/-! ### Values of attributes -/

/-- A character as it stands in the value of an attribute. -/
def valueChar (c : Char) : Char := if c = '\n' ∨ c = '\r' ∨ c = '\t' then ' ' else c

/-- The value that some pieces write; entities are expanded by `nested`, and the number of
references is passed on. -/
def valueWith? (entities : Entities) (room : Nat)
    (nested : List Char → Nat → Option (List Char × Nat)) :
    List Chunk → Nat → Option (List Char × Nat)
  | [], count => some ([], count)
  | .written c :: rest, count =>
    if c = '\r' ∧ rest.head? = some (.written '\n') then
      valueWith? entities room nested rest count
    else (valueWith? entities room nested rest count).map fun (v, n) => (valueChar c :: v, n)
  | .character c :: rest, count =>
    if isOutermost room then
      (valueWith? entities room nested rest count).map fun (v, n) => (c :: v, n)
    else if c = '<' then none
    else (valueWith? entities room nested rest count).map fun (v, n) => (valueChar c :: v, n)
  | .entity name :: rest, count => do
    let replacement ← entities.get? name
    let count ← countReference? room count
    let (inner, count) ← nested replacement count
    let (outer, count) ← valueWith? entities room nested rest (countAfter room count)
    return (inner ++ outer, count)

/-- The value that a text writes, with some room left for nesting. -/
def value? (entities : Entities) : Nat → List Char → Nat → Option (List Char × Nat)
  | 0, text, count =>
    (chunks? text).bind fun chunks => valueWith? entities 0 (fun _ _ => none) chunks count
  | room + 1, text, count =>
    (chunks? text).bind fun chunks =>
      valueWith? entities (room + 1) (value? entities room) chunks count

end Survey.Markup
