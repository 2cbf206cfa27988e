/-
# Reading content

The content of an element is read piece by piece: characters, comments, character data,
instructions and tags.  A reference to an entity in it is replaced by the content that the entity
writes, so elements in a replacement text are elements of the document.  Reading stops behind the
closing tag that belongs to no element opened in the same text; what is left goes back to the
caller.  A replacement text must open an element before it may close one.

Every piece takes at least one character, so the length of the text bounds the number of pieces;
the room for nested entities bounds the nesting.
-/
import Survey.Markup.Builder
import Survey.Markup.Reference

namespace Survey.Markup

/-! ### Pieces -/

/-- Whether two dashes stand side by side, or a dash stands at the end. -/
def hasStrayDash : List Char → Bool
  | ['-'] => true
  | '-' :: '-' :: _ => true
  | _ :: rest => hasStrayDash rest
  | [] => false

/-- Reads a comment behind `<!--`. -/
def comment? (b : Builder) (text : List Char) : Option (List Char × Builder) := do
  let (content, rest) ← readUntil? (startsWith "-->") text
  let rest ← word? "-->".toList rest
  if hasStrayDash content then none else some (rest, b.add (.comment (String.ofList content)))

/-- Reads an instruction behind `<?`.  The declaration of a document is none. -/
def instruction? (b : Builder) (text : List Char) : Option (List Char × Builder) := do
  if startsWith "xml " text then none
  else
    let (target, rest) ← name? text
    let (content, rest) ← readUntil? (startsWith "?>") (skipSpaces rest)
    let rest ← word? "?>".toList rest
    some (rest, b.add (.instruction (String.ofList target) (String.ofList content)))

/-- Reads character data behind `<![CDATA[`. -/
def characterData? (b : Builder) (text : List Char) : Option (List Char × Builder) := do
  let (content, rest) ← readUntil? (startsWith "]]>") text
  let rest ← word? "]]>".toList rest
  some (rest, b.addText content)

/-- Whether a text holds the end of character data. -/
def holdsDataEnd : List Char → Bool
  | [] => false
  | c :: rest => startsWith "]]>" (c :: rest) || holdsDataEnd rest

/-- Reads characters up to the next tag. -/
def characters? (text : List Char) : Option (List Char × List Char) := do
  let (content, rest) ← readUntil? (startsWith "<") text
  if holdsDataEnd content then none else some (content, rest)

/-! ### Tags -/

/-- Reads a name, an equals sign and a quoted value. -/
def nameAndValue? (text : List Char) : Option (QualifiedName × List Char × List Char) := do
  let (name, rest) ← qualifiedName? text
  let rest ← word? ['='] (skipSpaces rest)
  let (quote, rest) ← quote? (skipSpaces rest)
  let (value, rest) ← readUntil? (fun r => r.head? == some quote || r.head? == some '<') rest
  let rest ← word? [quote] rest
  some (name, value, rest)

/-- How a tag ends. -/
inductive TagEnd where
  /-- The tag opens an element. -/
  | opening
  /-- The tag is a whole element. -/
  | whole
  /-- The text ends before the tag does. -/
  | cut
deriving DecidableEq, Repr

/-- Reads at most `bound` attributes and the end of a tag. -/
def attributes? (entities : Entities) (room : Nat) :
    Nat → Builder → List Char → Option (TagEnd × List Char × Builder)
  | _, b, [] => some (.cut, [], b)
  | 0, _, _ => none
  | bound + 1, b, c :: text =>
    match skipSpaces (c :: text) with
    | [] => none
    | '/' :: rest => (word? ['>'] rest).map fun rest => (.whole, rest, b)
    | '>' :: rest => some (.opening, rest, b)
    | rest =>
      if isSpace c then do
        let (name, written, rest) ← nameAndValue? rest
        let (value, references) ← value? entities room written b.references
        let b ← { b with references }.addAttribute? name value
        attributes? entities room bound b rest
      else none

/-- Reads a tag that begins an element, behind `<`.  A tag that the text cuts off begins none, and
its attributes wait for the next tag. -/
def startTag? (entities : Entities) (room : Nat) (b : Builder) (text : List Char) :
    Option (TagEnd × List Char × Builder) := do
  let (name, rest) ← qualifiedName? text
  if name.qualifier = "xmlns".toList then none
  else
    let (tagEnd, rest, b) ← attributes? entities room (rest.length + 1) b rest
    match tagEnd with
    | .opening => (b.openElement? name).map fun b => (.opening, rest, b)
    | .whole => (b.addEmptyElement? name).map fun b => (.whole, rest, b)
    | .cut => some (.cut, rest, b)

/-- Reads a tag that closes an element, behind `</`. -/
def endTag? (b : Builder) (text : List Char) : Option (List Char × Builder) := do
  let (name, rest) ← qualifiedName? text
  let rest ← word? ['>'] (skipSpaces rest)
  (b.closeElement? name).map fun b => (rest, b)

/-! ### Content -/

/-- Adds what some pieces of characters write; entities are expanded by `nested`.  The characters
that wait to become a node are given with the latest first. -/
def addChunks? (entities : Entities) (room : Nat)
    (nested : List Char → Builder → Option Builder) :
    List Char → List Chunk → Builder → Option Builder
  | waiting, [], b => some (b.addText waiting.reverse)
  | waiting, .written c :: rest, b => addChunks? entities room nested (c :: waiting) rest b
  | waiting, .character c :: rest, b => addChunks? entities room nested (c :: waiting) rest b
  | waiting, .entity name :: rest, b => do
    let replacement ← entities.get? name
    let references ← countReference? room b.references
    let b ← nested replacement { b.addText waiting.reverse with references }
    addChunks? entities room nested [] rest { b with references := countAfter room b.references }

/-- Reads at most `bound` pieces of content.  `level` counts the elements that were opened in this
text and are still open, and `seenTag` tells whether a tag of this text has begun an element. -/
def contentWith? (entities : Entities) (room : Nat)
    (nested : List Char → Builder → Option Builder) :
    Nat → Nat → Bool → Builder → List Char → Option (List Char × Builder)
  | _, _, _, b, [] => some ([], b)
  | 0, _, _, _, _ => none
  | bound + 1, level, seenTag, b, text =>
    match text with
    | '<' :: '!' :: '-' :: '-' :: rest =>
      (comment? b rest).bind fun (rest, b) =>
        contentWith? entities room nested bound level seenTag b rest
    | '<' :: '!' :: rest => do
      let rest ← word? "[CDATA[".toList rest
      let (rest, b) ← characterData? b rest
      contentWith? entities room nested bound level seenTag b rest
    | '<' :: '?' :: rest =>
      (instruction? b rest).bind fun (rest, b) =>
        contentWith? entities room nested bound level seenTag b rest
    | '<' :: '/' :: rest => do
      let (rest, b) ← if seenTag then endTag? b rest else none
      match level with
      | 0 => some (rest, b)
      | level + 1 => contentWith? entities room nested bound level seenTag b rest
    | '<' :: rest => do
      let (tagEnd, rest, b) ← startTag? entities room b rest
      let level := if tagEnd = .opening then level + 1 else level
      contentWith? entities room nested bound level true b rest
    | text => do
      let (content, rest) ← characters? text
      let chunks ← chunks? content
      let b ← addChunks? entities room nested [] chunks b
      contentWith? entities room nested bound level seenTag b rest

/-- Adds the content that a replacement text writes, with some room left for nesting. -/
def addReplacement? (entities : Entities) : Nat → List Char → Builder → Option Builder
  | 0, _, _ => none
  | room + 1, text, b =>
    (contentWith? entities room (addReplacement? entities room) (text.length + 1) 0 false b
      text).map (·.2)

/-- Reads the content of the outermost element behind its tag, and its closing tag. -/
def content? (entities : Entities) (b : Builder) (text : List Char) :
    Option (List Char × Builder) :=
  contentWith? entities maxDepth (addReplacement? entities maxDepth) (text.length + 1) 0 true b text

end Survey.Markup
