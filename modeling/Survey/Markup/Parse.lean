/-
# Reading a document

A document has an optional declaration, then comments and instructions, an optional document type
with the declarations of entities, and one outermost element, with comments and instructions
around it.
-/
import Survey.Markup.Content

namespace Survey.Markup

/-! ### The declaration -/

/-- Reads separators, which may only be left out before the end of the declaration. -/
def declarationSpaces? (text : List Char) : Option (List Char) :=
  if text.isEmpty || startsWith "?>" text then some text else spaces? text

/-- Reads a part of the declaration that begins with a given word, if it comes next, and the
separators behind it. -/
def declarationPart? (word : String) (text : List Char) : Option (List Char) :=
  if startsWith word text then
    (nameAndValue? text).bind fun (_, _, rest) => declarationSpaces? rest
  else some text

/-- Reads the declaration of a document behind `<?xml`: the version, then the encoding and the
mention of stand-alone documents if they are there. -/
def declaration? (text : List Char) : Option (List Char) := do
  let rest ← declarationSpaces? text
  if !startsWith "version" rest then none
  else
    let rest ← declarationPart? "version" rest
    let rest ← declarationPart? "encoding" rest
    let rest ←
      if startsWith "standalone" rest then (nameAndValue? rest).map fun (_, _, rest) => rest
      else some rest
    word? "?>".toList (skipSpaces rest)

/-! ### The document type -/

/-- Reads a quoted text. -/
def quoted? (text : List Char) : Option (List Char) :=
  (quote? text).bind fun (quote, rest) => word? [quote] (rest.dropWhile (· != quote))

/-- Reads the place of an external text: `SYSTEM` and one quoted text, or `PUBLIC` and two. -/
def externalPlace? (text : List Char) : Option (List Char) :=
  if startsWith "SYSTEM" text then (spaces? (text.drop 6)).bind quoted?
  else if startsWith "PUBLIC" text then
    ((spaces? (text.drop 6)).bind quoted?).bind fun rest => (spaces? rest).bind quoted?
  else none

/-- Reads a mention of the format of an external entity, if it comes next. -/
def formatMention? (text : List Char) : Option (List Char) :=
  if startsWith "NDATA" (skipSpaces text) then
    ((spaces? ((skipSpaces text).drop 5)).bind name?).map (·.2)
  else some text

/-- Reads what an entity is declared to be: a replacement text, or an external text, which is not
kept.  Any character may stand in a replacement text; whether it is allowed shows only where the
text is used as content. -/
def entityMeaning? (isGeneral : Bool) (text : List Char) :
    Option (Option (List Char) × List Char) :=
  match quote? text with
  | some (quote, rest) => do
    let after ← word? [quote] (rest.dropWhile (· != quote))
    some (some (rest.takeWhile (· != quote)), after)
  | none => do
    let rest ← externalPlace? text
    let rest ← if isGeneral then formatMention? rest else some rest
    some (none, rest)

/-- Reads the declaration of an entity behind `<!ENTITY`. -/
def entity? (entities : Entities) (text : List Char) : Option (List Char × Entities) := do
  let rest ← spaces? text
  let isGeneral := !startsWith "%" rest
  let rest ← if isGeneral then some rest else spaces? (rest.drop 1)
  let (name, rest) ← name? rest
  let (meaning, rest) ← (spaces? rest).bind (entityMeaning? isGeneral)
  let rest ← word? ['>'] (skipSpaces rest)
  match meaning with
  | some replacement => some (rest, entities ++ [(name, replacement)])
  | none => some (rest, entities)

/-- Whether a text begins with a declaration that is passed over. -/
def atPassedOver (text : List Char) : Bool :=
  startsWith "<!ELEMENT" text || startsWith "<!ATTLIST" text || startsWith "<!NOTATION" text

/-- Reads at most `bound` declarations of a document type behind `[`, up to its end. -/
def declarations? : Nat → Entities → Builder → List Char →
    Option (List Char × Entities × Builder)
  | _, entities, b, [] => some ([], entities, b)
  | 0, _, _, _ => none
  | bound + 1, entities, b, text =>
    let text := skipSpaces text
    if startsWith "<!ENTITY" text then
      (entity? entities (text.drop 8)).bind fun (rest, entities) =>
        declarations? bound entities b rest
    else if startsWith "<!--" text then
      (comment? b (text.drop 4)).bind fun (rest, b) => declarations? bound entities b rest
    else if startsWith "<?" text then
      (instruction? b (text.drop 2)).bind fun (rest, b) => declarations? bound entities b rest
    else if startsWith "]" text then
      (word? ['>'] (skipSpaces (text.drop 1))).map fun rest => (rest, entities, b)
    else if atPassedOver text then
      (word? ['>'] (text.dropWhile (· != '>'))).bind fun rest =>
        declarations? bound entities b rest
    else none

/-- Reads a document type behind `<!DOCTYPE`. -/
def documentType? (b : Builder) (text : List Char) : Option (List Char × Entities × Builder) := do
  let rest ← spaces? text
  let (_, rest) ← name? rest
  let rest := skipSpaces rest
  let rest ←
    if startsWith "SYSTEM" rest || startsWith "PUBLIC" rest then externalPlace? rest else some rest
  match skipSpaces rest with
  | '>' :: rest => some (rest, [], b)
  | '[' :: rest => declarations? (rest.length + 1) [] b rest
  | _ => none

/-! ### Documents -/

/-- Reads at most `bound` comments and instructions, with separators around them. -/
def miscellany? : Nat → Builder → List Char → Option (List Char × Builder)
  | 0, b, text => some (text, b)
  | bound + 1, b, text =>
    let text := skipSpaces text
    if startsWith "<!--" text then
      (comment? b (text.drop 4)).bind fun (rest, b) => miscellany? bound b rest
    else if startsWith "<?" text then
      (instruction? b (text.drop 2)).bind fun (rest, b) => miscellany? bound b rest
    else some (text, b)

/-- Reads comments and instructions, with separators around them. -/
def surroundings? (b : Builder) (text : List Char) : Option (List Char × Builder) :=
  miscellany? (text.length + 1) b text

/-- Reads the outermost element, if one comes next. -/
def outermost? (entities : Entities) (b : Builder) (text : List Char) :
    Option (List Char × Builder) :=
  match text with
  | '<' :: rest =>
    (startTag? entities maxDepth b rest).bind fun (tagEnd, rest, b) =>
      if tagEnd = .opening then content? entities b rest else some (rest, b)
  | _ => some (text, b)

/-- Reads a document without its declaration. -/
def body? (text : List Char) : Option Document := do
  let (rest, b) ← surroundings? .start text
  let (rest, entities, b) ←
    if startsWith "<!DOCTYPE" rest then
      (documentType? b (rest.drop 9)).bind fun (rest, entities, b) =>
        (surroundings? b rest).map fun (rest, b) => (rest, entities, b)
    else some (rest, [], b)
  let (rest, b) ← outermost? entities b rest
  let (rest, b) ← surroundings? b rest
  if rest.isEmpty then b.finish? else none

/-- A text without a byte order mark at its start. -/
def withoutMark : List Char → List Char
  | '\ufeff' :: rest => rest
  | text => text

/-- The document that a text writes, if it writes one. -/
def Document.parse? (text : List Char) : Option Document :=
  let text := withoutMark text
  if startsWith "<?xml " text then (declaration? (text.drop 5)).bind body? else body? text

end Survey.Markup
