/-
# Characters and names of markup

The characters that may stand in a document, the blanks that separate its parts, and names.  A
qualified name has an optional qualifier, set off by one colon; both parts begin with a character
that may start a name, and an empty qualifier is the same as none.

Every reader in this file takes what it reads off the front of a text and gives the rest, or none
when the text does not begin as it should.
-/
import Survey.Text.Ranges
import Survey.Text.Word

namespace Survey.Markup

open Survey.Text

/-- Whether a character may stand in a document. -/
def isAllowed (c : Char) : Bool :=
  if c.toNat < 32 then c == '\t' || c == '\n' || c == '\r'
  else c.toNat != 0xfffe && c.toNat != 0xffff

/-- Whether a character separates the parts of a document. -/
def isSpace (c : Char) : Bool := c == ' ' || c == '\t' || c == '\n' || c == '\r'

/-- The code points beyond ASCII that may start a name. -/
def nameStartRanges : List (Nat × Nat) :=
  [(0xc0, 0xd6), (0xd8, 0xf6), (0xf8, 0x2ff), (0x370, 0x37d), (0x37f, 0x1fff), (0x200c, 0x200d),
   (0x2070, 0x218f), (0x2c00, 0x2fef), (0x3001, 0xd7ff), (0xf900, 0xfdcf), (0xfdf0, 0xfffd),
   (0x10000, 0xeffff)]

/-- The code points beyond ASCII that may continue a name but not start it. -/
def nameMoreRanges : List (Nat × Nat) := [(0xb7, 0xb7), (0x300, 0x36f), (0x203f, 0x2040)]

/-- Whether a character may start a name. -/
def isNameStart (c : Char) : Bool :=
  if c.toNat < 128 then isLetter c || c == ':' || c == '_' else inRanges nameStartRanges c.toNat

/-- Whether a character may stand in a name. -/
def isNameChar (c : Char) : Bool :=
  isNameStart c || isDigit c || c == '-' || c == '.' || inRanges nameMoreRanges c.toNat

/-! ### Reading off the front of a text -/

/-- Reads a given word. -/
def word? : List Char → List Char → Option (List Char)
  | [], text => some text
  | w :: word, c :: rest => if w = c then word? word rest else none
  | _ :: _, [] => none

/-- Whether a text begins with a given string. -/
def startsWith (word : String) (text : List Char) : Bool := word.toList.isPrefixOf text

/-- Reads any number of separators. -/
def skipSpaces (text : List Char) : List Char := text.dropWhile isSpace

/-- Reads at least one separator. -/
def spaces? : List Char → Option (List Char)
  | c :: rest => if isSpace c then some (skipSpaces rest) else none
  | [] => none

/-- Reads allowed characters up to a place where the rest is as asked for, or up to the end; none
when a character is not allowed. -/
def readUntil? (stop : List Char → Bool) : List Char → Option (List Char × List Char)
  | [] => some ([], [])
  | c :: rest =>
    if !isAllowed c then none
    else if stop (c :: rest) then some ([], c :: rest)
    else (readUntil? stop rest).map fun (front, back) => (c :: front, back)

/-- Reads a quote: the single or the double one. -/
def quote? : List Char → Option (Char × List Char)
  | c :: rest => if c = '\x22' ∨ c = '\x27' then some (c, rest) else none
  | [] => none

/-- Reads a name. -/
def name? : List Char → Option (List Char × List Char)
  | c :: rest =>
    if isNameStart c then some (c :: rest.takeWhile isNameChar, rest.dropWhile isNameChar)
    else none
  | [] => none

/-! ### Qualified names -/

/-- A name with an optional qualifier. -/
structure QualifiedName where
  /-- The part before the colon; empty when there is none. -/
  qualifier : List Char
  /-- The part behind the colon. -/
  base : List Char
deriving DecidableEq, Repr

/-- Whether a text begins with a character that may start a name. -/
def startsName : List Char → Bool
  | c :: _ => isNameStart c
  | [] => false

/-- The qualified name that some characters of names write, if they write one. -/
def QualifiedName.ofChars? (chars : List Char) : Option QualifiedName :=
  match chars.span (· != ':') with
  | (base, []) => if startsName base then some ⟨[], base⟩ else none
  | (qualifier, _ :: base) =>
    if (qualifier.isEmpty || startsName qualifier) && startsName base && !base.contains ':' then
      some ⟨qualifier, base⟩
    else none

/-- Reads a qualified name. -/
def qualifiedName? (text : List Char) : Option (QualifiedName × List Char) :=
  (QualifiedName.ofChars? (text.takeWhile isNameChar)).map fun name =>
    (name, text.dropWhile isNameChar)

end Survey.Markup
