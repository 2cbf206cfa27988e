/-
# Blocks

A block reaches from an opening brace to the brace that closes it.  Braces inside string and
character literals and inside comments do not count.  A literal ends at its quote or at the end
of the line, and a backslash in it hides the next byte.  A comment of the form `/* */` ends at the
first `*/` behind its opening; an opening star does not close.

The search reads bytes one by one and remembers in which kind of text it is.  All bytes that it
reacts to are ASCII, so it never mistakes a part of another character for one of them.
-/
import Survey.Text.Utf8

namespace Survey.Block

/-- The kind of text at a byte. -/
inductive Mode where
  /-- Code. -/
  | code
  /-- A literal that ends with the given quote. -/
  | literal (quote : UInt8)
  /-- Behind a backslash in a literal. -/
  | escape (quote : UInt8)
  /-- A comment up to the end of the line. -/
  | lineComment
  /-- Behind the slash that opens a comment; the star is still to come. -/
  | blockOpening
  /-- A comment up to `*/`. -/
  | blockComment
  /-- Behind the star of `*/`; the slash is still to come. -/
  | blockClosing
deriving DecidableEq, Repr

/-- Byte of `{`. -/
def openBrace : UInt8 := 0x7b
/-- Byte of `}`. -/
def closeBrace : UInt8 := 0x7d
/-- Byte of the double quote. -/
def doubleQuote : UInt8 := 0x22
/-- Byte of the single quote. -/
def singleQuote : UInt8 := 0x27
/-- Byte of the backslash. -/
def backslash : UInt8 := 0x5c
/-- Byte of the newline. -/
def newline : UInt8 := 0x0a
/-- Byte of the slash. -/
def slash : UInt8 := 0x2f
/-- Byte of the star. -/
def star : UInt8 := 0x2a

/-- The kind of text behind a byte of code, given the byte after it. -/
def Mode.afterCode (b : UInt8) (following : Option UInt8) : Mode :=
  if b = doubleQuote ∨ b = singleQuote then .literal b
  else if b = slash ∧ following = some slash then .lineComment
  else if b = slash ∧ following = some star then .blockOpening
  else .code

/-- The kind of text behind a byte, given the byte after it. -/
def Mode.next (mode : Mode) (b : UInt8) (following : Option UInt8) : Mode :=
  match mode with
  | .code => .afterCode b following
  | .literal quote =>
    if b = quote ∨ b = newline then .code
    else if b = backslash then .escape quote
    else .literal quote
  | .escape quote => .literal quote
  | .lineComment => if b = newline then .code else .lineComment
  | .blockOpening => .blockComment
  | .blockComment =>
    if b = star ∧ following = some slash then .blockClosing else .blockComment
  | .blockClosing => .code

/-- The number of bytes before the brace that closes the outermost open block, from a mode and a
number of open blocks; a closing brace outside all blocks counts as such a brace. -/
def closeFrom : Mode → Nat → List UInt8 → Option Nat
  | _, _, [] => none
  | mode, depth, b :: rest =>
    let continued := mode.next b rest.head?
    if mode = .code ∧ b = openBrace then (closeFrom continued (depth + 1) rest).map (· + 1)
    else if mode = .code ∧ b = closeBrace then
      if depth ≤ 1 then some 0 else (closeFrom continued (depth - 1) rest).map (· + 1)
    else (closeFrom continued depth rest).map (· + 1)

/-- The offset of the brace that closes the block that is opened at an offset of some bytes; none
when the bytes end first. -/
def closingBraceIn? (bytes : List UInt8) (start : Nat) : Option Nat :=
  (closeFrom .code 0 (bytes.drop start)).map (start + ·)

/-- The byte offset of the brace that closes the block that is opened at a byte offset; none when
the text ends first. -/
def closingBrace? (text : List Char) (start : Nat) : Option Nat :=
  closingBraceIn? (Text.utf8 text) start

end Survey.Block
