/-
# Places in a text

A cursor is a place in a text: what lies before it, stored in reverse order so that its head is
the character immediately left of the place, and what lies after it.  It knows how many bytes lie
before it, so two places of one text are compared without going over the text.  Moving a cursor
over the text keeps the text; two cursors of one text bound a span.
-/
import Survey.Text.Utf8
import Survey.Text.Word

namespace Survey

/-- A place in a text. -/
structure Cursor where
  /-- The text before the place, in reverse order. -/
  before : List Char
  /-- The text after the place. -/
  after : List Char
  /-- The number of bytes before the place. -/
  offset : Nat
  /-- The offset counts the bytes before the place. -/
  offset_eq : offset = Text.byteLength before
deriving DecidableEq, Repr

namespace Cursor

/-- The place before the first character of a text. -/
def ofText (text : List Char) : Cursor := ⟨[], text, 0, rfl⟩

/-- The text in which a cursor stands. -/
def text (c : Cursor) : List Char := c.before.reverse ++ c.after

/-- The cursor behind a character that comes next, given what follows the character. -/
def pass (c : Cursor) (a : Char) (rest : List Char) : Cursor :=
  ⟨a :: c.before, rest, a.utf8Size + c.offset, by simp [c.offset_eq]⟩

/-- The cursor one character further on; the end of the text stays where it is. -/
def next (c : Cursor) : Cursor :=
  match c.after with
  | [] => c
  | a :: rest => c.pass a rest

/-- The cursor behind a given word, if the word comes next. -/
def skip? : List Char → Cursor → Option Cursor
  | [], c => some c
  | w :: word, c =>
    match c.after with
    | a :: rest => if w = a then skip? word (c.pass a rest) else none
    | [] => none

/-- The cursors that a run of characters of a class passes, from a cursor in front of the given
characters to where the run cannot go on. -/
def stopsFrom (cls : Char → Bool) (c : Cursor) : List Char → List Cursor
  | [] => [c]
  | a :: rest => c :: if cls a then stopsFrom cls (c.pass a rest) rest else []

/-- The cursors that a run of characters of a class passes. -/
def stops (cls : Char → Bool) (c : Cursor) : List Cursor := stopsFrom cls c c.after

/-- The cursor behind all characters of a class that come next, in front of the given characters;
none when they are fewer than the given number. -/
def passAllFrom? (cls : Char → Bool) : Nat → Cursor → List Char → Option Cursor
  | 0, c, [] => some c
  | _ + 1, _, [] => none
  | least, c, a :: rest =>
    if cls a then passAllFrom? cls (least - 1) (c.pass a rest) rest
    else if least = 0 then some c
    else none

/-- The cursor behind all characters of a class that come next, if there are enough of them. -/
def passAll? (cls : Char → Bool) (least : Nat) (c : Cursor) : Option Cursor :=
  passAllFrom? cls least c c.after

/-- Whether a word begins or ends at a cursor. -/
def isWordBoundary (c : Cursor) : Bool :=
  Text.touchesWord c.before != Text.touchesWord c.after

theorem text_pass {c : Cursor} {a : Char} {rest : List Char} (h : c.after = a :: rest) :
    (c.pass a rest).text = c.text := by
  simp [pass, text, h]

@[simp] theorem text_next (c : Cursor) : c.next.text = c.text := by
  unfold next
  split
  · rfl
  · exact text_pass ‹_›

end Cursor

/-- A stretch of a text between two of its places. -/
structure Span where
  /-- Where the stretch starts. -/
  start : Cursor
  /-- Where the stretch stops. -/
  stop : Cursor
deriving DecidableEq, Repr

namespace Span

/-- The characters of a span. -/
def text (s : Span) : List Char :=
  (Text.takeBytes? (s.stop.offset - s.start.offset) s.start.after).getD []

/-- The text of a span as a string. -/
def toString (s : Span) : String := String.ofList s.text

end Span

end Survey
