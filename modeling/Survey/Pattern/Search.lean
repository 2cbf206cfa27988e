/-
# Searching a text for a pattern

A search finds the match that starts furthest left.  Searching for all matches goes on behind each
one that is found, so matches do not overlap; what lies before a place still counts for word
boundaries.
-/
import Survey.Pattern.Basic

namespace Survey

/-- A place where a pattern matches: the span of the match and the spans of its groups. -/
structure Match where
  /-- The span of the whole match. -/
  whole : Span
  /-- The spans of the groups that took part, with their numbers, the latest first. -/
  groups : List (Nat × Span)
deriving DecidableEq, Repr

namespace Match

/-- The span of a group, if it took part in the match. -/
def group? (m : Match) (number : Nat) : Option Span := m.groups.lookup number

/-- The text of a group; empty when the group took no part. -/
def groupText (m : Match) (number : Nat) : List Char :=
  match m.group? number with
  | some span => span.text
  | none => []

/-- The byte offset at which a match starts. -/
def start (m : Match) : Nat := m.whole.start.offset

/-- The byte offset at which a match stops. -/
def stop (m : Match) : Nat := m.whole.stop.offset

end Match

namespace Pattern

/-- The match of a pattern that starts at a place. -/
def matchAt? (p : Pattern) (place : Cursor) : Option Match :=
  p.tryFrom ⟨place, []⟩ fun s => some ⟨⟨place, s.place⟩, s.groups⟩

/-- The first match of a pattern that starts at a place in front of the given characters or
between them. -/
def findBefore? (p : Pattern) (place : Cursor) : List Char → Option Match
  | [] => p.matchAt? place
  | c :: rest => orElse (p.matchAt? place) fun _ => p.findBefore? (place.pass c rest) rest

/-- The first match of a pattern in what follows a place. -/
def findFrom? (p : Pattern) (place : Cursor) : Option Match := p.findBefore? place place.after

/-- The first match of a pattern in a text. -/
def find? (p : Pattern) (text : List Char) : Option Match := p.findFrom? (.ofText text)

/-- Whether a pattern matches somewhere in a text. -/
def occursIn (p : Pattern) (text : List Char) : Bool := (p.find? text).isSome

/-- Where the search goes on behind a match: at its end, or one character further when the match
is empty. -/
def resumeAfter (m : Match) : Cursor :=
  if m.whole.start.offset < m.whole.stop.offset then m.whole.stop
  else m.whole.stop.next

/-- At most `bound` matches in what follows a place, each behind the one before. -/
def findAllFrom (p : Pattern) : Nat → Cursor → List Match
  | 0, _ => []
  | bound + 1, place =>
    match p.findFrom? place with
    | none => []
    | some m => m :: p.findAllFrom bound (resumeAfter m)

/-- All matches of a pattern in a text, from left to right, none overlapping another. -/
def findAll (p : Pattern) (text : List Char) : List Match :=
  p.findAllFrom (text.length + 1) (Cursor.ofText text)

end Pattern

end Survey
