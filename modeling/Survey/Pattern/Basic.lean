/-
# Patterns

A pattern describes the stretches of text that begin at a place.  When a pattern can match in
several ways, the ways are tried in a fixed order of preference: the first alternative before the
second, taking an optional part before leaving it out, a longer run before a shorter one, and, for
rounds, as many as possible or as few as possible.  The first way that lets everything after it
match as well is the one that counts.

Most stretches of characters have one way only: `all` takes every character of its class and leaves
none of them to what follows.  That is right where what follows cannot begin with such a character;
elsewhere a `run` gives characters back.

Matching is written with a continuation: `tryFrom p s k` passes the states that `p` can reach from
`s` to `k` in order of preference and gives the first answer that `k` accepts.  The recursion
follows the pattern; a repeated part has to move on in every round, so the text that is left bounds
the number of rounds.
-/
import Survey.Pattern.Cursor
import Survey.Text.Blank

namespace Survey

/-- How many rounds of a repetition are preferred. -/
inductive Preference where
  /-- As many as possible. -/
  | most
  /-- As few as possible. -/
  | fewest
deriving DecidableEq, Repr

/-- A description of stretches of text. -/
inductive Pattern where
  /-- The given characters. -/
  | word (text : List Char)
  /-- One character of a class. -/
  | one (cls : Char → Bool)
  /-- All characters of a class that come next, at least the given number of them; none is left
  to what follows. -/
  | all (cls : Char → Bool) (least : Nat)
  /-- At least the given number of characters of a class, more of them preferred. -/
  | run (cls : Char → Bool) (least : Nat)
  /-- One pattern and then another. -/
  | seq (first second : Pattern)
  /-- One pattern or another, the first preferred. -/
  | either (first second : Pattern)
  /-- A pattern or nothing, the pattern preferred. -/
  | optional (part : Pattern)
  /-- Any number of rounds of a pattern, as preferred. -/
  | rounds (part : Pattern) (preference : Preference)
  /-- A pattern whose span is remembered under a number. -/
  | group (number : Nat) (part : Pattern)
  /-- Nothing, at a place where a word begins or ends. -/
  | wordBoundary
  /-- Nothing, before the first character of the text. -/
  | textStart
  /-- Nothing, behind the last character of the text. -/
  | textEnd

namespace Pattern

instance : Append Pattern := ⟨seq⟩

/-- The characters of a string. -/
def lit (text : String) : Pattern := word text.toList

/-- All characters up to a given one, at least the given number of them. -/
def allBefore (stop : Char) (least : Nat) : Pattern := all (· != stop) least

/-- One of several words, earlier ones preferred. -/
def oneOf : List String → Pattern
  | [] => one fun _ => false
  | [text] => lit text
  | text :: more => either (lit text) (oneOf more)

/-- All blanks that come next, at least one. -/
def blanks : Pattern := all Text.isBlank 1

/-- All blanks that come next, if any. -/
def anyBlanks : Pattern := all Text.isBlank 0

/-- All word characters that come next, at least one. -/
def name : Pattern := all Text.isWordChar 1

/-- The highest number of a group in a pattern; zero when it has none. -/
def groupCount : Pattern → Nat
  | seq first second => max first.groupCount second.groupCount
  | either first second => max first.groupCount second.groupCount
  | optional part => part.groupCount
  | rounds part _ => part.groupCount
  | group number part => max number part.groupCount
  | _ => 0

/-- How far a match has come: its place and the groups it has remembered, the latest first. -/
structure Progress where
  /-- The place reached. -/
  place : Cursor
  /-- The remembered spans with their numbers. -/
  groups : List (Nat × Span)

/-- The answer of the first option, or else of the second. -/
@[inline]
def orElse {α : Type} (first : Option α) (second : Unit → Option α) : Option α :=
  match first with
  | some a => some a
  | none => second ()

/-- Rounds of a step, as many as possible first; a round that does not move on is refused, and
there are at most as many rounds as characters in the given text. -/
def mostRounds {α : Type} (step : Progress → (Progress → Option α) → Option α)
    (k : Progress → Option α) : List Char → Progress → Option α
  | [], s => k s
  | _ :: text, s =>
    orElse
      (step s fun t =>
        if s.place.offset < t.place.offset then mostRounds step k text t else none)
      fun _ => k s

/-- Rounds of a step, as few as possible first. -/
def fewestRounds {α : Type} (step : Progress → (Progress → Option α) → Option α)
    (k : Progress → Option α) : List Char → Progress → Option α
  | [], s => k s
  | _ :: text, s =>
    orElse (k s) fun _ =>
      step s fun t =>
        if s.place.offset < t.place.offset then fewestRounds step k text t else none

/-- Passes what a pattern can reach to a continuation, in order of preference, and gives the
first answer. -/
def tryFrom {α : Type} : Pattern → Progress → (Progress → Option α) → Option α
  | word text, s, k =>
    match s.place.skip? text with
    | some place => k { s with place }
    | none => none
  | one cls, s, k =>
    match s.place.after with
    | c :: _ => if cls c then k { s with place := s.place.next } else none
    | [] => none
  | all cls least, s, k =>
    match s.place.passAll? cls least with
    | some place => k { s with place }
    | none => none
  | run cls least, s, k =>
    ((s.place.stops cls).drop least).reverse.findSome? fun place => k { s with place }
  | seq first second, s, k => first.tryFrom s fun t => second.tryFrom t k
  | either first second, s, k => orElse (first.tryFrom s k) fun _ => second.tryFrom s k
  | optional part, s, k => orElse (part.tryFrom s k) fun _ => k s
  | rounds part preference, s, k =>
    match preference with
    | .most => mostRounds (fun t k => part.tryFrom t k) k s.place.after s
    | .fewest => fewestRounds (fun t k => part.tryFrom t k) k s.place.after s
  | group number part, s, k =>
    part.tryFrom s fun t => k { t with groups := (number, ⟨s.place, t.place⟩) :: t.groups }
  | wordBoundary, s, k => if s.place.isWordBoundary then k s else none
  | textStart, s, k => if s.place.before.isEmpty then k s else none
  | textEnd, s, k => if s.place.after.isEmpty then k s else none

end Pattern

end Survey
