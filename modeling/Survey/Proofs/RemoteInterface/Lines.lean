/-
# Logical lines as pieces of a text

Reading a document character by character does two things at once: it takes the comments out, and
it cuts what is left.  Here they are separated.  `strip` takes the comments out and keeps the
newlines that stand in them; `pieces` cuts a text without comments.  `logicalLines_eq` says that the
logical lines are the trimmed pieces that are not empty, so what is known of texts side by side is
known of their lines.
-/
import Mathlib.Data.List.Induction
import Survey.Proofs.Text.Trim
import Survey.RemoteInterface.LogicalLines

namespace Survey

open Survey.Text

namespace LogicalLines

/-! ### Comments -/

namespace Mode

/-- The kind of text behind a character, given the character after it. -/
def next (mode : Mode) (c : Char) (following : Option Char) : Mode :=
  match mode with
  | .code =>
    if c = '/' ∧ following = some '/' then .lineOpening
    else if c = '/' ∧ following = some '*' then .blockOpening
    else .code
  | .lineOpening => .lineComment
  | .lineComment => if c = '\n' then .code else .lineComment
  | .blockOpening => .blockComment
  | .blockComment => if c = '*' ∧ following = some '/' then .blockClosing else .blockComment
  | .blockClosing => .code

/-- Whether a character belongs to no comment.  A newline in a comment still ends a line. -/
def keeps (mode : Mode) (c : Char) (following : Option Char) : Bool :=
  match mode with
  | .code => !(c == '/' && (following == some '/' || following == some '*'))
  | .lineComment | .blockComment => c == '\n'
  | .lineOpening | .blockOpening | .blockClosing => false

/-- In code a character stays unless it opens a comment. -/
lemma code_stays (c : Char) (following : Option Char)
    (h : c = '/' → following ≠ some '/' ∧ following ≠ some '*') :
    Mode.code.keeps c following = true ∧ Mode.code.next c following = .code := by
  by_cases hc : c = '/'
  · obtain ⟨hline, hblock⟩ := h hc
    simp [keeps, next, hline, hblock]
  · simp [keeps, next, hc]

/-- The kind of text behind a text. -/
def after : Mode → List Char → Mode
  | mode, [] => mode
  | mode, c :: rest => (mode.next c rest.head?).after rest

end Mode

/-- A text without its comments, but with the newlines in them. -/
def strip : Mode → List Char → List Char
  | _, [] => []
  | mode, c :: rest =>
    if mode.keeps c rest.head? then c :: strip (mode.next c rest.head?) rest
    else strip (mode.next c rest.head?) rest

/-! ### Pieces -/

/-- The pieces of a text without comments, where a newline cuts, a piece ends behind an opening
brace or a semicolon, and a closing brace begins one. -/
def pieces : List Char → List (List Char)
  | [] => [[]]
  | c :: rest =>
    if c = '\n' then [] :: pieces rest
    else if c = '{' ∨ c = ';' then [c] :: pieces rest
    else if c = '}' then [] :: consHead c (pieces rest)
    else consHead c (pieces rest)

/-- Whether a character ends or begins a piece. -/
def isMark (c : Char) : Bool := c == '\n' || c == '{' || c == ';' || c == '}'

variable {mode : Mode} {c : Char} {front back u v : List Char} {done : List (List Char)}

lemma pieces_cons_of_not_isMark (hc : isMark c = false) (rest : List Char) :
    pieces (c :: rest) = consHead c (pieces rest) := by
  simp only [isMark, Bool.or_eq_false_iff, beq_eq_false_iff_ne, ne_eq] at hc
  simp [pieces, hc]

lemma pieces_append_of_not_isMark (hu : ∀ c ∈ u, isMark c = false) (rest : List Char) :
    pieces (u ++ rest) = prependHead u (pieces rest) := by
  induction u with
  | nil => rfl
  | cons c u ih =>
    rw [List.cons_append, pieces_cons_of_not_isMark (hu c (by simp)),
      ih fun d hd => hu d (List.mem_cons_of_mem _ hd)]
    rfl

/-- A text begins with its first piece. -/
lemma exists_pieces_eq_cons (u : List Char) :
    ∃ piece more, pieces u = piece :: more ∧ piece <+: u := by
  induction u with
  | nil => exact ⟨[], [], rfl, List.prefix_rfl⟩
  | cons c u ih =>
    obtain ⟨piece, more, hpieces, hprefix⟩ := ih
    rw [pieces, hpieces]
    split
    · exact ⟨[], _, rfl, List.nil_prefix⟩
    · split
      · exact ⟨[c], _, rfl, by simp⟩
      · split
        · exact ⟨[], _, rfl, List.nil_prefix⟩
        · exact ⟨c :: piece, more, rfl, List.cons_prefix_cons.2 ⟨rfl, hprefix⟩⟩

/-- Text behind a text goes on with its last piece. -/
lemma exists_pieces_append (u : List Char) :
    ∃ done last, last <:+ u ∧ ∀ v, pieces (u ++ v) = done ++ prependHead last (pieces v) := by
  induction u using List.reverseRecOn with
  | nil => exact ⟨[], [], List.suffix_rfl, fun _ => rfl⟩
  | append_singleton u c ih =>
    obtain ⟨done, last, hsuffix, happend⟩ := ih
    simp only [List.append_assoc, List.singleton_append, happend]
    by_cases hmark : isMark c
    · simp only [isMark, Bool.or_eq_true, beq_iff_eq] at hmark
      rcases hmark with ((rfl | rfl) | rfl) | rfl
      · exact ⟨done ++ [last], [], List.nil_suffix, fun v => by simp [pieces]⟩
      · exact ⟨done ++ [last ++ ['{']], [], List.nil_suffix, fun v => by simp [pieces]⟩
      · exact ⟨done ++ [last ++ [';']], [], List.nil_suffix, fun v => by simp [pieces]⟩
      · refine ⟨done ++ [last], ['}'], List.suffix_append u _, fun v => ?_⟩
        have hopen : pieces ('}' :: v) = [] :: prependHead ['}'] (pieces v) := by
          simp [pieces, prependHead]
        rw [hopen, prependHead_cons, List.append_nil, List.append_assoc, List.singleton_append]
    · obtain ⟨start, rfl⟩ := hsuffix
      refine ⟨done, last ++ [c], ⟨start, by simp⟩, fun v => ?_⟩
      rw [pieces_cons_of_not_isMark (by simpa using hmark), prependHead_append]
      rfl

/-! ### Texts side by side -/

/-- What stands behind a text that ends outside comments is read as if it stood alone, unless the text ends
with a slash that may be the first half of a mark of two characters. -/
lemma strip_append (hu : mode.after u = .code)
    (hlast : u.getLast? = some '/' → (strip mode u).getLast? ≠ some '/') (v : List Char) :
    strip mode (u ++ v) = strip mode u ++ strip .code v := by
  induction u generalizing mode with
  | nil =>
    have hmode : mode = .code := hu
    rw [hmode]
    rfl
  | cons c u ih =>
    cases u with
    | nil =>
      have hnext : mode.next c none = .code := hu
      -- the last character does not depend on what follows
      have hsame : mode.keeps c v.head? = mode.keeps c none ∧ mode.next c v.head? = .code := by
        cases mode <;> simp_all [Mode.next, Mode.keeps, strip]
      rw [List.singleton_append, strip, strip, List.head?_nil, hnext, hsame.1, hsame.2]
      split <;> rfl
    | cons d u =>
      have hhead : (d :: u ++ v).head? = some d := rfl
      have hrest : strip (mode.next c (some d)) (d :: u ++ v) =
          strip (mode.next c (some d)) (d :: u) ++ strip .code v := by
        refine ih hu fun hslash hstrip => hlast (by rwa [List.getLast?_cons_cons]) ?_
        rw [strip, List.head?_cons]
        split
        · rw [List.getLast?_cons, hstrip, Option.getD_some]
        · exact hstrip
      rw [List.cons_append, strip, strip.eq_2 mode, hhead, List.head?_cons, hrest]
      by_cases hkeeps : mode.keeps c (some d)
      · rw [if_pos hkeeps, if_pos hkeeps, List.cons_append]
      · rw [if_neg hkeeps, if_neg hkeeps]

lemma strip_cons (hc : c ≠ '/') (rest : List Char) :
    strip .code (c :: rest) = c :: strip .code rest := by
  obtain ⟨hkeeps, hnext⟩ := Mode.code_stays c rest.head? fun h => absurd h hc
  rw [strip, hkeeps, hnext, if_pos rfl]

/-- No comment is opened in a text. -/
def OpensNoComment (u : List Char) : Prop := ¬ ['/', '/'] <:+: u ∧ ¬ ['/', '*'] <:+: u

lemma opensNoComment_of_notMem (hu : '/' ∉ u) : OpensNoComment u :=
  ⟨fun h => hu (h.subset (by simp)), fun h => hu (h.subset (by simp))⟩

/-- A text in which no comment is opened stays as it is, unless its last character and the text
behind it open one together. -/
lemma strip_append_of_opensNoComment (hu : OpensNoComment u)
    (hjoin : u.getLast? = some '/' → ∀ c ∈ v.head?, c ≠ '/' ∧ c ≠ '*') :
    strip .code (u ++ v) = u ++ strip .code v := by
  induction u with
  | nil => rfl
  | cons c u ih =>
    obtain ⟨hline, hblock⟩ := hu
    have hfollowing : c = '/' → ∀ d ∈ (u ++ v).head?, d ≠ '/' ∧ d ≠ '*' := by
      rintro rfl
      cases u with
      | nil => exact hjoin rfl
      | cons d u =>
        intro e he
        obtain rfl : d = e := by simpa using he
        refine ⟨?_, ?_⟩
        · rintro rfl
          exact hline ⟨[], u, rfl⟩
        · rintro rfl
          exact hblock ⟨[], u, rfl⟩
    obtain ⟨hkeeps, hnext⟩ := Mode.code_stays c (u ++ v).head?
      fun hc => ⟨fun h => (hfollowing hc _ h).1 rfl, fun h => (hfollowing hc _ h).2 rfl⟩
    have hrest := ih ⟨fun h => hline (List.infix_cons h), fun h => hblock (List.infix_cons h)⟩
      fun hlast => hjoin (by rw [List.getLast?_cons, hlast]; rfl)
    rw [List.cons_append, strip, hkeeps, hnext, if_pos rfl, hrest, List.cons_append]

/-- A complete comment that may go over several lines. -/
def IsComment (u : List Char) : Prop :=
  ∃ body, u = '/' :: '*' :: (body ++ ['*', '/']) ∧ ¬ ['*', '/'] <:+: body

lemma strip_blockComment_append {body : List Char} (hbody : ¬ ['*', '/'] <:+: body)
    (v : List Char) :
    strip .blockComment (body ++ '*' :: '/' :: v) =
      body.filter (· == '\n') ++ strip .code v := by
  induction body with
  | nil => simp [strip, Mode.keeps, Mode.next]
  | cons c body ih =>
    have hrest := ih fun h => hbody (List.infix_cons h)
    have hopen : ¬ (c = '*' ∧ (body ++ '*' :: '/' :: v).head? = some '/') := by
      rintro ⟨rfl, hhead⟩
      cases body with
      | nil => simp at hhead
      | cons d body =>
        obtain rfl : d = '/' := by simpa using hhead
        exact hbody ⟨[], body, rfl⟩
    have hnext : Mode.blockComment.next c (body ++ '*' :: '/' :: v).head? = .blockComment :=
      if_neg hopen
    rw [List.cons_append, strip, hnext, hrest, Mode.keeps, List.filter_cons]
    split <;> rfl

/-- A comment leaves its newlines behind. -/
lemma strip_comment_append (hu : IsComment u) (v : List Char) :
    strip .code (u ++ v) = u.filter (· == '\n') ++ strip .code v := by
  obtain ⟨body, rfl, hbody⟩ := hu
  have hopen : strip .code ('/' :: '*' :: (body ++ ['*', '/']) ++ v) =
      strip .blockComment (body ++ '*' :: '/' :: v) := by
    simp [strip, Mode.keeps, Mode.next]
  rw [hopen, strip_blockComment_append hbody]
  simp

/-! ### Reading -/

namespace Reading

/-- Reads a character that belongs to no comment. -/
def take (r : Reading) (c : Char) : Reading :=
  if c = '\n' then r.flush
  else if c = '{' ∨ c = ';' then (r.push c).flush
  else if c = '}' then r.flush.push c
  else r.push c

@[simp] lemma mode_flush (r : Reading) : r.flush.mode = r.mode := by
  rw [flush]
  split <;> rfl

@[simp] lemma mode_take (r : Reading) (c : Char) : (r.take c).mode = r.mode := by
  rw [take]
  split_ifs <;> simp [push]

lemma with_mode_eq {r : Reading} {mode : Mode} (h : r.mode = mode) : { r with mode } = r := by
  rw [← h]

/-- Reading a character takes it unless it belongs to a comment. -/
lemma read_eq (r : Reading) (c : Char) (following : Option Char) :
    r.read c following =
      { (if r.mode.keeps c following then r.take c else r) with
        mode := r.mode.next c following } := by
  cases hmode : r.mode with
  | lineOpening | blockOpening | blockClosing =>
    simp [read, hmode, Mode.keeps, Mode.next]
  | code =>
    by_cases hline : c = '/' ∧ following = some '/'
    · obtain ⟨rfl, rfl⟩ := hline
      simp [read, readCode, hmode, Mode.keeps, Mode.next]
    · by_cases hblock : c = '/' ∧ following = some '*'
      · obtain ⟨rfl, rfl⟩ := hblock
        simp [read, readCode, hmode, Mode.keeps, Mode.next]
      · obtain ⟨hkeeps, hnext⟩ := Mode.code_stays c following
          fun hc => ⟨fun h => hline ⟨hc, h⟩, fun h => hblock ⟨hc, h⟩⟩
        rw [hkeeps, hnext, if_pos rfl, with_mode_eq (by rw [mode_take, hmode])]
        simp [read, readCode, hmode, take, hline, hblock]
  | lineComment =>
    by_cases hc : c = '\n'
    · simp [read, hmode, Mode.keeps, Mode.next, take, hc]
    · simp [read, hmode, Mode.keeps, Mode.next, hc, with_mode_eq]
  | blockComment =>
    by_cases hc : c = '\n'
    · simp [read, hmode, Mode.keeps, Mode.next, take, hc, with_mode_eq]
    · by_cases hstar : c = '*' ∧ following = some '/'
      · simp [read, hmode, Mode.keeps, Mode.next, hstar]
      · simp [read, hmode, Mode.keeps, Mode.next, hstar, hc, with_mode_eq]

/-- The lines of a reading: the finished ones, and those of a text behind the current one. -/
def linesWith (r : Reading) (code : List Char) : List (List Char) :=
  r.finished.reverse ++ tidy (prependHead r.current.reverse (pieces code))

lemma linesWith_push (r : Reading) (c : Char) (code : List Char) :
    (r.push c).linesWith code =
      r.finished.reverse ++ tidy (prependHead r.current.reverse (consHead c (pieces code))) := by
  simp [linesWith, push, prependHead]

lemma reverse_finished_flush (r : Reading) :
    r.flush.finished.reverse = r.finished.reverse ++ tidy [r.current.reverse] := by
  by_cases hempty : (trim r.current.reverse).isEmpty
  · simp [flush, tidy, nonEmpty, hempty]
  · simp [flush, tidy, nonEmpty, hempty]

@[simp] lemma current_flush (r : Reading) : r.flush.current = [] := by
  rw [flush]
  split <;> rfl

lemma linesWith_flush (r : Reading) (code : List Char) :
    r.flush.linesWith code = r.finished.reverse ++ tidy (r.current.reverse :: pieces code) := by
  rw [linesWith, reverse_finished_flush, current_flush, List.append_assoc, ← tidy_append]
  rfl

lemma linesWith_take (r : Reading) (c : Char) (code : List Char) :
    (r.take c).linesWith code = r.linesWith (c :: code) := by
  simp only [take, linesWith.eq_1 r, pieces]
  split
  · rw [linesWith_flush, prependHead_cons, List.append_nil]
  · split
    · rw [linesWith_flush, prependHead_cons, push, List.reverse_cons]
    · split
      · rw [linesWith_push, prependHead_cons, current_flush, reverse_finished_flush,
          List.append_nil, List.append_assoc, ← tidy_append]
        rfl
      · exact linesWith_push r c code

/-- What is read of a text is read of the text without its comments. -/
lemma finished_readAll (r : Reading) (text : List Char) :
    (r.readAll text).finished.reverse = r.linesWith (strip r.mode text) := by
  induction text generalizing r with
  | nil =>
    rw [readAll, reverse_finished_flush, strip, linesWith, pieces, prependHead_cons,
      List.append_nil]
  | cons c rest ih =>
    rw [readAll, ih, read_eq, strip]
    split
    · exact linesWith_take r c _
    · rfl

end Reading

end LogicalLines

/-- **The logical lines are the pieces of the text without comments**, trimmed and without the empty
ones. -/
theorem logicalLines_eq (text : List Char) :
    logicalLines text = tidy (LogicalLines.pieces (LogicalLines.strip .code text)) :=
  LogicalLines.Reading.finished_readAll .start text

end Survey
