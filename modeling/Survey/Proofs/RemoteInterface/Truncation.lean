/-
# Truncated documents

A document that is cut in front of a newline is read like the whole one up to the cut.  The newline
ends a logical line wherever it stands, so the logical lines of the part are the first ones of the
whole (`exists_logicalLines_newline`), and reading goes on from where the part ends.  What reading
goes on from is never taken back: finished interfaces stay as they are, and an open one can only get
more members (`Reading.exists_interfaces_foldl_read`).
-/
import Survey.Proofs.RemoteInterface.Comments

namespace Survey

open Survey.Text

namespace LogicalLines

/-! ### The lines in front of a newline -/

namespace Mode

/-- In front of a newline a character is read as at the end of the text: no mark of two characters
ends with a newline. -/
lemma keeps_and_next_newline (mode : Mode) (c : Char) :
    mode.keeps c (some '\n') = mode.keeps c none ∧ mode.next c (some '\n') = mode.next c none := by
  cases mode <;> simp [keeps, next]

/-- A mode that does not wait for the second half of a mark keeps a newline. -/
def IsSettled (mode : Mode) : Prop :=
  mode = .code ∨ mode = .lineComment ∨ mode = .blockComment

lemma IsSettled.keeps_newline {mode : Mode} (h : mode.IsSettled) (following : Option Char) :
    mode.keeps '\n' following = true := by
  rcases h with rfl | rfl | rfl <;> rfl

/-- Only the second half of a mark that comes next leaves a mode unsettled. -/
lemma isSettled_next_none (mode : Mode) (c : Char) : (mode.next c none).IsSettled := by
  cases mode with
  | code | lineOpening | blockOpening | blockClosing | blockComment => simp [next, IsSettled]
  | lineComment =>
    simp only [next]
    split <;> simp [IsSettled]

end Mode

variable {mode : Mode} {u : List Char}

/-- What stands in front of a newline is read as if it stood alone. -/
lemma exists_strip_newline (h : mode.IsSettled ∨ u ≠ []) (v : List Char) :
    ∃ behind, strip mode (u ++ '\n' :: v) = strip mode u ++ '\n' :: strip behind v := by
  induction u generalizing mode with
  | nil =>
    have hkeeps := (h.resolve_right (· rfl)).keeps_newline v.head?
    exact ⟨mode.next '\n' v.head?, by rw [List.nil_append, strip.eq_2, if_pos hkeeps]; rfl⟩
  | cons c u ih =>
    have hhead : mode.keeps c (u ++ '\n' :: v).head? = mode.keeps c u.head? ∧
        mode.next c (u ++ '\n' :: v).head? = mode.next c u.head? := by
      cases u with
      | nil => exact mode.keeps_and_next_newline c
      | cons d u => exact ⟨rfl, rfl⟩
    have hsettled : (mode.next c u.head?).IsSettled ∨ u ≠ [] := by
      cases u with
      | nil => exact Or.inl (mode.isSettled_next_none c)
      | cons d u => exact Or.inr (List.cons_ne_nil d u)
    obtain ⟨behind, hbehind⟩ := ih hsettled
    refine ⟨behind, ?_⟩
    rw [List.cons_append, strip, strip, hhead.1, hhead.2, hbehind]
    split <;> rfl

end LogicalLines

open LogicalLines in
/-- The logical lines in front of a newline are the first ones of the whole text. -/
lemma exists_logicalLines_newline (u v : List Char) :
    ∃ more, logicalLines (u ++ '\n' :: v) = logicalLines u ++ more := by
  have hsettled : Mode.code.IsSettled ∨ u ≠ [] := Or.inl (Or.inl rfl)
  obtain ⟨behind, hstrip⟩ := exists_strip_newline hsettled v
  exact ⟨tidy (pieces (strip behind v)), by
    rw [logicalLines_eq, hstrip, tidy_pieces_newline, ← logicalLines_eq]⟩

namespace RemoteInterface

/-! ### Reading on -/

/-- One interface goes on as another: the head stays the same, and the members of the one come first
among those of the other. -/
structure GoesOn (i j : RemoteInterface) : Prop where
  name_eq : j.name = i.name
  module_eq : j.module = i.module
  inheritedNames_eq : j.inheritedNames = i.inheritedNames
  operations : i.operations <+: j.operations
  attributes : i.attributes <+: j.attributes

namespace GoesOn

variable {i j k : RemoteInterface}

lemma refl (i : RemoteInterface) : i.GoesOn i :=
  ⟨rfl, rfl, rfl, List.prefix_rfl, List.prefix_rfl⟩

lemma trans (h : i.GoesOn j) (h' : j.GoesOn k) : i.GoesOn k where
  name_eq := h'.name_eq.trans h.name_eq
  module_eq := h'.module_eq.trans h.module_eq
  inheritedNames_eq := h'.inheritedNames_eq.trans h.inheritedNames_eq
  operations := h.operations.trans h'.operations
  attributes := h.attributes.trans h'.attributes

/-- A line adds at most one member behind the others. -/
lemma addMember (i : RemoteInterface) (line : List Char) : i.GoesOn (i.addMember line) := by
  rw [RemoteInterface.addMember]
  split
  · exact ⟨rfl, rfl, rfl, List.prefix_append _ _, List.prefix_rfl⟩
  · split
    · exact ⟨rfl, rfl, rfl, List.prefix_rfl, List.prefix_append _ _⟩
    · exact refl i

end GoesOn

namespace Reading

/-- What one line does to a reading: it adds to the open interface, finishes it, or leaves the
finished ones as they are when none is open. -/
lemma read_cases (r : Reading) (line : List Char) :
    (∃ i, r.current = some i ∧ (r.read line).finished = r.finished ∧
      (r.read line).current = some (i.addMember line)) ∨
    (∃ i, r.current = some i ∧ (r.read line).finished = r.finished ++ [i] ∧
      (r.read line).current = none) ∨
    (r.current = none ∧ (r.read line).finished = r.finished) := by
  cases hcurrent : r.current with
  | some i =>
    by_cases hclose : line.head? = some '}'
    · exact Or.inr (Or.inl ⟨i, rfl, by simp [read, hcurrent, hclose], by
        simp [read, hcurrent, hclose]⟩)
    · exact Or.inl ⟨i, rfl, by simp [read, hcurrent, hclose], by simp [read, hcurrent, hclose]⟩
  | none =>
    refine Or.inr (Or.inr ⟨rfl, ?_⟩)
    simp only [read, hcurrent]
    split <;> rfl

/-- Reading on keeps the finished interfaces, and the open one is among what is read behind them with
at least its members. -/
lemma exists_interfaces_foldl_read (lines : List (List Char)) (r : Reading) :
    ∃ opened more, (lines.foldl read r).interfaces = r.finished ++ (opened ++ more) ∧
      List.Forall₂ GoesOn r.current.toList opened := by
  induction lines generalizing r with
  | nil =>
    exact ⟨r.current.toList, [], by rw [List.append_nil]; rfl,
      List.forall₂_same.2 fun i _ => .refl i⟩
  | cons line lines ih =>
    obtain ⟨opened, more, hinterfaces, hgoesOn⟩ := ih (r.read line)
    rw [List.foldl_cons, hinterfaces]
    rcases read_cases r line with
      ⟨i, hopen, hfinished, hcurrent⟩ | ⟨i, hopen, hfinished, hcurrent⟩ | ⟨hopen, hfinished⟩
    · rw [hcurrent, Option.toList_some, List.forall₂_cons_left_iff] at hgoesOn
      obtain ⟨j, rest, hj, hrest, rfl⟩ := hgoesOn
      refine ⟨j :: rest, more, by rw [hfinished], ?_⟩
      rw [hopen]
      exact .cons ((GoesOn.addMember i line).trans hj) hrest
    · refine ⟨[i], opened ++ more, by rw [hfinished, List.append_assoc], ?_⟩
      rw [hopen]
      exact .cons (.refl i) .nil
    · refine ⟨[], opened ++ more, by rw [hfinished, List.nil_append], ?_⟩
      rw [hopen]
      exact .nil

end Reading

/-! ### Documents -/

/-- The interfaces of a part of a document beside those of the whole: all of them are there, and only
the last one may have lost members at its end. -/
structure BeginLike (part whole : List RemoteInterface) : Prop where
  length_le : part.length ≤ whole.length
  getElem?_eq : ∀ n, n + 1 < part.length → part[n]? = whole[n]?
  last : ∀ i, part.getLast? = some i →
    ∃ j, whole[part.length - 1]? = some j ∧ i.GoesOn j

lemma beginLike_interfaces (lines more : List (List Char)) :
    BeginLike (ofLines lines) (ofLines (lines ++ more)) := by
  rw [ofLines, ofLines, List.foldl_append, Reading.interfaces]
  generalize lines.foldl Reading.read Reading.start = r
  obtain ⟨opened, rest, hinterfaces, hgoesOn⟩ := r.exists_interfaces_foldl_read more
  rw [hinterfaces]
  cases hcurrent : r.current with
  | none =>
    rw [Option.toList_none, List.append_nil]
    refine ⟨by simp, fun n hn => ?_, fun i hi => ⟨i, ?_, .refl i⟩⟩
    · rw [List.getElem?_append_left (by omega)]
    · rw [List.getLast?_eq_getElem?] at hi
      rw [List.getElem?_append_left (List.getElem?_eq_some_iff.1 hi).1, hi]
  | some i =>
    rw [hcurrent, Option.toList_some, List.forall₂_cons_left_iff] at hgoesOn
    obtain ⟨j, opened, hj, hnil, rfl⟩ := hgoesOn
    rw [Option.toList_some]
    refine ⟨by simp, fun n hn => ?_, fun i' hi' => ⟨j, ?_, ?_⟩⟩
    · rw [List.length_append, List.length_singleton] at hn
      rw [List.getElem?_append_left (by omega), List.getElem?_append_left (by omega)]
    · simp
    · rw [List.getLast?_concat, Option.some.injEq] at hi'
      exact hi' ▸ hj

/-- A malformed document has no interfaces, so leniency makes no difference to what is read. -/
lemma parseOrEmpty_eq (document path : String) :
    parseOrEmpty document path = ofLines (logicalLines document.toList) := by
  simp only [parseOrEmpty, parse]
  by_cases hmalformed : (ofLines (logicalLines document.toList)).isEmpty ∧
      countIn '{' (logicalLines document.toList) ≠ countIn '}' (logicalLines document.toList)
  · rw [if_pos hmalformed]
    exact (List.isEmpty_iff.1 hmalformed.1).symm
  · rw [if_neg hmalformed]

/-- **A truncated document loses nothing that came before the cut.**  When a document is cut in front
of a newline, in a comment or not, it declares no more interfaces than the whole; all but its last one
are those of the whole at the same places, and the last one has the head of its counterpart, with its
operations and attributes the first ones of the counterpart. -/
theorem parseOrEmpty_truncated (document rest path : String) :
    BeginLike (parseOrEmpty document path) (parseOrEmpty (document ++ "\n" ++ rest) path) := by
  have htext : (document ++ "\n" ++ rest).toList = document.toList ++ '\n' :: rest.toList := by
    simp [String.toList_append]
  obtain ⟨more, hlines⟩ := exists_logicalLines_newline document.toList rest.toList
  rw [parseOrEmpty_eq, parseOrEmpty_eq, htext, hlines]
  exact beginLike_interfaces _ _

end RemoteInterface

end Survey
