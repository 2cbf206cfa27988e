/-
# Annotations in printed lines

An annotation is printed as its name behind an at sign, and blanks may stand behind it.  The search
for annotations finds a printed one at its at sign and is silent elsewhere, so a printed line shows
the names printed in it (`namesIn_printMarks`).

The annotations of a place are those of the complete lines in front of it, as far as the upward walk
goes, and those in front of it on its own line (`namesAt_byteLength`).
-/
import Survey.Proofs.Declaration.Annotations
import Survey.Proofs.Declaration.KeywordChains
import Survey.Proofs.Text.Lines
import Survey.Proofs.Text.Spacing
import Survey.Proofs.Text.Trim

namespace Survey

open Survey.Text Survey.Pattern Survey.Canonical

namespace Annotated

/-! ### Printed annotations -/

/-- A word that is not reserved. -/
structure Name where
  text : List Char
  isText : WordText text
  not_reserved : String.ofList text ∉ reservedWords

/-- Blanks within a line. -/
abbrev LineBlanks : Type := { u : List Char // ∀ c ∈ u, isBlank c = true ∧ c ≠ '\n' }

/-- An annotation and the blanks behind it. -/
structure Mark where
  name : Name
  gap : LineBlanks

/-- An annotation as it is printed. -/
def Mark.print (mark : Mark) : List Char := '@' :: (mark.name.text ++ mark.gap.1)

/-- Annotations as they are printed. -/
def printMarks (marks : List Mark) : List Char := marks.flatMap Mark.print

/-- The names of annotations. -/
def markNames (marks : List Mark) : List (List Char) := marks.map fun mark => mark.name.text

lemma LineBlanks.all_blank (gap : LineBlanks) : ∀ c ∈ gap.1, isBlank c = true :=
  fun c hc => (gap.2 c hc).1

lemma LineBlanks.at_notMem (gap : LineBlanks) : '@' ∉ gap.1 :=
  fun hmem => absurd (gap.all_blank _ hmem) (by decide)

lemma printMarks_cons (mark : Mark) (marks : List Mark) :
    printMarks (mark :: marks) = '@' :: (mark.name.text ++ (mark.gap.1 ++ printMarks marks)) := by
  simp [printMarks, Mark.print]

lemma printMarks_append (marks marks' : List Mark) :
    printMarks (marks ++ marks') = printMarks marks ++ printMarks marks' := List.flatMap_append

/-- The characters of printed annotations. -/
def IsMarkChar (c : Char) : Prop := c = '@' ∨ isWordChar c = true ∨ isBlank c = true ∧ c ≠ '\n'

lemma IsMarkChar.ne_newline {c : Char} (h : IsMarkChar c) : c ≠ '\n' := by
  rintro rfl
  rcases h with h | h | ⟨-, h⟩
  · exact absurd h (by decide)
  · exact absurd h (by decide)
  · exact h rfl

/-- What ends a statement belongs to no annotation. -/
lemma IsMarkChar.not_boundary {c : Char} (h : IsMarkChar c) :
    Annotations.isStatementBoundary c = false := by
  by_contra hboundary
  have hends : isWordChar c = false ∧ isBlank c = false ∧ c ≠ '@' := by
    simp only [Bool.not_eq_false, Annotations.isStatementBoundary, Bool.or_eq_true, beq_iff_eq]
      at hboundary
    rcases hboundary with (rfl | rfl) | rfl <;> decide
  obtain ⟨hword, hblank, hat⟩ := hends
  rcases h with h | h | ⟨h, -⟩
  · exact hat h
  · simp [hword] at h
  · simp [hblank] at h

lemma isMarkChar_of_mem_printMarks {c : Char} {marks : List Mark} (h : c ∈ printMarks marks) :
    IsMarkChar c := by
  obtain ⟨mark, -, hc⟩ := List.mem_flatMap.1 h
  rcases List.mem_cons.1 hc with rfl | hc
  · exact Or.inl rfl
  · rcases List.mem_append.1 hc with hc | hc
    · exact Or.inr (Or.inl (mark.name.isText.all_wordChar c hc))
    · exact Or.inr (Or.inr (mark.gap.2 c hc))

end Annotated

open Annotated

/-! ### Finding annotations -/

namespace Annotations

/-- A name ends there, and no arguments follow. -/
def EndsMark (back : List Char) : Prop := touchesWord back = false ∧ back.head? ≠ some '('

lemma endsMark_nil : EndsMark [] := ⟨rfl, by simp⟩

lemma endsMark_cons_of_blank {c : Char} (hc : isBlank c = true) (back : List Char) :
    EndsMark (c :: back) := by
  refine ⟨isWordChar_of_isBlank hc, fun h => ?_⟩
  obtain rfl : c = '(' := by simpa using h
  revert hc
  decide

/-- Blanks end a name, and so does what stands behind no blanks. -/
lemma endsMark_append {gap back : List Char} (hgap : ∀ c ∈ gap, isBlank c = true)
    (hback : EndsMark back) : EndsMark (gap ++ back) := by
  cases gap with
  | nil => exact hback
  | cons c gap => exact endsMark_cons_of_blank (hgap c (by simp)) _

/-- What an annotation has behind its name: arguments in parentheses up to the first closing one, or
nothing where no parenthesis is opened or none is closed. -/
inductive ArgumentsOf : List Char → List Char → Prop
  | missing {rest : List Char} (hopen : rest.head? ≠ some '(') : ArgumentsOf [] rest
  | unclosed {rest : List Char} (hclose : ')' ∉ rest) : ArgumentsOf [] rest
  | closed {inner rest : List Char} (hinner : ')' ∉ inner) :
      ArgumentsOf ('(' :: (inner ++ [')'])) rest

/-- The arguments of an annotation are taken. -/
lemma ArgumentsOf.first {args rest : List Char} (h : ArgumentsOf args rest) (front : List Char)
    (groups : List (Nat × Span)) :
    (optional (lit "(" ++ allBefore ')' 0 ++ lit ")")).First
      ⟨.between front (args ++ rest), groups⟩ ⟨.between (front ++ args) rest, groups⟩ := by
  have hbefore {inner : List Char} (hinner : ')' ∉ inner) : ∀ c ∈ inner, (c != ')') = true :=
    fun c hc => bne_iff_ne.2 fun heq => hinner (heq ▸ hc)
  cases h with
  | missing hopen =>
    have hlit : (lit "(").SilentAt rest :=
      silentAt_lit fun ⟨more, hmore⟩ => hopen (by rw [← hmore]; rfl)
    exact ((hlit.append _).append _).optional.first front groups
  | unclosed hclose =>
    by_cases hopen : "(".toList <+: rest
    · -- everything behind the opening parenthesis is gone over, and no closing one comes next
      obtain ⟨more, rfl⟩ := hopen
      have hmore : ')' ∉ more := fun hmem => hclose (List.mem_append_right _ hmem)
      have hall : (allBefore ')' 0).Takes more [] :=
        takes_all (hbefore hmore) (Nat.zero_le _) (by simp)
      have hopened : (lit "(" ++ allBefore ')' 0).Takes ("(".toList ++ more) [] :=
        (takes_lit "(" (more ++ [])).append hall
      have hnone : (lit ")").SilentAt [] := silentAt_lit (by decide)
      have hsilent := hopened.silentAt_append hnone
      rw [List.append_nil] at hsilent
      exact hsilent.optional.first front groups
    · exact (((silentAt_lit hopen).append _).append _).optional.first front groups
  | @closed inner _ hinner =>
    have hall : (allBefore ')' 0).Takes inner (')' :: rest) :=
      takes_all (hbefore hinner) (Nat.zero_le _) (by simp)
    have hopened : (lit "(" ++ allBefore ')' 0).Takes ("(".toList ++ inner) (')' :: rest) :=
      (takes_lit "(" (inner ++ ')' :: rest)).append hall
    have hclosed : (lit "(" ++ allBefore ')' 0 ++ lit ")").Takes
        ("(".toList ++ inner ++ ")".toList) rest := hopened.append (takes_lit ")" rest)
    exact (hclosed.first front groups).optional

/-- The shape of annotations goes over an at sign, a name and the arguments behind it. -/
lemma matchAt?_mark_arguments {w args rest : List Char} (hw : WordText w)
    (hstop : touchesWord (args ++ rest) = false) (h : ArgumentsOf args rest) (front : List Char) :
    Shape.annotationMark.matchAt? (.between front ('@' :: (w ++ (args ++ rest)))) =
      some ⟨.between front ('@' :: (w ++ args)) rest,
        [(1, .between (front ++ ['@']) w (args ++ rest))]⟩ := by
  have hat := (takes_lit "@" (w ++ (args ++ rest))).first front []
  have hname := (takes_all hw.all_wordChar hw.length_pos
    (head_not_wordChar_of_touchesWord hstop)).first_group 1 (front ++ "@".toList) []
  have harguments := h.first (front ++ "@".toList ++ w)
    [(1, .between (front ++ "@".toList) w (args ++ rest))]
  have hfirst : Shape.annotationMark.First _ _ := (hat.append hname).append harguments
  refine (matchAt?_of_first hfirst).trans ?_
  simp only [Span.between, List.append_assoc, List.cons_append]
  rfl

/-- What the shape of annotations matches of a printed one. -/
def markMatch (front w back : List Char) : Match where
  whole := .between front ('@' :: w) back
  groups := [(1, .between (front ++ ['@']) w back)]

lemma matchAt?_mark {w back : List Char} (hw : WordText w) (hback : EndsMark back)
    (front : List Char) :
    Shape.annotationMark.matchAt? (.between front ('@' :: (w ++ back))) =
      some (markMatch front w back) := by
  have hmatch := @matchAt?_mark_arguments w [] back hw hback.1 (.missing hback.2) front
  rw [List.append_nil] at hmatch
  exact hmatch

/-- The matches of printed annotations, one for each. -/
lemma findsIn_printMarks {marks : List Mark} {back : List Char}
    (hback : ∀ mark ∈ marks.getLast?, EndsMark (mark.gap.1 ++ back)) (front : List Char) :
    ∃ ms, Shape.annotationMark.FindsIn front (printMarks marks) back ms ∧
      ms.map (·.groupText 1) = markNames marks := by
  induction marks generalizing front with
  | nil => exact ⟨[], Skips.findsIn trivial, rfl⟩
  | cons mark marks ih =>
    have hrest : ∀ last ∈ marks.getLast?, EndsMark (last.gap.1 ++ back) := by
      intro last hlast
      cases marks with
      | nil => simp at hlast
      | cons next marks => exact hback last (by rwa [List.getLast?_cons_cons])
    have hends : EndsMark (mark.gap.1 ++ (printMarks marks ++ back)) := by
      cases marks with
      | nil => exact hback mark rfl
      | cons next marks =>
        rw [printMarks_cons]
        exact endsMark_append mark.gap.all_blank ⟨rfl, by simp⟩
    obtain ⟨ms, hfinds, hnames⟩ := ih hrest (front ++ '@' :: mark.name.text ++ mark.gap.1)
    have hfound : Shape.annotationMark.FindsIn front ('@' :: mark.name.text)
        (mark.gap.1 ++ (printMarks marks ++ back)) [markMatch front mark.name.text _] :=
      findsIn_of_matchAt? (by simp) (matchAt?_mark mark.name.isText hends front) rfl
    have hgap := (silent_of_at_notMem mark.gap.at_notMem (printMarks marks ++ back)).findsIn
      (front ++ '@' :: mark.name.text)
    rw [← List.append_assoc] at hfound
    refine ⟨markMatch front mark.name.text (mark.gap.1 ++ printMarks marks ++ back) :: ms, ?_, ?_⟩
    · rw [printMarks_cons, ← List.cons_append]
      exact hfound.append (hgap.append hfinds)
    · rw [List.map_cons, hnames]
      exact congrArg (· :: markNames marks) (Span.text_between _ _ _)

lemma namesIn_of_findsIn {text : List Char} {ms : List Match} {names : List (List Char)}
    (h : Shape.annotationMark.FindsIn [] text [] ms) (hnames : ms.map (·.groupText 1) = names) :
    namesIn text = names.map String.ofList := by
  rw [namesIn, findAll_of_finds (h.finds silentAt_annotationMark_nil), ← hnames, List.map_map]
  rfl

/-- A line shows the annotations that are printed in it. -/
lemma namesIn_printMarks {u back : List Char} {marks : List Mark} (hu : '@' ∉ u) (hat : '@' ∉ back)
    (hback : ∀ mark ∈ marks.getLast?, EndsMark (mark.gap.1 ++ back)) :
    namesIn (u ++ (printMarks marks ++ back)) = (markNames marks).map String.ofList := by
  obtain ⟨ms, hfinds, hnames⟩ := findsIn_printMarks hback ([] ++ u)
  have hfront := (silent_of_at_notMem hu (printMarks marks ++ back ++ [])).findsIn []
  have hrest := (silent_of_at_notMem hat []).findsIn ([] ++ u ++ printMarks marks)
  rw [← List.append_nil back] at hfinds
  exact namesIn_of_findsIn (hfront.append (hfinds.append hrest)) (by simpa using hnames)

/-- A name at the end of a line counts too. -/
lemma namesIn_printMarks_append_mark {u w : List Char} (hu : '@' ∉ u) (marks : List Mark)
    (hw : WordText w) :
    namesIn (u ++ (printMarks marks ++ '@' :: w)) =
      (markNames marks ++ [w]).map String.ofList := by
  have hback : ∀ mark ∈ marks.getLast?, EndsMark (mark.gap.1 ++ ('@' :: w)) :=
    fun mark _ => endsMark_append mark.gap.all_blank ⟨rfl, by simp⟩
  obtain ⟨ms, hfinds, hnames⟩ := findsIn_printMarks hback ([] ++ u)
  have hfront := (silent_of_at_notMem hu (printMarks marks ++ '@' :: w ++ [])).findsIn []
  have hmark := matchAt?_mark hw endsMark_nil ([] ++ u ++ printMarks marks)
  have hlast := findsIn_of_matchAt? (u := '@' :: w) (by simp) hmark rfl
  rw [← List.append_nil ('@' :: w)] at hfinds
  refine namesIn_of_findsIn (hfront.append (hfinds.append hlast)) ?_
  rw [List.nil_append, List.map_append, hnames]
  exact congrArg (markNames marks ++ [·]) (Span.text_between _ _ _)

/-! ### Annotations of a place -/

/-- **The annotations of a place** are those of the lines above it and those in front of it on its own
line, when no statement ends on that line in front of it. -/
lemma namesAt_byteLength {front own : List Char} {ls : List (List Char)}
    (h : lines front = ls ++ [own]) (hown : ∀ c ∈ own, isStatementBoundary c = false)
    (back : List Char) :
    namesAt (.ofText (front ++ back)) (byteLength front) =
      namesAbove ls.reverse ++ namesIn own := by
  have hstart := lineStart_byteLength h back
  obtain ⟨rfl, -⟩ := eq_of_lines h
  have hslice : slice? (ended ls ++ own ++ back) (byteLength (ended ls))
      (byteLength (ended ls ++ own)) = some own := by
    rw [List.append_assoc]
    exact slice?_append (ended ls) own back
  have hboundary : afterLastBoundary own = (own, false) := by
    have hwhile : own.reverse.takeWhile (!isStatementBoundary ·) = own.reverse :=
      List.takeWhile_eq_self_iff.2 fun c hc => by simp [hown c (List.mem_reverse.1 hc)]
    rw [afterLastBoundary, hwhile, List.reverse_reverse, List.any_eq_false.2 fun c hc => by
      simp [hown c hc]]
  have hcount := newlineCount_of_lines h
  have htake : (lines (ended ls ++ own ++ back)).take ls.length = ls := by
    rw [lines_append h, List.take_left]
  simp only [namesAt, Source.index_ofText, Source.text_ofText, Source.lines_ofText, hstart, hslice,
    Option.getD_some, hboundary, lineOf_byteLength, hcount, Nat.add_sub_cancel_left, namesBefore,
    htake, Bool.false_eq_true, if_false]

end Annotations

end Survey
