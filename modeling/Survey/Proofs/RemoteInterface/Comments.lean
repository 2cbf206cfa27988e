/-
# Comments and newlines between the parts of a document

A newline ends a logical line wherever it stands, also in a comment; a comment without a newline is
taken out and leaves nothing behind.  So a document may be laid out freely only between its logical
lines.  Inside a line a comment stands for nothing at all, which is as good as a space as long as the
comment does not stand directly between two characters that a type can have: characters of words, colons
and angle brackets.
-/
import Survey.Proofs.RemoteInterface.LineSpacing

namespace Survey

open Survey.Text

namespace LogicalLines

/-! ### The lines around a place -/

/-- Between a place and the start or the end of its logical line only blanks stand. -/
def AtLineEdge (u v : List Char) : Prop :=
  (∀ piece ∈ (pieces u).getLast?, ∀ c ∈ piece, isBlank c = true) ∨
    ∀ piece ∈ (pieces v).head?, ∀ c ∈ piece, isBlank c = true

/-- The pieces of two texts, alone and side by side with a gap between them. -/
structure Meet (u v : List Char) (done : List (List Char)) (last first : List Char)
    (more : List (List Char)) : Prop where
  left : pieces u = done ++ [last]
  right : pieces v = first :: more
  last_suffix_left : last <:+ u
  first_prefix_right : first <+: v
  joined : ∀ gap, (∀ c ∈ gap, isMark c = false) →
    pieces (u ++ (gap ++ v)) = done ++ (last ++ (gap ++ first)) :: more
  broken : pieces (u ++ '\n' :: v) = done ++ last :: first :: more

variable {a b u v x : List Char}

lemma exists_meet (u v : List Char) : ∃ done last first more, Meet u v done last first more := by
  obtain ⟨done, last, hlast, happend⟩ := exists_pieces_append u
  obtain ⟨first, more, hfirst, hprefix⟩ := exists_pieces_eq_cons v
  have hleft := happend []
  rw [List.append_nil, pieces, prependHead_cons, List.append_nil] at hleft
  refine ⟨done, last, first, more, hleft, hfirst, hlast, hprefix, fun gap hgap => ?_, ?_⟩
  · rw [happend, pieces_append_of_not_isMark hgap, hfirst, prependHead_cons, prependHead_cons]
  · rw [happend, pieces, if_pos rfl, hfirst, prependHead_cons, List.append_nil]

/-- A newline keeps the lines before it and behind it apart. -/
lemma tidy_pieces_newline (u v : List Char) :
    tidy (pieces (u ++ '\n' :: v)) = tidy (pieces u) ++ tidy (pieces v) := by
  obtain ⟨done, last, first, more, hmeet⟩ := exists_meet u v
  rw [hmeet.broken, hmeet.left, hmeet.right, ← tidy_append, List.append_assoc,
    List.singleton_append]

/-- Newlines one after the other count once. -/
lemma tidy_pieces_newlines (hx : ∀ c ∈ x, c = '\n') (hne : x ≠ []) (u v : List Char) :
    tidy (pieces (u ++ (x ++ v))) = tidy (pieces u) ++ tidy (pieces v) := by
  induction x generalizing u with
  | nil => exact absurd rfl hne
  | cons c x ih =>
    obtain rfl : c = '\n' := hx c (by simp)
    rw [List.cons_append, tidy_pieces_newline]
    by_cases hnil : x = []
    · rw [hnil, List.nil_append]
    · -- the newlines that are left have an empty text in front of them
      have hempty : tidy (pieces []) = [] := by decide
      have hrest := ih (fun d hd => hx d (List.mem_cons_of_mem _ hd)) hnil []
      rw [List.nil_append, hempty, List.nil_append] at hrest
      rw [hrest]

/-- At the edge of a line blanks count no more than a newline. -/
lemma AtLineEdge.tidy_pieces_eq (h : AtLineEdge u v) {gap : List Char}
    (hgap : ∀ c ∈ gap, isBlank c = true ∧ isMark c = false) :
    tidy (pieces (u ++ (gap ++ v))) = tidy (pieces u) ++ tidy (pieces v) := by
  obtain ⟨done, last, first, more, hmeet⟩ := exists_meet u v
  have hitem : tidy [last ++ (gap ++ first)] = tidy [last, first] := by
    have hblank : ∀ c ∈ gap, isBlank c = true := fun c hc => (hgap c hc).1
    rcases h with hlast | hfirst
    · have hlast : ∀ c ∈ last, isBlank c = true := hlast last (by simp [hmeet.left])
      simp [tidy, nonEmpty, trim_append_of_blank_left hlast, trim_append_of_blank_left hblank,
        trim_eq_nil_of_blank hlast]
    · have hfirst : ∀ c ∈ first, isBlank c = true := hfirst first (by simp [hmeet.right])
      simp [tidy, nonEmpty, List.filter_cons, trim_eq_nil_of_blank hfirst,
        trim_append_of_blank_right (List.forall_mem_append.2 ⟨hblank, hfirst⟩)]
  calc tidy (pieces (u ++ (gap ++ v)))
      = tidy done ++ (tidy [last ++ (gap ++ first)] ++ tidy more) := by
        rw [hmeet.joined gap fun c hc => (hgap c hc).2, ← tidy_append, ← tidy_append,
          List.singleton_append]
    _ = tidy done ++ (tidy [last, first] ++ tidy more) := by rw [hitem]
    _ = tidy (pieces u) ++ tidy (pieces v) := by
        rw [hmeet.left, hmeet.right, ← tidy_append, ← tidy_append, ← tidy_append,
          List.append_assoc]
        rfl

/-! ### Documents in two parts -/

/-- What takes the place of a space leaves its newlines behind. -/
lemma strip_newline_or_comment (hx : x = ['\n'] ∨ IsComment x) (b : List Char) :
    strip .code (x ++ b) = x.filter (· == '\n') ++ strip .code b := by
  rcases hx with rfl | hx
  · exact strip_cons (by decide) b
  · exact strip_comment_append hx b

section

variable (ha : Mode.code.after a = .code) (hlast : a.getLast? ≠ some '/')
include ha hlast

lemma logicalLines_append (b : List Char) :
    logicalLines (a ++ b) = tidy (pieces (strip .code a ++ strip .code b)) := by
  rw [logicalLines_eq, strip_append ha fun h => absurd h hlast]

lemma logicalLines_space (b : List Char) :
    logicalLines (a ++ ([' '] ++ b)) =
      tidy (pieces (strip .code a ++ ([' '] ++ strip .code b))) := by
  rw [logicalLines_append ha hlast, List.singleton_append, strip_cons (by decide),
    List.singleton_append]

lemma logicalLines_of_newline_mem (hx : x = ['\n'] ∨ IsComment x) (hmem : '\n' ∈ x)
    (b : List Char) :
    logicalLines (a ++ (x ++ b)) =
      tidy (pieces (strip .code a)) ++ tidy (pieces (strip .code b)) := by
  rw [logicalLines_append ha hlast, strip_newline_or_comment hx,
    tidy_pieces_newlines (by simp) (List.ne_nil_of_mem (List.mem_filter.2 ⟨hmem, rfl⟩))]

lemma logicalLines_of_newline_notMem (hx : x = ['\n'] ∨ IsComment x) (hmem : '\n' ∉ x)
    (b : List Char) :
    logicalLines (a ++ (x ++ b)) = tidy (pieces (strip .code a ++ strip .code b)) := by
  have hnone : x.filter (· == '\n') = [] := by
    rw [List.filter_eq_nil_iff]
    intro c hc
    simp only [beq_iff_eq]
    rintro rfl
    exact hmem hc
  rw [logicalLines_append ha hlast, strip_newline_or_comment hx, hnone, List.nil_append]

/-- At the edge of a line everything that takes the place of a space is as good as one. -/
lemma logicalLines_of_atLineEdge (hx : x = ['\n'] ∨ IsComment x)
    (h : AtLineEdge (strip .code a) (strip .code b)) :
    logicalLines (a ++ (x ++ b)) = logicalLines (a ++ ([' '] ++ b)) := by
  rw [logicalLines_space ha hlast, h.tidy_pieces_eq (List.forall_mem_singleton.2 (by decide))]
  by_cases hmem : '\n' ∈ x
  · exact logicalLines_of_newline_mem ha hlast hx hmem b
  · rw [logicalLines_of_newline_notMem ha hlast hx hmem]
    exact h.tidy_pieces_eq (List.forall_mem_nil _)

end

end LogicalLines

open LogicalLines

namespace RemoteInterface

/-! ### Reading lines in different spacing -/

section

variable {i i' : RemoteInterface} {line line' : List Char}

lemma LinesAlike.refl (line : List Char) : LinesAlike line line where
  head := rfl
  last := rfl
  count _ _ := rfl
  keyword := rfl
  module := rfl
  names := by
    cases RemoteShape.interfaceLine.find? line with
    | none => exact .none
    | some m => exact .some ⟨rfl, rfl⟩
  operation := rfl
  «attribute» := rfl

lemma LinesAlike.contains_eq (h : LinesAlike line line') {c : Char} (hc : c ≠ ' ') :
    line.contains c = line'.contains c := by
  rw [Bool.eq_iff_iff, List.contains_iff_mem, List.contains_iff_mem, ← List.count_pos_iff,
    ← List.count_pos_iff, h.count c hc]

lemma LinesAlike.closedUp_addMember (h : LinesAlike line line') (hi : i.closedUp = i'.closedUp) :
    (i.addMember line).closedUp = (i'.addMember line').closedUp := by
  simp only [closedUp, mk.injEq] at hi
  obtain ⟨hname, hmodule, hoperations, hattributes, hbases⟩ := hi
  have hoperation := congrArg Option.toList h.operation
  have hattribute := congrArg Option.toList h.attribute
  rw [Option.toList_map, Option.toList_map] at hoperation hattribute
  rw [addMember, addMember, h.contains_eq (by decide), h.contains_eq (by decide), h.keyword]
  split
  · simp only [closedUp, List.map_append, hname, hmodule, hoperations, hattributes, hbases,
      hoperation]
  · split
    · simp only [closedUp, List.map_append, hname, hmodule, hoperations, hattributes, hbases,
        hattribute]
    · simp only [closedUp, hname, hmodule, hoperations, hattributes, hbases]

lemma LinesAlike.closedUp_opened? (h : LinesAlike line line') (module : String) :
    (opened? module line).map closedUp = (opened? module line').map closedUp := by
  have hnames := h.names
  rw [opened?, opened?, h.last]
  generalize RemoteShape.interfaceLine.find? line = found at hnames
  generalize RemoteShape.interfaceLine.find? line' = found' at hnames
  cases hnames with
  | none => rfl
  | @some m m' hm =>
    obtain ⟨hname, hbases⟩ := hm
    have hmap (names : List (List Char)) : (names.map String.ofList).map closeUpText =
        (names.map (closeUp RemoteShape.isTypeChar)).map String.ofList := by
      simp [closeUpText]
    by_cases hlast : line'.getLast? = some ';'
    · simp only [hlast, if_true]
    · have hinherited := congrArg (List.map String.ofList) hbases
      rw [← hmap, ← hmap] at hinherited
      simp only [hlast, if_false, Option.map_some, Option.some.injEq, closedUp, mk.injEq]
      exact ⟨congrArg String.ofList hname, trivial, trivial, trivial, hinherited⟩

/-- What has been read, closed up. -/
def Reading.closedUp (r : Reading) : Reading :=
  { r with
    current := r.current.map RemoteInterface.closedUp
    finished := r.finished.map RemoteInterface.closedUp }

lemma LinesAlike.closedUp_read (h : LinesAlike line line') {r r' : Reading}
    (hr : r.closedUp = r'.closedUp) : (r.read line).closedUp = (r'.read line').closedUp := by
  obtain ⟨module, current, finished⟩ := r
  obtain ⟨module', current', finished'⟩ := r'
  simp only [Reading.closedUp, Reading.mk.injEq] at hr
  obtain ⟨rfl, hcurrent, hfinished⟩ := hr
  cases current with
  | none =>
    -- between interfaces a line names a module or opens an interface
    obtain rfl : current' = none := by simpa using hcurrent.symm
    have hmodule := h.module
    simp only [Reading.read]
    generalize RemoteShape.moduleLine.find? line = found at hmodule
    generalize RemoteShape.moduleLine.find? line' = found' at hmodule
    cases found with
    | none =>
      obtain rfl : found' = none := by simpa using hmodule.symm
      simp [Reading.closedUp, hfinished, h.closedUp_opened?]
    | some m =>
      obtain ⟨m', rfl, hname⟩ := Option.map_eq_some_iff.1 hmodule.symm
      simp [Reading.closedUp, hfinished, hname]
  | some i =>
    obtain ⟨i', rfl, hi⟩ := Option.map_eq_some_iff.1 hcurrent.symm
    replace hi := hi.symm
    simp only [Reading.read, h.head]
    split
    · simp [Reading.closedUp, hfinished, hi]
    · simp [Reading.closedUp, hfinished, h.closedUp_addMember hi]

end

variable {lines lines' : List (List Char)}

lemma closedUp_foldl_read (h : List.Forall₂ LinesAlike lines lines') {r r' : Reading}
    (hr : r.closedUp = r'.closedUp) :
    (lines.foldl Reading.read r).closedUp = (lines'.foldl Reading.read r').closedUp := by
  induction h generalizing r r' with
  | nil => exact hr
  | cons hline hlines ih => exact ih (hline.closedUp_read hr)

lemma closedUp_ofLines (h : List.Forall₂ LinesAlike lines lines') :
    (ofLines lines).map closedUp = (ofLines lines').map closedUp := by
  have hread := closedUp_foldl_read h (rfl : Reading.start.closedUp = Reading.start.closedUp)
  rw [ofLines, ofLines]
  generalize lines.foldl Reading.read .start = r at hread ⊢
  generalize lines'.foldl Reading.read .start = r' at hread ⊢
  simp only [Reading.closedUp, Reading.mk.injEq] at hread
  have hcurrent := congrArg Option.toList hread.2.1
  rw [Option.toList_map, Option.toList_map] at hcurrent
  simp only [Reading.interfaces, List.map_append, hread.2.2, hcurrent]

lemma countIn_eq (h : List.Forall₂ LinesAlike lines lines') {c : Char} (hc : c ≠ ' ') :
    countIn c lines = countIn c lines' := by
  induction h with
  | nil => rfl
  | cons hline hlines ih =>
    simp only [countIn, List.flatten_cons, List.count_append] at ih ⊢
    rw [hline.count c hc, ih]

/-- Documents with lines alike declare the same interfaces up to spacing. -/
lemma map_closedUp_parse {document document' : List Char}
    (h : List.Forall₂ LinesAlike (logicalLines document) (logicalLines document')) (path : String) :
    (parse (String.ofList document) path).map (·.map closedUp) =
      (parse (String.ofList document') path).map (·.map closedUp) := by
  have hinterfaces := closedUp_ofLines h
  have hempty : (ofLines (logicalLines document)).isEmpty =
      (ofLines (logicalLines document')).isEmpty := by
    rw [← List.isEmpty_map, hinterfaces, List.isEmpty_map]
  have hopened := countIn_eq h (c := '\x7b') (by decide)
  have hclosed := countIn_eq h (c := '\x7d') (by decide)
  simp only [parse, String.toList_ofList, hempty, hopened, hclosed]
  split
  · rfl
  · exact congrArg Except.ok hinterfaces

/-! ### Documents -/

/-- The interfaces of a document that is put together from two parts and a text between them. -/
def parseAround (a b : List Char) (path : String) (x : List Char) :
    Except Failure (List RemoteInterface) :=
  parse (String.ofList (a ++ (x ++ b))) path

lemma parseAround_congr {a b x y : List Char}
    (h : logicalLines (a ++ (x ++ b)) = logicalLines (a ++ (y ++ b))) (path : String) :
    parseAround a b path x = parseAround a b path y := by
  simp only [parseAround, parse, String.toList_ofList, h]

/-- A space between parts that are apart makes lines that read the same up to spacing. -/
lemma forall₂_linesAlike_of_apart {u v : List Char} (h : Apart RemoteShape.isTypeChar u v) :
    List.Forall₂ LinesAlike (tidy (pieces (u ++ v))) (tidy (pieces (u ++ ([' '] ++ v)))) := by
  have hrefl (lines : List (List Char)) : List.Forall₂ LinesAlike lines lines :=
    List.forall₂_same.2 fun line _ => .refl line
  by_cases hedge : AtLineEdge u v
  · -- a blank at the edge of a line is trimmed off it
    have hnone := hedge.tidy_pieces_eq (List.forall_mem_nil _)
    rw [List.nil_append] at hnone
    rw [hnone, hedge.tidy_pieces_eq (List.forall_mem_singleton.2 (by decide))]
    exact hrefl _
  · obtain ⟨done, last, first, more, hmeet⟩ := exists_meet u v
    have hlast : ¬ ∀ c ∈ last, isBlank c = true := fun hblank =>
      hedge (Or.inl (by simpa [hmeet.left] using hblank))
    have hfirst : ¬ ∀ c ∈ first, isBlank c = true := fun hblank =>
      hedge (Or.inr (by simpa [hmeet.right] using hblank))
    -- only the line around the place has the space in it: that line without the blanks at its
    -- ends is cut in two, and all others stay as they are
    let g : Pattern.Seam RemoteShape.isTypeChar := {
      front := trimStart last
      back := trimEnd first
      front_ne_nil := by rwa [trimStart, ne_eq, List.dropWhile_eq_nil_iff]
      back_ne_nil := by
        rw [trimEnd, ne_eq, List.reverse_eq_nil_iff, List.dropWhile_eq_nil_iff]
        simpa only [List.mem_reverse] using hfirst
      apart := h.of_parts ((List.dropWhile_suffix isBlank).trans hmeet.last_suffix_left)
        ((trimEnd_prefix_self first).trans hmeet.first_prefix_right)
      token_space := by decide }
    have hline (gap : List Char) (hgap : ∀ c ∈ gap, isMark c = false) :
        tidy (pieces (u ++ (gap ++ v))) =
          tidy done ++ ([g.front ++ (gap ++ g.back)] ++ tidy more) := by
      have htrim : trim (last ++ (gap ++ first)) = g.front ++ (gap ++ g.back) := by
        rw [trim, trimStart_append hlast, ← List.append_assoc, trimEnd_append hfirst,
          List.append_assoc]
      have hne : g.front ++ (gap ++ g.back) ≠ [] := by simp [g.front_ne_nil]
      have hitem : tidy [last ++ (gap ++ first)] = [g.front ++ (gap ++ g.back)] := by
        rw [tidy, List.map_singleton, htrim, nonEmpty, List.filter_cons_of_pos (by simpa using hne)]
        rfl
      rw [hmeet.joined gap hgap, tidy_append, ← List.singleton_append, tidy_append, hitem]
    have hclosed := hline [] (List.forall_mem_nil _)
    rw [List.nil_append] at hclosed
    rw [hclosed, hline [' '] (List.forall_mem_singleton.2 (by decide))]
    exact List.rel_append (hrefl _)
      (List.rel_append (.cons (linesAlike_spaced g) .nil) (hrefl _))

/-- **Newlines and comments in place of a space.**  What stands between two parts of a document, the
first of which ends in no comment, counts as a newline when it has one and as nothing otherwise.  At
the edge of a logical line that is as good as a space.  Inside a line it is, up to spacing, as long
as no two characters of types meet, that is of words, colons and angle brackets. -/
theorem parseAround_comment_or_newline {a b x : List Char} (path : String)
    (ha : Mode.code.after a = .code) (hlast : a.getLast? ≠ some '/')
    (hx : x = ['\n'] ∨ IsComment x) :
    ('\n' ∈ x → parseAround a b path x = parseAround a b path ['\n']) ∧
    ('\n' ∉ x → parseAround a b path x = parseAround a b path []) ∧
    (AtLineEdge (strip .code a) (strip .code b) →
      parseAround a b path x = parseAround a b path [' ']) ∧
    ('\n' ∉ x → Apart RemoteShape.isTypeChar (strip .code a) (strip .code b) →
      (parseAround a b path x).map (·.map closedUp) =
        (parseAround a b path [' ']).map (·.map closedUp)) := by
  refine ⟨fun hmem => parseAround_congr ?_ path, fun hmem => parseAround_congr ?_ path,
    fun hedge => parseAround_congr (logicalLines_of_atLineEdge ha hlast hx hedge) path,
    fun hmem hapart => map_closedUp_parse ?_ path⟩
  · have hnewline : '\n' ∈ ['\n'] := List.mem_singleton_self _
    rw [logicalLines_of_newline_mem ha hlast hx hmem,
      logicalLines_of_newline_mem ha hlast (Or.inl rfl) hnewline]
  · rw [logicalLines_of_newline_notMem ha hlast hx hmem, List.nil_append,
      logicalLines_append ha hlast]
  · rw [logicalLines_of_newline_notMem ha hlast hx hmem, logicalLines_space ha hlast]
    exact forall₂_linesAlike_of_apart hapart

/-- A comment behind the parenthesis that opens a parameter list. -/
theorem parseAround_comment_in_parameters :
    (Mode.code.after "interface I\x7bvoid f(".toList = .code ∧
      "interface I\x7bvoid f(".toList.getLast? ≠ some '/' ∧ IsComment "/* ticket */".toList ∧
      '\n' ∉ "/* ticket */".toList ∧
      Apart RemoteShape.isTypeChar (strip .code "interface I\x7bvoid f(".toList)
        (strip .code "in long n);\x7d;".toList)) ∧
    (parseAround "interface I\x7bvoid f(".toList "in long n);\x7d;".toList "i.idl"
        "/* ticket */".toList).map (·.map closedUp) =
      (parseAround "interface I\x7bvoid f(".toList "in long n);\x7d;".toList "i.idl" [' ']).map
        (·.map closedUp) := by
  have ha : Mode.code.after "interface I\x7bvoid f(".toList = .code := by decide +kernel
  have hlast : "interface I\x7bvoid f(".toList.getLast? ≠ some '/' := by decide +kernel
  have hx : IsComment "/* ticket */".toList :=
    ⟨" ticket ".toList, by decide +kernel, by decide +kernel⟩
  have hline : '\n' ∉ "/* ticket */".toList := by decide +kernel
  have hapart : Apart RemoteShape.isTypeChar (strip .code "interface I\x7bvoid f(".toList)
      (strip .code "in long n);\x7d;".toList) := by decide +kernel
  exact ⟨⟨ha, hlast, hx, hline, hapart⟩,
    (parseAround_comment_or_newline "i.idl" ha hlast (Or.inr hx)).2.2.2 hline hapart⟩

/-- Neither a newline nor a comment can take the place of every space: a newline breaks a parameter
list, and a comment joins a type and a name. -/
theorem not_all_spaces_replaceable :
    (¬ ∀ a b path, Mode.code.after a = .code → a.getLast? ≠ some '/' →
      parseAround a b path ['\n'] = parseAround a b path [' ']) ∧
    ¬ ∀ a x b path, Mode.code.after a = .code → a.getLast? ≠ some '/' → IsComment x →
      parseAround a b path x = parseAround a b path [' '] := by
  constructor
  · intro h
    have hsame := h "interface I\x7bvoid f(".toList "in long n);\x7d;".toList "i.idl"
      (by decide +kernel) (by decide +kernel)
    revert hsame
    decide +kernel
  · intro h
    have hsame := h "interface I\x7bvoid".toList "/**/".toList "f();\x7d;".toList "i.idl"
      (by decide +kernel) (by decide +kernel) ⟨[], by decide +kernel, by decide +kernel⟩
    revert hsame
    decide +kernel

end RemoteInterface

end Survey
