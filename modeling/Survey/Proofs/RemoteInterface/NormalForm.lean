/-
# Logical lines as a normal form

A logical line is trimmed and not empty, has no newline in it, opens no comment, and has braces and
semicolons only where a line ends or begins.  These conditions are all there is to logical lines: lines
that meet them are read back from the text that has them one below the other
(`logicalLines_intercalate_newline`), and also from the text that has them on one line when every line
breaks off without the newline (`logicalLines_intercalate_space`).  So reading lines, writing them down
and reading them again changes nothing, and a document on one line is parsed like one on many.
-/
import Survey.Proofs.RemoteInterface.Comments

namespace Survey

open Survey.Text

namespace LogicalLines

/-! ### Lines -/

/-- A line as it comes out of a document. -/
structure IsLogicalLine (line : List Char) : Prop where
  /-- It is not empty. -/
  ne_nil : line ≠ []
  /-- No blank stands at its ends. -/
  trimmed : trim line = line
  /-- No newline stands in it. -/
  no_newline : '\n' ∉ line
  /-- No comment is opened in it. -/
  opensNoComment : OpensNoComment line
  /-- An opening brace can only be its last character. -/
  opens_last : '\x7b' ∉ line.dropLast
  /-- A semicolon can only be its last character. -/
  ends_last : ';' ∉ line.dropLast
  /-- A closing brace can only be its first character. -/
  closes_first : '\x7d' ∉ line.tail

/-- A line ends in front of the next one without a newline: with an opening brace or a semicolon, or
because the next one begins with a closing brace. -/
def BreaksOff (line next : List Char) : Prop :=
  line.getLast? = some '\x7b' ∨ line.getLast? = some ';' ∨ next.head? = some '\x7d'

instance (line next : List Char) : Decidable (BreaksOff line next) :=
  inferInstanceAs (Decidable (_ ∨ _ ∨ _))

instance (line : List Char) : Decidable (OpensNoComment line) :=
  decidable_of_iff (contains ['/', '/'] line = false ∧ contains ['/', '*'] line = false)
    (by rw [OpensNoComment, ← contains_iff, ← contains_iff, Bool.not_eq_true, Bool.not_eq_true])

instance (line : List Char) : Decidable (IsLogicalLine line) :=
  decidable_of_iff
    (line ≠ [] ∧ trim line = line ∧ '\n' ∉ line ∧ OpensNoComment line ∧
      '\x7b' ∉ line.dropLast ∧ ';' ∉ line.dropLast ∧ '\x7d' ∉ line.tail)
    ⟨fun ⟨h₁, h₂, h₃, h₄, h₅, h₆, h₇⟩ => ⟨h₁, h₂, h₃, h₄, h₅, h₆, h₇⟩,
      fun ⟨h₁, h₂, h₃, h₄, h₅, h₆, h₇⟩ => ⟨h₁, h₂, h₃, h₄, h₅, h₆, h₇⟩⟩

variable {c : Char} {u v line : List Char} {lines : List (List Char)}

/-! ### Comments -/

/-- A comment is opened behind a character only if that character opens it with the next one. -/
lemma opensNoComment_cons (hu : OpensNoComment u)
    (hc : c = '/' → ∀ d ∈ u.head?, d ≠ '/' ∧ d ≠ '*') : OpensNoComment (c :: u) := by
  have hnone {d : Char} (hd : d = '/' ∨ d = '*') (habsent : ¬ ['/', d] <:+: u) :
      ¬ ['/', d] <:+: c :: u := by
    intro h
    rcases List.infix_cons_iff.1 h with hprefix | h
    · obtain ⟨hslash, hnext⟩ := List.cons_prefix_cons.1 hprefix
      obtain ⟨rest, rfl⟩ := hnext
      obtain ⟨hline, hblock⟩ := hc hslash.symm d rfl
      exact hd.elim hline hblock
    · exact habsent h
  exact ⟨hnone (Or.inl rfl) hu.1, hnone (Or.inr rfl) hu.2⟩

lemma OpensNoComment.within (h : OpensNoComment u) (hv : v <:+: u) : OpensNoComment v :=
  ⟨fun hslash => h.1 (hslash.trans hv), fun hstar => h.2 (hstar.trans hv)⟩

/-- Taking comments out never brings the two characters of a mark together: behind a slash that stays,
the next character of the text stays too. -/
lemma opensNoComment_strip (mode : Mode) (text : List Char) : OpensNoComment (strip mode text) := by
  induction text generalizing mode with
  | nil => exact opensNoComment_of_notMem List.not_mem_nil
  | cons c rest ih =>
    rw [strip]
    split
    · next hkeeps =>
      refine opensNoComment_cons (ih _) ?_
      rintro rfl d hd
      -- only code keeps a slash, and only if the next character makes no mark of it
      have hmode : mode = .code := by cases mode <;> simp_all [Mode.keeps]
      subst hmode
      cases rest with
      | nil => simp [strip] at hd
      | cons e rest =>
        have hmark : e ≠ '/' ∧ e ≠ '*' := by simpa [Mode.keeps] using hkeeps
        have hnext : Mode.code.next '/' (e :: rest).head? = .code := by simp [Mode.next, hmark]
        rw [hnext, strip_cons hmark.1, List.head?_cons, Option.mem_some_iff] at hd
        exact hd ▸ hmark
    · exact ih _

/-- Lines that open no comment make a text without comments. -/
lemma strip_intercalate {separator : Char} (hseparator : separator ≠ '/' ∧ separator ≠ '*')
    (hlines : ∀ line ∈ lines, OpensNoComment line) :
    strip .code ([separator].intercalate lines) = [separator].intercalate lines := by
  induction lines with
  | nil => rfl
  | cons line lines ih =>
    have hline := hlines line (by simp)
    cases lines with
    | nil =>
      have hstrip := strip_append_of_opensNoComment (v := []) hline fun _ d hd => by simp at hd
      rw [List.append_nil, strip, List.append_nil] at hstrip
      rw [List.intercalate_singleton, hstrip]
    | cons next more =>
      have hmore := ih fun line' hmem => hlines line' (List.mem_cons_of_mem _ hmem)
      have hjoin : ∀ d ∈ (separator :: [separator].intercalate (next :: more)).head?,
          d ≠ '/' ∧ d ≠ '*' := by
        rintro d ⟨rfl⟩
        exact hseparator
      rw [List.intercalate_cons_cons, List.append_assoc, List.singleton_append,
        strip_append_of_opensNoComment hline fun _ => hjoin, strip_cons hseparator.1, hmore]

/-! ### Pieces -/

/-- A piece has a brace or a semicolon only where it ends or begins, and no newline at all. -/
structure IsPiece (piece : List Char) : Prop where
  no_newline : '\n' ∉ piece
  opens_last : '\x7b' ∉ piece.dropLast
  ends_last : ';' ∉ piece.dropLast
  closes_first : '\x7d' ∉ piece.tail

lemma isPiece_nil : IsPiece [] := ⟨by simp, by simp, by simp, by simp⟩

lemma dropLast_sublist_of_sublist (h : u.Sublist v) : u.dropLast.Sublist v.dropLast := by
  have htail := h.reverse.tail
  rwa [List.tail_reverse, List.tail_reverse, List.reverse_sublist] at htail

lemma IsPiece.within (h : IsPiece u) (hv : v <:+: u) : IsPiece v where
  no_newline hmem := h.no_newline (hv.subset hmem)
  opens_last hmem := h.opens_last ((dropLast_sublist_of_sublist hv.sublist).subset hmem)
  ends_last hmem := h.ends_last ((dropLast_sublist_of_sublist hv.sublist).subset hmem)
  closes_first hmem := h.closes_first (hv.sublist.tail.subset hmem)

lemma notMem_dropLast_cons {d : Char} (hu : d ∉ u.dropLast) (hne : c ≠ d) : d ∉ (c :: u).dropLast := by
  cases u with
  | nil => simp
  | cons e u =>
    rw [List.dropLast_cons_of_ne_nil (List.cons_ne_nil e u)]
    exact List.not_mem_cons_of_ne_of_not_mem hne.symm hu

/-- A character goes in front of a piece unless it would have to end it or begin another one. -/
lemma IsPiece.cons (h : IsPiece u) (hclose : '\x7d' ∉ u) (hnewline : c ≠ '\n') (hopen : c ≠ '\x7b')
    (hend : c ≠ ';') : IsPiece (c :: u) where
  no_newline := List.not_mem_cons_of_ne_of_not_mem hnewline.symm h.no_newline
  opens_last := notMem_dropLast_cons h.opens_last hopen
  ends_last := notMem_dropLast_cons h.ends_last hend
  closes_first := hclose

/-- A text is cut at all of its marks.  The first piece has no closing brace, as a closing brace begins
the next one. -/
lemma exists_isPiece_pieces (code : List Char) :
    ∃ first more, pieces code = first :: more ∧ '\x7d' ∉ first ∧
      ∀ piece ∈ first :: more, IsPiece piece := by
  induction code with
  | nil => exact ⟨[], [], rfl, by simp, List.forall_mem_singleton.2 isPiece_nil⟩
  | cons c rest ih =>
    obtain ⟨first, more, hpieces, hclose, hall⟩ := ih
    obtain ⟨hfirst, hmore⟩ := List.forall_mem_cons.1 hall
    rw [pieces, hpieces]
    split_ifs with hnewline hend hbrace
    · exact ⟨[], _, rfl, List.not_mem_nil, List.forall_mem_cons.2 ⟨isPiece_nil, hall⟩⟩
    · refine ⟨[c], _, rfl, ?_, List.forall_mem_cons.2 ⟨⟨?_, by simp, by simp, by simp⟩, hall⟩⟩
      · rcases hend with rfl | rfl <;> decide
      · rcases hend with rfl | rfl <;> decide
    · rw [not_or] at hend
      have hnext : IsPiece (c :: first) := hfirst.cons hclose hnewline hend.1 hend.2
      exact ⟨[], _, rfl, List.not_mem_nil,
        List.forall_mem_cons.2 ⟨isPiece_nil, List.forall_mem_cons.2 ⟨hnext, hmore⟩⟩⟩
    · rw [not_or] at hend
      have hnext : IsPiece (c :: first) := hfirst.cons hclose hnewline hend.1 hend.2
      exact ⟨c :: first, more, rfl, List.not_mem_cons_of_ne_of_not_mem (Ne.symm hbrace) hclose,
        List.forall_mem_cons.2 ⟨hnext, hmore⟩⟩

/-- The pieces of a text stand in it. -/
lemma piecesOf_pieces (code : List Char) : PiecesOf code (pieces code) := by
  induction code with
  | nil => exact ⟨by simp [pieces], by simp [pieces]⟩
  | cons c rest ih =>
    rw [pieces]
    split_ifs
    · exact ih.nil_cons c
    · exact ih.cons ((List.prefix_cons_inj c).2 List.nil_prefix)
    · exact ⟨by simp, List.forall_mem_cons.2 ⟨List.nil_suffix.isInfix, (ih.consHead c).all⟩⟩
    · exact ih.consHead c

/-- What comes out of a document are logical lines. -/
lemma isLogicalLine_of_mem {text : List Char} (h : line ∈ logicalLines text) : IsLogicalLine line := by
  rw [logicalLines_eq] at h
  obtain ⟨hne, htrim⟩ := mem_of_mem_tidy h
  obtain ⟨piece, hpiece, rfl⟩ := List.mem_map.1 (mem_nonEmpty.1 h).1
  obtain ⟨first, more, hpieces, -, hall⟩ := exists_isPiece_pieces (strip .code text)
  have hline : IsPiece (trim piece) := (hall piece (hpieces ▸ hpiece)).within (trim_infix_self piece)
  have hwithin : trim piece <:+: strip .code text :=
    (trim_infix_self piece).trans ((piecesOf_pieces _).all piece hpiece)
  exact ⟨hne, htrim, hline.no_newline, (opensNoComment_strip .code text).within hwithin,
    hline.opens_last, hline.ends_last, hline.closes_first⟩

/-! ### Reading lines back -/

/-- A piece without a closing brace is left whole, with an empty piece behind it if it ends with a
mark. -/
lemma pieces_of_isPiece (h : IsPiece u) (hclose : '\x7d' ∉ u) :
    pieces u = [u] ∨ pieces u = [u, []] := by
  induction u with
  | nil => exact Or.inl rfl
  | cons c u ih =>
    have hnewline : c ≠ '\n' := fun hc => h.no_newline (by simp [hc])
    have hbrace : c ≠ '\x7d' := fun hc => hclose (by simp [hc])
    by_cases hu : u = []
    · subst hu
      by_cases hend : c = '\x7b' ∨ c = ';'
      · exact Or.inr (by rw [pieces, if_neg hnewline, if_pos hend]; rfl)
      · exact Or.inl (by rw [pieces, if_neg hnewline, if_neg hend, if_neg hbrace]; rfl)
    · have hopen : c ≠ '\x7b' := by
        rintro rfl
        exact h.opens_last (by simp [List.dropLast_cons_of_ne_nil hu])
      have hend : c ≠ ';' := by
        rintro rfl
        exact h.ends_last (by simp [List.dropLast_cons_of_ne_nil hu])
      have hrest := ih (h.within (List.suffix_cons c u).isInfix) fun hmem =>
        hclose (List.mem_cons_of_mem c hmem)
      rw [pieces, if_neg hnewline, if_neg (not_or.2 ⟨hopen, hend⟩), if_neg hbrace]
      rcases hrest with hrest | hrest
      · exact Or.inl (by rw [hrest, consHead_cons])
      · exact Or.inr (by rw [hrest, consHead_cons])

lemma IsLogicalLine.isPiece (h : IsLogicalLine line) : IsPiece line :=
  ⟨h.no_newline, h.opens_last, h.ends_last, h.closes_first⟩

/-- A logical line by itself is its only line. -/
lemma IsLogicalLine.tidy_pieces (h : IsLogicalLine line) : tidy (pieces line) = [line] := by
  have hline : tidy [line] = [line] := tidy_cons h.trimmed h.ne_nil []
  have hempty : tidy [line, []] = [line] := tidy_cons h.trimmed h.ne_nil [[]]
  obtain ⟨c, u, rfl⟩ := List.exists_cons_of_ne_nil h.ne_nil
  by_cases hc : c = '\x7d'
  · subst hc
    have hu : IsPiece u := h.isPiece.within (List.suffix_cons _ u).isInfix
    have hcut : pieces ('\x7d' :: u) = [] :: consHead '\x7d' (pieces u) := by simp [pieces]
    -- the brace ends the empty piece in front of it, which is dropped
    have hdrop (more : List (List Char)) : tidy ([] :: more) = tidy more := rfl
    rcases pieces_of_isPiece hu h.closes_first with hpieces | hpieces
    · rw [hcut, hpieces, consHead_cons, hdrop, hline]
    · rw [hcut, hpieces, consHead_cons, hdrop, hempty]
  · have hclose : '\x7d' ∉ c :: u := List.not_mem_cons_of_ne_of_not_mem (Ne.symm hc) h.closes_first
    rcases pieces_of_isPiece h.isPiece hclose with hpieces | hpieces
    · rw [hpieces, hline]
    · rw [hpieces, hempty]

/-- Logical lines below each other are read back. -/
lemma logicalLines_intercalate_newline (h : ∀ line ∈ lines, IsLogicalLine line) :
    logicalLines (['\n'].intercalate lines) = lines := by
  rw [logicalLines_eq, strip_intercalate (by decide) fun line hmem => (h line hmem).opensNoComment]
  induction lines with
  | nil => rfl
  | cons line lines ih =>
    have hline := (h line (by simp)).tidy_pieces
    cases lines with
    | nil => rw [List.intercalate_singleton, hline]
    | cons next more =>
      have hmore := ih fun line' hmem => h line' (List.mem_cons_of_mem _ hmem)
      rw [List.intercalate_cons_cons, List.append_assoc, List.singleton_append, tidy_pieces_newline,
        hline, hmore, List.singleton_append]

/-- Behind an opening brace or a semicolon, and in front of a closing brace, a line is at its edge. -/
lemma BreaksOff.atLineEdge (h : BreaksOff line u) (v : List Char) : AtLineEdge line (u ++ v) := by
  have hend {c : Char} (hpieces : pieces [c] = [[c], []]) (hlast : line.getLast? = some c) :
      ∀ piece ∈ (pieces line).getLast?, ∀ d ∈ piece, isBlank d = true := by
    obtain ⟨front, rfl⟩ := List.getLast?_eq_some_iff.1 hlast
    obtain ⟨done, last, -, happend⟩ := exists_pieces_append front
    intro piece hpiece
    rw [happend, hpieces, prependHead_cons, List.getLast?_append_of_ne_nil _ (by simp)] at hpiece
    obtain rfl : [] = piece := by simpa using hpiece
    exact List.forall_mem_nil _
  rcases h with hlast | hlast | hhead
  · exact Or.inl (hend (by decide) hlast)
  · exact Or.inl (hend (by decide) hlast)
  · obtain ⟨rest, rfl⟩ := List.head?_eq_some_iff.1 hhead
    refine Or.inr fun piece hpiece => ?_
    rw [List.cons_append] at hpiece
    obtain rfl : [] = piece := by simpa [pieces] using hpiece
    exact List.forall_mem_nil _

/-- Logical lines that break off by themselves are read back from one line. -/
lemma logicalLines_intercalate_space (h : ∀ line ∈ lines, IsLogicalLine line)
    (hbreaks : lines.IsChain BreaksOff) : logicalLines ([' '].intercalate lines) = lines := by
  rw [logicalLines_eq, strip_intercalate (by decide) fun line hmem => (h line hmem).opensNoComment]
  induction lines with
  | nil => rfl
  | cons line lines ih =>
    have hline := (h line (by simp)).tidy_pieces
    cases lines with
    | nil => rw [List.intercalate_singleton, hline]
    | cons next more =>
      obtain ⟨hbreak, hbreaks⟩ := List.isChain_cons_cons.1 hbreaks
      have hmore := ih (fun line' hmem => h line' (List.mem_cons_of_mem _ hmem)) hbreaks
      have hedge : AtLineEdge line ([' '].intercalate (next :: more)) := by
        obtain ⟨rest, hrest⟩ : next <+: [' '].intercalate (next :: more) := by
          cases more <;> simp [List.intercalate_cons_cons]
        exact hrest ▸ hbreak.atLineEdge rest
      rw [List.intercalate_cons_cons, List.append_assoc,
        hedge.tidy_pieces_eq (List.forall_mem_singleton.2 (by decide)), hline, hmore,
        List.singleton_append]

end LogicalLines

open LogicalLines

namespace RemoteInterface

/-- A document is read by its logical lines alone. -/
lemma parse_congr {document document' : List Char} (h : logicalLines document = logicalLines document')
    (path : String) :
    parse (String.ofList document) path = parse (String.ofList document') path := by
  simp only [parse, String.toList_ofList, h]

/-- **Logical lines are a normal form.**  Every line of a document is a logical line, and the lines below
each other are the same lines again and are parsed like the document.  Any logical lines below each other
are read back; when each of them breaks off in front of the next one, they are read back from one line as
well, and the two documents are parsed alike. -/
theorem logicalLines_normalForm (text : List Char) (lines : List (List Char)) (path : String) :
    (∀ line ∈ logicalLines text, IsLogicalLine line) ∧
    logicalLines (['\n'].intercalate (logicalLines text)) = logicalLines text ∧
    parse (String.ofList (['\n'].intercalate (logicalLines text))) path =
      parse (String.ofList text) path ∧
    ((∀ line ∈ lines, IsLogicalLine line) →
      logicalLines (['\n'].intercalate lines) = lines ∧
      (lines.IsChain BreaksOff →
        logicalLines ([' '].intercalate lines) = lines ∧
        parse (String.ofList ([' '].intercalate lines)) path =
          parse (String.ofList (['\n'].intercalate lines)) path)) := by
  have htext : ∀ line ∈ logicalLines text, IsLogicalLine line := fun _ => isLogicalLine_of_mem
  have hagain := logicalLines_intercalate_newline htext
  refine ⟨htext, hagain, parse_congr hagain path, fun hlines => ?_⟩
  have hbelow := logicalLines_intercalate_newline hlines
  refine ⟨hbelow, fun hbreaks => ?_⟩
  have hbeside := logicalLines_intercalate_space hlines hbreaks
  exact ⟨hbeside, parse_congr (hbeside.trans hbelow.symm) path⟩

/-- The lines of a module with one interface; a slash stands at the end of one. -/
def moduleLines : List (List Char) :=
  ["module A \x7b".toList, "#pragma a/".toList, "\x7d interface B \x7b".toList, "void f();".toList,
    "\x7d;".toList]

theorem logicalLines_moduleLines :
    (∀ line ∈ moduleLines, IsLogicalLine line) ∧ moduleLines.IsChain BreaksOff ∧
      logicalLines "module A \x7b #pragma a/ \x7d interface B \x7b void f(); \x7d;".toList =
        moduleLines ∧
      logicalLines (['\n'].intercalate moduleLines) = moduleLines := by
  have hlines : ∀ line ∈ moduleLines, IsLogicalLine line := by decide
  have hbreaks : moduleLines.IsChain BreaksOff := by decide
  have hline : [' '].intercalate moduleLines =
      "module A \x7b #pragma a/ \x7d interface B \x7b void f(); \x7d;".toList := by decide
  obtain ⟨hbelow, hbeside⟩ := (logicalLines_normalForm [] moduleLines "").2.2.2 hlines
  exact ⟨hlines, hbreaks, hline ▸ (hbeside hbreaks).1, hbelow⟩

end RemoteInterface

end Survey
