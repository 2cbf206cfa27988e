/-
# The block of annotations above a line

The walk upwards from a declaration goes over blank lines, comment lines and lines that show an
annotation, and stops at any other line.  So the annotations above a line are those of a block: the
longest stretch of such lines directly above it.  What stands above the line that ends the block makes
no difference, and neither do blank and comment lines anywhere.

The walk looks at lines without the blanks at their ends.  These blanks make no difference to the
annotations that a line shows: none of them begins an annotation, ends one or closes its arguments.
-/
import Mathlib.Data.List.Induction
import Survey.Proofs.Declaration.AnnotationLines

namespace Survey.Annotations

open Survey.Text Survey.Pattern

/-! ### Blanks around annotations -/

section

variable {args rest u v w : List Char}

/-- What stands behind a name is divided into the arguments of the annotation and the rest. -/
lemma exists_argumentsOf (back : List Char) :
    ∃ args rest, back = args ++ rest ∧ ArgumentsOf args rest := by
  by_cases hopen : back.head? = some '('
  · obtain ⟨back, rfl⟩ := List.head?_eq_some_iff.1 hopen
    by_cases hclose : ')' ∈ back
    · obtain ⟨inner, rest, rfl, hinner⟩ := List.eq_append_cons_of_mem hclose
      exact ⟨'(' :: (inner ++ [')']), rest, by simp, .closed hinner⟩
    · exact ⟨[], '(' :: back, rfl, .unclosed (by simp [hclose])⟩
  · exact ⟨[], back, rfl, .missing hopen⟩

/-- Blanks neither open nor close the arguments of an annotation in front of them. -/
lemma ArgumentsOf.append_blank (h : ArgumentsOf args rest) (hv : ∀ c ∈ v, isBlank c = true) :
    ArgumentsOf args (rest ++ v) := by
  have hnone {c : Char} (hc : isBlank c = false) : c ∉ v := fun hmem => by
    rw [hv c hmem] at hc
    cases hc
  cases h with
  | missing hopen =>
    refine .missing ?_
    cases rest with
    | nil => exact fun hhead => hnone (by decide) (List.mem_of_mem_head? hhead)
    | cons c rest => exact hopen
  | unclosed hclose =>
    refine .unclosed ?_
    rw [List.mem_append, not_or]
    exact ⟨hclose, hnone (by decide)⟩
  | closed hinner => exact .closed hinner

lemma touchesWord_append_blank (hu : touchesWord u = false) (hv : ∀ c ∈ v, isBlank c = true) :
    touchesWord (u ++ v) = false := by
  cases u with
  | nil =>
    cases v with
    | nil => rfl
    | cons c v => exact isWordChar_of_isBlank (hv c (by simp))
  | cons c u => exact hu

/-- No annotation begins at a character that is no at sign, and none at an at sign without a name. -/
lemma silentAt_annotationMark {c : Char} (h : c = '@' → touchesWord u = false) :
    Shape.annotationMark.SilentAt (c :: u) := by
  by_cases hc : c = '@'
  · subst hc
    have hname : name.SilentAt u := silentAt_all (head_not_wordChar_of_touchesWord (h rfl))
    exact ((takes_lit "@" u).silentAt_append (hname.group 1)).append _
  · exact ((silentAt_lit_of_ne rfl (Ne.symm hc)).append _).append _

/-- A search finds an annotation and goes on behind its arguments. -/
lemma exists_finds_mark {ms : List Match} {front : List Char} (hw : WordText w)
    (hstop : touchesWord (args ++ rest) = false) (hargs : ArgumentsOf args rest)
    (hrest : Shape.annotationMark.Finds (front ++ '@' :: (w ++ args)) rest ms) :
    ∃ m, m.groupText 1 = w ∧
      Shape.annotationMark.Finds front ('@' :: (w ++ (args ++ rest))) (m :: ms) := by
  have htext : '@' :: (w ++ (args ++ rest)) = '@' :: (w ++ args) ++ rest := by simp
  have hmatch := matchAt?_mark_arguments hw hstop hargs front
  rw [htext] at hmatch ⊢
  refine ⟨_, ?_, .found (by simp) hmatch rfl hrest⟩
  exact Span.text_between _ _ _

/-- At a character no annotation begins, or it is the at sign of one. -/
lemma mark_cases (c : Char) (u : List Char) :
    (c = '@' → touchesWord u = false) ∨
      ∃ w args rest, c = '@' ∧ u = w ++ (args ++ rest) ∧ WordText w ∧
        touchesWord (args ++ rest) = false ∧ ArgumentsOf args rest := by
  by_cases hmark : c = '@' ∧ touchesWord u = true
  · obtain ⟨rfl, htouches⟩ := hmark
    obtain ⟨w, back, rfl, hw, hback⟩ := Cursor.exists_stop isWordChar u
    obtain ⟨args, rest, rfl, hargs⟩ := exists_argumentsOf back
    have hstop : touchesWord (args ++ rest) = false := by
      cases hhead : args ++ rest with
      | nil => rfl
      | cons d more => exact hback d (by rw [hhead]; rfl)
    refine Or.inr ⟨w, args, rest, rfl, rfl, ⟨?_, hw⟩, hstop, hargs⟩
    rintro rfl
    rw [List.nil_append, hstop] at htouches
    cases htouches
  · exact Or.inl fun hc => by simpa [hc] using hmark

/-- Wherever a text stands and whatever blanks stand behind it, a search finds annotations of the same
names in it. -/
lemma exists_finds_of_blank (hv : ∀ c ∈ v, isBlank c = true) (u front front' : List Char) :
    ∃ ms ms', Shape.annotationMark.Finds front u ms ∧
      Shape.annotationMark.Finds front' (u ++ v) ms' ∧
      ms.map (·.groupText 1) = ms'.map (·.groupText 1) := by
  induction hlength : u.length using Nat.strong_induction_on generalizing u front front' with
  | h n ih =>
    cases u with
    | nil =>
      have hat : '@' ∉ v := fun hmem => absurd (hv _ hmem) (by decide)
      have hblank := (silent_of_at_notMem hat []).findsIn front'
      exact ⟨[], [], .done (silentAt_annotationMark_nil _ _),
        hblank.finds silentAt_annotationMark_nil, rfl⟩
    | cons c u =>
      rw [List.length_cons] at hlength
      rcases mark_cases c u with hnone | ⟨w, args, rest, rfl, rfl, hw, hstop, hargs⟩
      · -- both searches pass over the character
        obtain ⟨ms, ms', hfinds, hfinds', hnames⟩ :=
          ih u.length (by omega) u (front ++ [c]) (front' ++ [c]) rfl
        have hsilent := silentAt_annotationMark hnone
        have hsilent' := silentAt_annotationMark fun hc => touchesWord_append_blank (hnone hc) hv
        exact ⟨ms, ms', .skip (u := [c]) ⟨hsilent _ _, trivial⟩ hfinds,
          .skip (u := [c]) ⟨hsilent' _ _, trivial⟩ hfinds', hnames⟩
      · -- both searches find an annotation with this name and go on behind its arguments
        obtain ⟨ms, ms', hfinds, hfinds', hnames⟩ := ih rest.length (by simp at hlength; omega) rest
          (front ++ '@' :: (w ++ args)) (front' ++ '@' :: (w ++ args)) rfl
        have hstop' := touchesWord_append_blank hstop hv
        rw [List.append_assoc] at hstop'
        obtain ⟨m, hm, hfound⟩ := exists_finds_mark hw hstop hargs hfinds
        obtain ⟨m', hm', hfound'⟩ := exists_finds_mark hw hstop' (hargs.append_blank hv) hfinds'
        refine ⟨m :: ms, m' :: ms', hfound, by simpa using hfound', ?_⟩
        rw [List.map_cons, List.map_cons, hm, hm', hnames]

/-- A line shows the same annotations without the blanks at its ends. -/
lemma namesIn_trim (line : List Char) : namesIn (trim line) = namesIn line := by
  obtain ⟨front, back, hfront, hback, hline⟩ := exists_blank_ends line
  obtain ⟨ms, ms', hfinds, hfinds', hnames⟩ := exists_finds_of_blank hback (trim line) [] front
  have hat : '@' ∉ front := fun hmem => absurd (hfront _ hmem) (by decide)
  have hall := (silent_of_at_notMem hat (trim line ++ back)).findsIn [] ms' hfinds'
  rw [List.nil_append, ← hline] at hall
  rw [namesIn, namesIn, findAll_of_finds hfinds, findAll_of_finds hall]
  have htexts := congrArg (List.map String.ofList) hnames
  rwa [List.map_map, List.map_map] at htexts

end

/-! ### The block above a place -/

/-- A line that says nothing about annotations: it is blank, or a comment begins or goes on there. -/
def SaysNothing (line : List Char) : Prop :=
  trim line = [] ∨ ['/', '/'] <+: trim line ∨ ['/', '*'] <+: trim line ∨ ['*'] <+: trim line

instance : DecidablePred SaysNothing := fun line =>
  inferInstanceAs (Decidable (trim line = [] ∨ _ ∨ _ ∨ _))

/-- A line that may stand between a declaration and its annotations: it says nothing about
annotations, or it shows some. -/
def MayStandAbove (line : List Char) : Prop := SaysNothing line ∨ namesIn (trim line) ≠ []

instance : DecidablePred MayStandAbove := fun line =>
  inferInstanceAs (Decidable (SaysNothing line ∨ namesIn (trim line) ≠ []))

/-- The block at the end of some lines: the longest stretch there of lines that may stand above a
declaration. -/
structure IsBlock (above block : List (List Char)) : Prop where
  suffix : block <:+ above
  all : ∀ line ∈ block, MayStandAbove line
  longest : ∀ other, other <:+ above → (∀ line ∈ other, MayStandAbove line) →
    other.length ≤ block.length

/-- The annotations that some lines show, from top to bottom. -/
def namesOf (lines : List (List Char)) : List String :=
  (lines.filter fun line => ¬ SaysNothing line).flatMap namesIn

section

variable {line code : List Char} {above near block : List (List Char)}

lemma isPassedOver_iff : isPassedOver (trim line) = true ↔ SaysNothing line := by
  simp [isPassedOver, isCommentLine, SaysNothing, or_assoc]

/-! ### The walk upwards -/

/-- What the walk does at a line: it goes over one that says nothing, it goes over one that shows
annotations and takes them, and it stops at any other. -/
lemma namesAbove_cons_cases (line : List Char) :
    (SaysNothing line ∧ ∀ above, namesAbove (line :: above) = namesAbove above) ∨
    (MayStandAbove line ∧ ¬ SaysNothing line ∧
      ∀ above, namesAbove (line :: above) = namesAbove above ++ namesIn line) ∨
    (¬ MayStandAbove line ∧ ∀ above, namesAbove (line :: above) = []) := by
  by_cases hnothing : SaysNothing line
  · refine Or.inl ⟨hnothing, fun above => ?_⟩
    rw [namesAbove, if_pos (isPassedOver_iff.2 hnothing)]
  · have hpassed : ¬ isPassedOver (trim line) = true := mt isPassedOver_iff.1 hnothing
    cases hnames : namesIn (trim line) with
    | nil =>
      refine Or.inr (Or.inr ⟨not_or.2 ⟨hnothing, not_not.2 hnames⟩, fun above => ?_⟩)
      rw [namesAbove, if_neg hpassed, hnames]
    | cons name names =>
      refine Or.inr (Or.inl ⟨Or.inr (by simp [hnames]), hnothing, fun above => ?_⟩)
      rw [namesAbove, if_neg hpassed, ← namesIn_trim line, hnames]

/-- The walk stops at a line that ends the block. -/
lemma namesAbove_cons_of_not (h : ¬ MayStandAbove code) (above : List (List Char)) :
    namesAbove (code :: above) = [] := by
  rcases namesAbove_cons_cases code with ⟨hnothing, -⟩ | ⟨hmay, -⟩ | ⟨-, hwalk⟩
  · exact absurd (Or.inl hnothing) h
  · exact absurd hmay h
  · exact hwalk above

/-- Lines that say nothing make no difference to the walk. -/
lemma namesAbove_filter (lines : List (List Char)) :
    namesAbove (lines.filter fun line => ¬ SaysNothing line) = namesAbove lines := by
  induction lines with
  | nil => rfl
  | cons line lines ih =>
    rcases namesAbove_cons_cases line with
      ⟨hnothing, hwalk⟩ | ⟨-, hnothing, hwalk⟩ | ⟨hcode, hwalk⟩
    · rw [List.filter_cons_of_neg (by simpa using hnothing), ih, hwalk]
    · rw [List.filter_cons_of_pos (by simpa using hnothing), hwalk, hwalk, ih]
    · have hnothing : ¬ SaysNothing line := fun h => hcode (Or.inl h)
      rw [List.filter_cons_of_pos (by simpa using hnothing), hwalk, hwalk]

/-- The walk takes the annotations of all the lines that it goes over. -/
lemma namesAbove_reverse_append (hblock : ∀ line ∈ block, MayStandAbove line)
    (above : List (List Char)) :
    namesAbove (block.reverse ++ above) = namesAbove above ++ namesOf block := by
  induction block using List.reverseRecOn with
  | nil => simp [namesOf]
  | append_singleton block line ih =>
    have hrest := ih fun line hmem => hblock line (List.mem_append_left _ hmem)
    have hsplit : namesOf (block ++ [line]) = namesOf block ++ namesOf [line] := by
      simp [namesOf]
    rw [List.reverse_append, List.reverse_singleton, List.singleton_append, List.cons_append, hsplit]
    rcases namesAbove_cons_cases line with
      ⟨hnothing, hwalk⟩ | ⟨-, hnothing, hwalk⟩ | ⟨hcode, -⟩
    · have hline : namesOf [line] = [] := by simp [namesOf, hnothing]
      rw [hwalk, hrest, hline, List.append_nil]
    · have hline : namesOf [line] = namesIn line := by simp [namesOf, hnothing]
      rw [hwalk, hrest, hline, List.append_assoc]
    · exact absurd (hblock line (by simp)) hcode

/-- What stands above a line at which the walk stops makes no difference. -/
lemma namesAbove_append_cons (h : ¬ MayStandAbove code) (near above : List (List Char)) :
    namesAbove (near ++ code :: above) = namesAbove near := by
  induction near with
  | nil => exact namesAbove_cons_of_not h above
  | cons line near ih =>
    rw [List.cons_append]
    rcases namesAbove_cons_cases line with ⟨-, hwalk⟩ | ⟨-, -, hwalk⟩ | ⟨-, hwalk⟩
    · rw [hwalk, hwalk, ih]
    · rw [hwalk, hwalk, ih]
    · rw [hwalk, hwalk]

/-! ### Finding the block -/

/-- Lines end with a block, and the line in front of the block, if there is one, ends it. -/
lemma exists_block (above : List (List Char)) :
    ∃ front block, above = front ++ block ∧ (∀ line ∈ block, MayStandAbove line) ∧
      ∀ code ∈ front.getLast?, ¬ MayStandAbove code := by
  induction above using List.reverseRecOn with
  | nil => exact ⟨[], [], rfl, by simp, by simp⟩
  | append_singleton above line ih =>
    by_cases hline : MayStandAbove line
    · obtain ⟨front, block, rfl, hblock, hcode⟩ := ih
      refine ⟨front, block ++ [line], List.append_assoc _ _ _, fun line' hmem => ?_, hcode⟩
      rcases List.mem_append.1 hmem with hmem | hmem
      · exact hblock line' hmem
      · exact List.mem_singleton.1 hmem ▸ hline
    · exact ⟨above ++ [line], [], by simp, by simp, by simpa using hline⟩

/-- No longer stretch of such lines stands there. -/
lemma isBlock_append {front : List (List Char)} (hblock : ∀ line ∈ block, MayStandAbove line)
    (hcode : ∀ code ∈ front.getLast?, ¬ MayStandAbove code) : IsBlock (front ++ block) block where
  suffix := List.suffix_append front block
  all := hblock
  longest := by
    intro other hother hall
    by_contra hlonger
    -- a longer stretch takes in the line that ends the block
    obtain ⟨more, rfl⟩ : block <:+ other :=
      List.suffix_of_suffix_length_le (List.suffix_append front block) hother (by omega)
    have hmore : more <:+ front := by
      obtain ⟨rest, hrest⟩ := hother
      rw [← List.append_assoc] at hrest
      exact ⟨rest, List.append_cancel_right hrest⟩
    rcases List.eq_nil_or_concat more with rfl | ⟨more, code, rfl⟩
    · simp at hlonger
    · rw [List.concat_eq_append] at hmore hall
      obtain ⟨rest, rfl⟩ := hmore
      exact hcode code (by simp) (hall code (by simp))

/-- The walk takes the annotations of the block. -/
lemma namesAbove_reverse_of_block {front : List (List Char)}
    (hblock : ∀ line ∈ block, MayStandAbove line)
    (hcode : ∀ code ∈ front.getLast?, ¬ MayStandAbove code) :
    namesAbove (front ++ block).reverse = namesOf block := by
  rw [List.reverse_append, namesAbove_reverse_append hblock]
  rcases List.eq_nil_or_concat front with rfl | ⟨front, code, rfl⟩
  · rfl
  · rw [List.concat_eq_append, List.reverse_append, List.reverse_singleton, List.singleton_append,
      namesAbove_cons_of_not (hcode code (by simp)), List.nil_append]

/-! ### Changed lines -/

/-- Above a line at which the walk stops, the lines may be any others. -/
lemma namesBefore_append_cons (h : ¬ MayStandAbove code) (front back : List (List Char))
    (count : Nat) :
    namesBefore (front ++ code :: back) (front.length + (count + 1)) =
      namesAbove (back.take count).reverse := by
  have htake : ((front ++ code :: back).take (front.length + (count + 1))).reverse =
      (back.take count).reverse ++ code :: front.reverse := by
    rw [List.take_length_add_append, List.take_succ_cons]
    simp
  rw [namesBefore, htake, namesAbove_append_cons h]

/-- Between the lines above, others that say nothing may stand. -/
lemma namesBefore_append_append {inserted : List (List Char)}
    (h : ∀ line ∈ inserted, SaysNothing line) (front back : List (List Char)) (count : Nat) :
    namesBefore (front ++ (inserted ++ back)) (front.length + (inserted.length + count)) =
      namesBefore (front ++ back) (front.length + count) := by
  have hnone : inserted.filter (fun line => ¬ SaysNothing line) = [] := by
    rw [List.filter_eq_nil_iff]
    exact fun line hmem => by simpa using h line hmem
  rw [namesBefore, namesBefore, List.take_length_add_append, List.take_length_add_append,
    List.take_length_add_append, ← namesAbove_filter, ← namesAbove_filter (front ++ _).reverse]
  simp only [List.filter_reverse, List.filter_append, hnone, List.nil_append]

end

/-- **The annotations above a line are those of the block above it.**  They are the ones that the lines
of the block show, from top to bottom, whether the index of the line is one of the text or not.  They
stay the same whatever stands above a line that ends the block, and whatever lines that say nothing are
put between the lines above. -/
theorem namesBefore_eq_block (lines : List (List Char)) (index : Nat) :
    (∃ block, IsBlock (lines.take (min index lines.length)) block ∧
      namesBefore lines index = namesOf block) ∧
    (∀ place code, place < index → lines[place]? = some code → ¬ MayStandAbove code →
      ∀ others, namesBefore (others ++ lines.drop place) (others.length + (index - place)) =
        namesBefore lines index) ∧
    ∀ place ≤ min index lines.length, ∀ inserted, (∀ line ∈ inserted, SaysNothing line) →
      namesBefore (lines.take place ++ (inserted ++ lines.drop place)) (index + inserted.length) =
        namesBefore lines index := by
  refine ⟨?_, ?_, ?_⟩
  · obtain ⟨front, block, habove, hblock, hcode⟩ := exists_block (lines.take index)
    refine ⟨block, ?_, ?_⟩
    · rw [← List.take_eq_take_min, habove]
      exact isBlock_append hblock hcode
    · rw [namesBefore, habove, namesAbove_reverse_of_block hblock hcode]
  · intro place code hlt hplace hcode others
    obtain ⟨hlength, hget⟩ := List.getElem?_eq_some_iff.1 hplace
    have hdrop : lines.drop place = code :: lines.drop (place + 1) := by
      rw [List.drop_eq_getElem_cons hlength, hget]
    have hlines : lines.take place ++ code :: lines.drop (place + 1) = lines := by
      rw [← hdrop, List.take_append_drop]
    obtain ⟨count, rfl⟩ : ∃ count, index = place + (count + 1) := ⟨index - place - 1, by omega⟩
    have hbefore := namesBefore_append_cons hcode (lines.take place) (lines.drop (place + 1)) count
    rw [hlines, List.length_take_of_le hlength.le] at hbefore
    rw [hdrop, Nat.add_sub_cancel_left, namesBefore_append_cons hcode, hbefore]
  · intro place hle inserted hinserted
    obtain ⟨count, rfl⟩ : ∃ count, index = place + count := ⟨index - place, by omega⟩
    have hlength : (lines.take place).length = place := List.length_take_of_le (by omega)
    have hsame := namesBefore_append_append hinserted (lines.take place) (lines.drop place) count
    rw [hlength, List.take_append_drop] at hsame
    rw [Nat.add_assoc, Nat.add_comm count, hsame]

/-- A block of annotations with a blank line and a comment in it, below a line that ends it. -/
def blockLines : List (List Char) :=
  ["int x;".toList, "@Deprecated".toList, [], "// see @link".toList,
    "  @SuppressWarnings(1) @Override ".toList, "void run();".toList]

theorem namesBefore_blockLines :
    (∃ block, IsBlock (blockLines.take 5) block ∧
      namesOf block = ["Deprecated", "SuppressWarnings", "Override"]) ∧
    ¬ MayStandAbove "int x;".toList ∧
    namesBefore (["@A".toList, "@B".toList] ++ blockLines) 7 = namesBefore blockLines 5 ∧
    SaysNothing " * text".toList ∧
    namesBefore (blockLines.take 2 ++ ([" * text".toList] ++ blockLines.drop 2)) 6 =
      namesBefore blockLines 5 := by
  have hnames : namesBefore blockLines 5 = ["Deprecated", "SuppressWarnings", "Override"] := by
    decide +kernel
  have hcode : ¬ MayStandAbove "int x;".toList := by decide +kernel
  have hcomment : SaysNothing " * text".toList := by decide +kernel
  obtain ⟨⟨block, hblock, hblockNames⟩, habove, hinserted⟩ := namesBefore_eq_block blockLines 5
  exact ⟨⟨block, hblock, hblockNames.symm.trans hnames⟩, hcode,
    habove 0 _ (by decide) rfl hcode ["@A".toList, "@B".toList], hcomment,
    hinserted 2 (by decide) [" * text".toList] (List.forall_mem_singleton.2 hcomment)⟩

end Survey.Annotations
