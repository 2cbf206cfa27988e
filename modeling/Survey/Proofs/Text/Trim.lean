/-
# Trimmed texts

A trimmed text has no blank at either end, so trimming it again changes nothing, and blanks added at
the ends of a text are lost when it is trimmed.  The items of a list are trimmed and none of them is
empty, whether the brackets of the list balance or not.
-/
import Mathlib.Data.List.TakeWhile
import Survey.Proofs.Text.Pieces

namespace Survey.Text

variable {u v : List Char}

lemma head?_trimStart (u : List Char) : ∀ c ∈ (trimStart u).head?, isBlank c = false := by
  intro c hc
  have hnot := List.head?_dropWhile_not isBlank u
  rw [trimStart, Option.mem_def] at hc
  rw [hc] at hnot
  simpa using hnot

lemma getLast?_trimEnd (u : List Char) : ∀ c ∈ (trimEnd u).getLast?, isBlank c = false := by
  intro c hc
  rw [trimEnd, List.getLast?_reverse] at hc
  exact head?_trimStart u.reverse c hc

lemma trimEnd_prefix_self (u : List Char) : trimEnd u <+: u := by
  rw [← List.reverse_suffix, trimEnd, List.reverse_reverse]
  exact List.dropWhile_suffix isBlank

lemma head?_trim (u : List Char) : ∀ c ∈ (trim u).head?, isBlank c = false := by
  intro c hc
  obtain ⟨rest, hrest⟩ := trimEnd_prefix_self (trimStart u)
  refine head?_trimStart u c ?_
  rw [← hrest, List.head?_append, Option.mem_def, Option.or_eq_some_iff]
  exact Or.inl hc

lemma getLast?_trim (u : List Char) : ∀ c ∈ (trim u).getLast?, isBlank c = false :=
  getLast?_trimEnd (trimStart u)

@[simp] lemma trim_trim (u : List Char) : trim (trim u) = trim u :=
  trim_eq_self (head?_trim u) (getLast?_trim u)

lemma trim_infix_self (u : List Char) : trim u <:+: u :=
  (trimEnd_prefix_self (trimStart u)).isInfix.trans (List.dropWhile_suffix isBlank).isInfix

/-! ### Blank ends -/

lemma trimStart_append_of_blank (hu : ∀ c ∈ u, isBlank c = true) (v : List Char) :
    trimStart (u ++ v) = trimStart v := List.dropWhile_append_of_pos hu

lemma trimEnd_append_of_blank (hv : ∀ c ∈ v, isBlank c = true) (u : List Char) :
    trimEnd (u ++ v) = trimEnd u := by
  rw [trimEnd, List.reverse_append, List.dropWhile_append_of_pos fun c hc => hv c (by simpa using hc)]
  rfl

/-- A blank start is lost. -/
lemma trim_append_of_blank_left (hu : ∀ c ∈ u, isBlank c = true) (v : List Char) :
    trim (u ++ v) = trim v := by
  rw [trim, trimStart_append_of_blank hu, trim]

lemma trim_eq_nil_of_blank (hu : ∀ c ∈ u, isBlank c = true) : trim u = [] := by
  have htrim := trim_append_of_blank_left hu []
  rwa [List.append_nil] at htrim

/-- A start that is not blank keeps what stands behind it. -/
lemma trimStart_append (hu : ¬ ∀ c ∈ u, isBlank c = true) (v : List Char) :
    trimStart (u ++ v) = trimStart u ++ v := by
  rw [trimStart, List.dropWhile_append, if_neg]
  · rfl
  · rwa [List.isEmpty_iff, List.dropWhile_eq_nil_iff]

lemma trimEnd_append (hv : ¬ ∀ c ∈ v, isBlank c = true) (u : List Char) :
    trimEnd (u ++ v) = u ++ trimEnd v := by
  have hreverse : ¬ ∀ c ∈ v.reverse, isBlank c = true := by simpa using hv
  have hstart := trimStart_append hreverse u.reverse
  rw [trimStart, trimStart] at hstart
  rw [trimEnd, trimEnd, List.reverse_append, hstart, List.reverse_append, List.reverse_reverse]

/-- A blank end is lost. -/
lemma trim_append_of_blank_right (hv : ∀ c ∈ v, isBlank c = true) (u : List Char) :
    trim (u ++ v) = trim u := by
  by_cases hu : ∀ c ∈ u, isBlank c = true
  · rw [trim_append_of_blank_left hu, trim_eq_nil_of_blank hu, trim_eq_nil_of_blank hv]
  · rw [trim, trimStart_append hu, trimEnd_append_of_blank hv, trim]

/-- A text is what is left of it when it is trimmed, with blanks at the two ends. -/
lemma exists_blank_ends (u : List Char) :
    ∃ front back, (∀ c ∈ front, isBlank c = true) ∧ (∀ c ∈ back, isBlank c = true) ∧
      u = front ++ (trim u ++ back) := by
  refine ⟨u.takeWhile isBlank, ((trimStart u).reverse.takeWhile isBlank).reverse,
    fun c hc => List.mem_takeWhile_imp hc,
    fun c hc => List.mem_takeWhile_imp (List.mem_reverse.1 hc), ?_⟩
  rw [trim, trimEnd, ← List.reverse_append, List.takeWhile_append_dropWhile, List.reverse_reverse,
    trimStart, List.takeWhile_append_dropWhile]

/-- Trimming takes away blanks only. -/
lemma filter_trim {keep : Char → Bool} (hkeep : ∀ c, isBlank c = true → keep c = false)
    (u : List Char) : (trim u).filter keep = u.filter keep := by
  obtain ⟨front, back, hfront, hback, hu⟩ := exists_blank_ends u
  have hnone {v : List Char} (hv : ∀ c ∈ v, isBlank c = true) : v.filter keep = [] := by
    rw [List.filter_eq_nil_iff]
    exact fun c hc => by simp [hkeep c (hv c hc)]
  conv_rhs => rw [hu]
  rw [List.filter_append, List.filter_append, hnone hfront, hnone hback, List.nil_append,
    List.append_nil]

/-! ### Lists of pieces -/

lemma mem_of_mem_tidy {pieces : List (List Char)} (h : u ∈ tidy pieces) : u ≠ [] ∧ trim u = u := by
  obtain ⟨hmem, hne⟩ := mem_nonEmpty.1 h
  obtain ⟨piece, -, rfl⟩ := List.mem_map.1 hmem
  exact ⟨hne, trim_trim piece⟩

lemma tidy_append (l m : List (List Char)) : tidy (l ++ m) = tidy l ++ tidy m := by
  simp [tidy, nonEmpty]

lemma tidy_cons (htrim : trim u = u) (hne : u ≠ []) (pieces : List (List Char)) :
    tidy (u :: pieces) = u :: tidy pieces := by
  rw [tidy, List.map_cons, htrim, nonEmpty, List.filter_cons_of_pos (by simpa using hne)]
  rfl

/-- Items that are trimmed and not empty stay as they are. -/
lemma tidy_eq_self {items : List (List Char)} (h : ∀ item ∈ items, item ≠ [] ∧ trim item = item) :
    tidy items = items := by
  induction items with
  | nil => rfl
  | cons item items ih =>
    obtain ⟨hne, htrim⟩ := h item (by simp)
    rw [tidy_cons htrim hne, ih fun item' hmem => h item' (List.mem_cons_of_mem _ hmem)]

/-- Only blanks are lost when pieces are tidied. -/
lemma filter_flatten_tidy {keep : Char → Bool} (hkeep : ∀ c, isBlank c = true → keep c = false)
    (pieces : List (List Char)) :
    (tidy pieces).flatten.filter keep = pieces.flatten.filter keep := by
  have htidy : (tidy pieces).flatten = (pieces.map trim).flatten := List.flatten_filter_not_isEmpty
  rw [htidy, List.filter_flatten, List.filter_flatten, List.map_map]
  exact congrArg List.flatten (List.map_congr_left fun piece _ => filter_trim hkeep piece)

lemma tidy_consHead_space (pieces : List (List Char)) :
    tidy (consHead ' ' pieces) = tidy pieces := by
  cases pieces with
  | nil => decide
  | cons piece pieces => rw [consHead_cons, tidy, List.map_cons, trim_space_cons, tidy, List.map_cons]

/-! ### Items of a list -/

/-- Texts inside another one, the first of them at its front. -/
structure PiecesOf (text : List Char) (pieces : List (List Char)) : Prop where
  first : ∀ piece ∈ pieces.head?, piece <+: text
  all : ∀ piece ∈ pieces, piece <:+: text

/-- A front part of a text goes in front of the pieces behind its first character. -/
lemma PiecesOf.cons {text piece : List Char} {pieces : List (List Char)} {c : Char}
    (h : PiecesOf text pieces) (hpiece : piece <+: c :: text) :
    PiecesOf (c :: text) (piece :: pieces) where
  first := by simpa using hpiece
  all := by
    refine List.forall_mem_cons.2 ⟨hpiece.isInfix, fun other hother => ?_⟩
    exact (h.all other hother).trans (List.suffix_cons c text).isInfix

lemma PiecesOf.nil_cons {text : List Char} {pieces : List (List Char)} (h : PiecesOf text pieces)
    (c : Char) : PiecesOf (c :: text) ([] :: pieces) := h.cons List.nil_prefix

lemma PiecesOf.consHead {text : List Char} {pieces : List (List Char)} (h : PiecesOf text pieces)
    (c : Char) : PiecesOf (c :: text) (consHead c pieces) := by
  have hextend {piece : List Char} (hpiece : piece <+: text) : c :: piece <+: c :: text :=
    (List.prefix_cons_inj c).2 hpiece
  cases pieces with
  | nil =>
    have hsingle : [c] <+: c :: text := hextend List.nil_prefix
    exact ⟨by simp [Text.consHead], by simpa [Text.consHead] using hsingle.isInfix⟩
  | cons head pieces =>
    have hhead : c :: head <+: c :: text := hextend (h.first head rfl)
    rw [consHead_cons]
    exact ⟨by simpa using hhead, List.forall_mem_cons.2 ⟨hhead.isInfix, fun piece hpiece =>
      (h.all piece (List.mem_cons_of_mem _ hpiece)).trans (List.suffix_cons c text).isInfix⟩⟩

lemma piecesOf_cutAt (cut : Char → Bool) (text : List Char) : PiecesOf text (cutAt cut text) := by
  induction text with
  | nil => exact ⟨by simp [cutAt], by simp [cutAt]⟩
  | cons c text ih =>
    rw [cutAt]
    split
    · exact ih.nil_cons c
    · exact ih.consHead c

lemma piecesOf_piecesFrom? {separator : Char} {depth : Int32} {text : List Char}
    {pieces : List (List Char)} (h : piecesFrom? separator depth text = some pieces) :
    PiecesOf text pieces := by
  induction text generalizing depth pieces with
  | nil =>
    rw [piecesFrom?] at h
    split at h
    · rw [← Option.some.inj h]
      exact ⟨by simp, by simp⟩
    · simp at h
  | cons c text ih =>
    rw [piecesFrom?] at h
    split at h
    · obtain ⟨pieces', hpieces, rfl⟩ := Option.map_eq_some_iff.1 h
      exact (ih hpieces).nil_cons c
    · split at h
      · simp at h
      · obtain ⟨pieces', hpieces, rfl⟩ := Option.map_eq_some_iff.1 h
        exact (ih hpieces).consHead c

/-- The items of a list come from pieces of its text. -/
lemma exists_pieces_of_mem_splitList {text : List Char} (h : u ∈ splitList text) :
    ∃ pieces, u ∈ tidy pieces ∧ PiecesOf text pieces := by
  rw [splitList, splitTopLevel?] at h
  cases hpieces : piecesFrom? ',' 0 text with
  | none =>
    rw [hpieces] at h
    exact ⟨_, h, piecesOf_cutAt _ text⟩
  | some pieces =>
    rw [hpieces] at h
    exact ⟨pieces, h, piecesOf_piecesFrom? hpieces⟩

/-- The items of a list are trimmed and not empty. -/
lemma mem_of_mem_splitList {text : List Char} (h : u ∈ splitList text) : u ≠ [] ∧ trim u = u := by
  obtain ⟨pieces, hmem, -⟩ := exists_pieces_of_mem_splitList h
  exact mem_of_mem_tidy hmem

/-- The items of a list stand in its text. -/
lemma infix_of_mem_splitList {text : List Char} (h : u ∈ splitList text) : u <:+: text := by
  obtain ⟨pieces, hmem, hpieces⟩ := exists_pieces_of_mem_splitList h
  obtain ⟨piece, hpiece, rfl⟩ := List.mem_map.1 (mem_nonEmpty.1 hmem).1
  exact (trim_infix_self piece).trans (hpieces.all piece hpiece)

/-- A text without a comma outside brackets is a list of one item. -/
lemma splitList_of_keeps (hkeeps : Keeps ',' 0 u 0) (hne : trim u ≠ []) : splitList u = [trim u] := by
  have hpieces : piecesFrom? ',' 0 u = some [u] := by
    have hsplit := hkeeps []
    rw [List.append_nil] at hsplit
    rw [hsplit]
    simp [piecesFrom?]
  have htidy : tidy [u] = [trim u] := by
    rw [tidy, List.map_singleton, nonEmpty, List.filter_cons_of_pos (by simpa using hne)]
    rfl
  rw [splitList, splitTopLevel?, hpieces, Option.map_some, htidy, Option.getD_some]

end Survey.Text
