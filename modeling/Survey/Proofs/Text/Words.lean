/-
# Whole words

The words of a text are its longest runs of word characters.  A cut at a character outside words
splits the words of a text into those of the two parts, and everything about words follows from
this one equation.
-/
import Mathlib.Data.List.Basic
import Survey.Proofs.Text.Pieces
import Survey.Text.Word

namespace Survey.Text

variable {word front u v : List Char} {c : Char}

/-! ### Blanks -/

lemma exists_range_of_inRanges {ranges : List (Nat × Nat)} {n : Nat} (h : inRanges ranges n = true) :
    ∃ r ∈ ranges, r.1 ≤ n ∧ n ≤ r.2 := by
  induction ranges with
  | nil => simp at h
  | cons r ranges ih =>
    obtain ⟨first, last⟩ := r
    rw [inRanges] at h
    split at h
    · simp at h
    · next hfirst =>
      split at h
      · next hlast => exact ⟨(first, last), by simp, by omega, hlast⟩
      · obtain ⟨r, hmem, hr⟩ := ih h
        exact ⟨r, List.mem_cons_of_mem _ hmem, hr⟩

/-- No blank stands in a word. -/
lemma isWordChar_of_isBlank (h : isBlank c = true) : isWordChar c = false := by
  have hall : blankRanges.all (fun r => (List.range (r.2 + 1 - r.1)).all
      fun i => !isWordChar (Char.ofNat (r.1 + i))) = true := by decide +kernel
  obtain ⟨r, hmem, hfirst, hlast⟩ := exists_range_of_inRanges h
  have hrange := List.all_eq_true.1 (List.all_eq_true.1 hall r hmem) (c.toNat - r.1)
    (List.mem_range.2 (by omega))
  rw [Nat.add_sub_cancel' hfirst, Char.ofNat_toNat] at hrange
  simpa using hrange

lemma isBlank_of_isWordChar (h : isWordChar c = true) : isBlank c = false := by
  by_contra hblank
  rw [isWordChar_of_isBlank (by simpa using hblank)] at h
  cases h

/-! ### Words between cuts -/

end Survey.Text
