/-
# Texts without annotations

Every annotation begins with an at sign.  Where a text has none, no place of the text has an
annotation: neither on the lines above it nor in front of it on its own line.
-/
import Survey.Declaration.Annotations
import Survey.Proofs.Pattern.Finds
import Survey.Proofs.Text.Trim

namespace Survey

open Survey.Text Survey.Pattern

/-! ### Parts of a text -/

namespace Text

lemma suffix_of_dropBytes? {n : Nat} {text rest : List Char} (h : dropBytes? n text = some rest) :
    rest <:+ text := by
  induction text generalizing n with
  | nil => cases n <;> simp_all [dropBytes?]
  | cons c text ih =>
    cases n with
    | zero => simp_all [dropBytes?]
    | succ n =>
      rw [dropBytes?] at h
      split at h
      · exact (ih h).trans (List.suffix_cons c text)
      · simp at h

lemma prefix_of_takeBytes? {n : Nat} {text taken : List Char} (h : takeBytes? n text = some taken) :
    taken <+: text := by
  induction text generalizing n taken with
  | nil => cases n <;> simp_all [takeBytes?]
  | cons c text ih =>
    cases n with
    | zero =>
      rw [takeBytes?, Option.some.injEq] at h
      exact h ▸ List.nil_prefix
    | succ n =>
      rw [takeBytes?] at h
      split at h
      · obtain ⟨taken', htaken, rfl⟩ := Option.map_eq_some_iff.1 h
        exact (List.prefix_cons_inj c).2 (ih htaken)
      · simp at h

lemma infix_of_slice? {text part : List Char} {start stop : Nat}
    (h : slice? text start stop = some part) : part <:+: text := by
  rw [slice?] at h
  split at h
  · obtain ⟨rest, hdrop, htake⟩ := Option.bind_eq_some_iff.1 h
    exact (prefix_of_takeBytes? htake).isInfix.trans (suffix_of_dropBytes? hdrop).isInfix
  · simp at h

lemma mem_of_mem_slice? {text : List Char} {start stop : Nat} {c : Char}
    (hc : c ∈ (slice? text start stop).getD []) : c ∈ text := by
  cases hslice : slice? text start stop with
  | none => simp [hslice] at hc
  | some part =>
    rw [hslice, Option.getD_some] at hc
    exact (infix_of_slice? hslice).subset hc

end Text

/-! ### No annotations -/

namespace Annotations

variable {text : List Char}

/-- No annotation begins in a text without at signs, whatever stands behind the text. -/
lemma silent_of_at_notMem (h : '@' ∉ text) (back : List Char) :
    Shape.annotationMark.Silent text back := by
  induction text with
  | nil => trivial
  | cons c text ih =>
    have hne : '@' ≠ c := fun heq => h (heq ▸ List.mem_cons_self)
    exact ⟨((silentAt_lit_of_ne rfl hne).append _).append _,
      ih fun hmem => h (List.mem_cons_of_mem _ hmem)⟩

lemma silentAt_annotationMark_nil : Shape.annotationMark.SilentAt [] :=
  ((silentAt_lit (by decide)).append _).append _

lemma namesIn_eq_nil (h : '@' ∉ text) : namesIn text = [] := by
  rw [namesIn, findAll_eq_nil (silent_of_at_notMem h []) silentAt_annotationMark_nil]
  rfl

lemma namesAbove_eq_nil {lines : List (List Char)} (h : ∀ line ∈ lines, '@' ∉ line) :
    namesAbove lines = [] := by
  induction lines with
  | nil => rfl
  | cons line lines ih =>
    have hline : '@' ∉ trim line := fun hmem => h line (by simp) ((trim_infix_self line).subset hmem)
    rw [namesAbove, namesIn_eq_nil hline]
    split
    · exact ih fun line hmem => h line (List.mem_cons_of_mem _ hmem)
    · rfl

/-- No place of a text without at signs is annotated. -/
theorem namesAt_eq_nil (h : '@' ∉ text) (offset : Nat) : namesAt (.ofText text) offset = [] := by
  have hlines : ∀ n, ∀ line ∈ ((lines text).take n).reverse, '@' ∉ line := by
    intro n line hline hmem
    exact h (((piecesOf_cutAt _ _).all line
      (List.mem_of_mem_take (List.mem_reverse.1 hline))).subset hmem)
  have hown : ∀ start stop, '@' ∉ (afterLastBoundary ((slice? text start stop).getD [])).1 := by
    intro start stop hmem
    rw [afterLastBoundary, List.mem_reverse] at hmem
    exact h (mem_of_mem_slice? (List.mem_reverse.1 ((List.takeWhile_prefix _).mem hmem)))
  have habove : ∀ index, namesBefore (lines text) index = [] := fun index =>
    namesAbove_eq_nil (hlines index)
  simp only [namesAt, Source.text_ofText, Source.lines_ofText, habove, namesIn_eq_nil (hown _ _),
    ite_self, List.append_nil]

end Annotations

end Survey
