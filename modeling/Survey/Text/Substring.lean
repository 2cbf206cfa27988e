/-
# Texts inside texts

Whether one text occurs in another, and the two parts of a text around the first or the last
occurrence of a character.
-/

namespace Survey.Text

/-- Whether one text occurs in another. -/
def contains (needle : List Char) : List Char → Bool
  | [] => needle.isEmpty
  | c :: rest => needle.isPrefixOf (c :: rest) || contains needle rest

/-- Whether one of several strings occurs in a text. -/
def containsAny (needles : List String) (text : List Char) : Bool :=
  needles.any fun needle => contains needle.toList text

/-- The parts of a text before and after the first character of a kind, if there is one. -/
def splitFirst? (mark : Char) : List Char → Option (List Char × List Char)
  | [] => none
  | c :: rest =>
    if c = mark then some ([], rest)
    else (splitFirst? mark rest).map fun (front, back) => (c :: front, back)

/-- The parts of a text before and after the last character of a kind, if there is one. -/
def splitLast? (mark : Char) (text : List Char) : Option (List Char × List Char) :=
  (splitFirst? mark text.reverse).map fun (back, front) => (front.reverse, back.reverse)

theorem contains_iff {needle text : List Char} :
    contains needle text = true ↔ needle <:+: text := by
  induction text with
  | nil => simp [contains]
  | cons c rest ih =>
    rw [contains, Bool.or_eq_true, ih, List.infix_cons_iff, List.isPrefixOf_iff_prefix]

/-- A text is cut at a first character exactly when the part before it has none. -/
theorem splitFirst?_eq_some_iff {mark : Char} {text front back : List Char} :
    splitFirst? mark text = some (front, back) ↔
      text = front ++ mark :: back ∧ mark ∉ front := by
  induction text generalizing front with
  | nil => simp [splitFirst?]
  | cons c rest ih =>
    by_cases hc : c = mark
    · simp only [splitFirst?, hc, if_true, Option.some.injEq, Prod.mk.injEq]
      constructor
      · rintro ⟨rfl, rfl⟩
        simp
      · rintro ⟨htext, hfront⟩
        cases front with
        | nil => simpa using htext
        | cons d front => simp_all
    · simp only [splitFirst?, hc, if_false, Option.map_eq_some_iff, Prod.mk.injEq, Prod.exists]
      constructor
      · rintro ⟨front', back', hsplit, rfl, rfl⟩
        obtain ⟨rfl, hfront⟩ := ih.1 hsplit
        simpa [Ne.symm hc] using hfront
      · rintro ⟨htext, hfront⟩
        cases front with
        | nil => simp_all
        | cons d front =>
          simp only [List.cons_append, List.cons.injEq] at htext
          obtain ⟨rfl, rfl⟩ := htext
          exact ⟨front, back, ih.2 ⟨rfl, by simp_all⟩, rfl, rfl⟩

/-- A text is cut at a last character exactly when the part after it has none. -/
theorem splitLast?_eq_some_iff {mark : Char} {text front back : List Char} :
    splitLast? mark text = some (front, back) ↔
      text = front ++ mark :: back ∧ mark ∉ back := by
  simp only [splitLast?, Option.map_eq_some_iff, Prod.mk.injEq, Prod.exists]
  constructor
  · rintro ⟨back', front', hsplit, rfl, rfl⟩
    obtain ⟨htext, hback⟩ := splitFirst?_eq_some_iff.1 hsplit
    have htext' := congrArg List.reverse htext
    simp only [List.reverse_reverse, List.reverse_append, List.reverse_cons, List.append_assoc,
      List.singleton_append] at htext'
    exact ⟨htext', by simpa using hback⟩
  · rintro ⟨rfl, hback⟩
    refine ⟨back.reverse, front.reverse, splitFirst?_eq_some_iff.2 ⟨by simp, by simpa using hback⟩,
      by simp, by simp⟩

end Survey.Text
