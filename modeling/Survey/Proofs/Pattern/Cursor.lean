/-
# Places between two parts of a text

Every cursor stands between the text before it and the text after it, and these two parts determine
it: the offset is the byte length of the first.  `Cursor.between front back` is the cursor given by
its two parts in reading order.  This file says how the moves of a cursor act on the two parts, and
that a span between two such places has the text between them.
-/
import Mathlib.Data.List.TakeWhile
import Survey.Pattern.Cursor
import Survey.Proofs.Text.Bytes

namespace Survey

open Survey.Text

/-! ### Cursors by their two parts -/

namespace Cursor

/-- The place between two parts of a text. -/
def between (front back : List Char) : Cursor :=
  ⟨front.reverse, back, byteLength front, by simp⟩

@[simp] lemma before_between (front back : List Char) :
    (between front back).before = front.reverse := rfl

@[simp] lemma after_between (front back : List Char) : (between front back).after = back := rfl

@[simp] lemma offset_between (front back : List Char) :
    (between front back).offset = byteLength front := rfl

/-- The two parts determine a cursor. -/
lemma eq_of_parts {c d : Cursor} (hbefore : c.before = d.before) (hafter : c.after = d.after) :
    c = d := by
  obtain ⟨cb, ca, co, hc⟩ := c
  obtain ⟨db, da, do', hd⟩ := d
  simp only at hbefore hafter
  subst hbefore hafter
  simp [hc, hd]

lemma eq_between (c : Cursor) : c = between c.before.reverse c.after :=
  eq_of_parts (by simp) rfl

lemma ofText_eq_between (text : List Char) : ofText text = between [] text := rfl

@[simp] lemma pass_between (front back : List Char) (a : Char) :
    (between front (a :: back)).pass a back = between (front ++ [a]) back :=
  eq_of_parts (by simp [pass]) rfl

@[simp] lemma next_between (front back : List Char) (a : Char) :
    (between front (a :: back)).next = between (front ++ [a]) back := pass_between front back a

/-! ### Moves -/

lemma skip?_between (word front back : List Char) :
    skip? word (between front (word ++ back)) = some (between (front ++ word) back) := by
  induction word generalizing front with
  | nil => simp [skip?]
  | cons w word ih =>
    simp only [List.cons_append, skip?, after_between, if_true, pass_between]
    rw [ih]
    simp

lemma skip?_cons_between (a b : Char) (word front back : List Char) :
    skip? (a :: word) (between front (b :: back)) =
      if a = b then skip? word (between (front ++ [b]) back) else none := by
  simp [skip?]

/-- A word is skipped exactly when it comes next. -/
lemma skip?_eq_some_iff {word front back : List Char} {d : Cursor} :
    skip? word (between front back) = some d ↔
      ∃ rest, back = word ++ rest ∧ d = between (front ++ word) rest := by
  constructor
  · intro h
    induction word generalizing front back with
    | nil =>
      simp only [skip?, Option.some.injEq] at h
      exact ⟨back, rfl, by simp [← h]⟩
    | cons w word ih =>
      cases back with
      | nil => simp [skip?] at h
      | cons a back =>
        simp only [skip?, after_between, pass_between] at h
        split at h
        · rename_i hwa
          obtain ⟨rest, hback, hd⟩ := ih h
          exact ⟨rest, by simp [hwa, hback], by simpa [hwa] using hd⟩
        · simp at h
  · rintro ⟨rest, rfl, rfl⟩
    exact skip?_between word front rest

lemma takeWhile_append_stop {cls : Char → Bool} {u rest : List Char}
    (hu : ∀ c ∈ u, cls c = true) (hstop : ∀ c ∈ rest.head?, cls c = false) :
    (u ++ rest).takeWhile cls = u ∧ (u ++ rest).dropWhile cls = rest := by
  rw [List.takeWhile_append_of_pos hu, List.dropWhile_append_of_pos hu]
  cases rest with
  | nil => simp
  | cons c rest => simp [hstop c (by simp)]

/-- A text begins with the longest stretch of characters of a class. -/
lemma exists_stop (cls : Char → Bool) (text : List Char) :
    ∃ u rest, text = u ++ rest ∧ (∀ c ∈ u, cls c = true) ∧ ∀ c ∈ rest.head?, cls c = false := by
  refine ⟨text.takeWhile cls, text.dropWhile cls, List.takeWhile_append_dropWhile.symm,
    fun c hc => List.mem_takeWhile_imp hc, fun c hc => ?_⟩
  have hnot := List.head?_dropWhile_not cls text
  simp_all

/-- Passing all characters of a class goes over the longest stretch of them. -/
lemma passAll?_between (cls : Char → Bool) (least : Nat) (front back : List Char) :
    passAll? cls least (between front back) =
      if least ≤ (back.takeWhile cls).length then
        some (between (front ++ back.takeWhile cls) (back.dropWhile cls))
      else none := by
  suffices h : ∀ least front, passAllFrom? cls least (between front back) back =
      if least ≤ (back.takeWhile cls).length then
        some (between (front ++ back.takeWhile cls) (back.dropWhile cls))
      else none from h least front
  induction back with
  | nil =>
    intro least front
    cases least <;> simp [passAllFrom?]
  | cons a back ih =>
    intro least front
    simp only [passAllFrom?, pass_between, ih]
    by_cases ha : cls a
    · simp [ha]
    · simp [ha]

/-- The places that a run passes, by the number of characters gone over. -/
lemma stops_between (cls : Char → Bool) (front back : List Char) :
    stops cls (between front back) =
      (List.range ((back.takeWhile cls).length + 1)).map fun i =>
        between (front ++ back.take i) (back.drop i) := by
  suffices h : ∀ front, stopsFrom cls (between front back) back =
      (List.range ((back.takeWhile cls).length + 1)).map fun i =>
        between (front ++ back.take i) (back.drop i) from h front
  induction back with
  | nil => simp [stopsFrom]
  | cons a back ih =>
    intro front
    simp only [stopsFrom, pass_between, ih]
    by_cases ha : cls a
    · rw [List.takeWhile_cons_of_pos ha, List.length_cons,
        List.range_succ_eq_map (n := (back.takeWhile cls).length + 1)]
      simp only [ha, if_true, List.map_cons, List.map_map, List.take_zero, List.drop_zero,
        List.append_nil]
      congr 1
      refine List.map_congr_left fun i _ => ?_
      simp
    · simp [ha]

/-! ### Going forward -/

/-- One cursor lies behind another, with the given text in between. -/
def Passes (c : Cursor) (u : List Char) (d : Cursor) : Prop :=
  ∃ front back, c = between front (u ++ back) ∧ d = between (front ++ u) back

lemma passes_between (front u back : List Char) :
    (between front (u ++ back)).Passes u (between (front ++ u) back) := ⟨front, back, rfl, rfl⟩

lemma passes_nil (c : Cursor) : c.Passes [] c :=
  ⟨c.before.reverse, c.after, eq_between c, by simpa using eq_between c⟩

lemma Passes.trans {c d e : Cursor} {u v : List Char} (h : c.Passes u d) (h' : d.Passes v e) :
    c.Passes (u ++ v) e := by
  obtain ⟨front, back, rfl, rfl⟩ := h
  obtain ⟨front', back', hd, rfl⟩ := h'
  have hafter : back = v ++ back' := congrArg after hd
  have hbefore : front ++ u = front' := by simpa using congrArg (fun c => c.before.reverse) hd
  exact ⟨front, back', by simp [hafter], by simp [← hbefore]⟩

lemma Passes.after_eq {c d : Cursor} {u : List Char} (h : c.Passes u d) :
    c.after = u ++ d.after := by
  obtain ⟨front, back, rfl, rfl⟩ := h
  rfl

lemma Passes.front_eq {c d : Cursor} {u : List Char} (h : c.Passes u d) :
    d.before.reverse = c.before.reverse ++ u := by
  obtain ⟨front, back, rfl, rfl⟩ := h
  simp

lemma Passes.offset_eq {c d : Cursor} {u : List Char} (h : c.Passes u d) :
    d.offset = c.offset + byteLength u := by
  obtain ⟨front, back, rfl, rfl⟩ := h
  simp

lemma Passes.text_eq {c d : Cursor} {u : List Char} (h : c.Passes u d) : d.text = c.text := by
  obtain ⟨front, back, rfl, rfl⟩ := h
  simp [text]

/-- What is passed from a place between two parts of a text begins the second part. -/
lemma Passes.exists_rest {front back u : List Char} {d : Cursor}
    (h : (between front back).Passes u d) :
    ∃ rest, back = u ++ rest ∧ d = between (front ++ u) rest := by
  refine ⟨d.after, h.after_eq, eq_of_parts ?_ rfl⟩
  have hfront := h.front_eq
  rw [before_between, List.reverse_reverse] at hfront
  rw [before_between, ← hfront, List.reverse_reverse]

/-- Going over a text moves on exactly when the text is not empty. -/
lemma Passes.offset_lt_iff {c d : Cursor} {u : List Char} (h : c.Passes u d) :
    c.offset < d.offset ↔ u ≠ [] := by
  rw [h.offset_eq]
  cases u with
  | nil => simp
  | cons a u =>
    have hpos : 0 < a.utf8Size := a.utf8Size_pos
    simp only [byteLength_cons, ne_eq, reduceCtorEq, not_false_eq_true, iff_true]
    omega

end Cursor

namespace Span

/-- The text of the span between two places is what the one passes to reach the other. -/
lemma text_of_passes {c d : Cursor} {u : List Char} (h : c.Passes u d) : (Span.mk c d).text = u := by
  obtain ⟨front, back, rfl, rfl⟩ := h
  have hsub : byteLength front + byteLength u - byteLength front = byteLength u := by omega
  simp [Span.text, hsub, takeBytes?_append]

/-- The span of a text between two parts around it. -/
def between (front u back : List Char) : Span :=
  ⟨.between front (u ++ back), .between (front ++ u) back⟩

@[simp] lemma text_between (front u back : List Char) : (between front u back).text = u :=
  text_of_passes (Cursor.passes_between front u back)

end Span

end Survey
