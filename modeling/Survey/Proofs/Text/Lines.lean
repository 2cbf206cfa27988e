/-
# Line numbers of places

The line that a line index gives for the place between two parts of a text is one more than the
number of newlines in the part before it, and it starts where the last line of that part starts.  An
offset inside a character is on the line of the place in front of the character, and an offset behind
the text is on the last line.
-/
import Survey.Proofs.Text.Bytes
import Survey.Proofs.Text.Pieces
import Survey.Text.Lines

namespace Survey.Text

variable {front back own : List Char} {ls : List (List Char)} {offset : Nat}

/-! ### The lines of a text -/

/-- Lines with a newline behind each. -/
def ended (ls : List (List Char)) : List Char := ls.flatMap (· ++ ['\n'])

lemma ended_append_singleton (ls : List (List Char)) (line : List Char) :
    ended (ls ++ [line]) = ended ls ++ line ++ ['\n'] := by
  simp [ended]

/-- The pieces of a text go on with what stands behind it. -/
lemma lines_append (h : lines front = ls ++ [own]) (back : List Char) :
    lines (front ++ back) = ls ++ prependHead own (lines back) := by
  obtain ⟨done, last, -, hcut⟩ := exists_cutAt_append '\n' front
  have hfront := hcut []
  rw [List.append_nil, cutAt_nil, prependHead_cons, List.append_nil] at hfront
  obtain ⟨rfl, hlast⟩ := List.append_inj' (h.symm.trans hfront) rfl
  obtain rfl := (List.cons.inj hlast).1
  exact hcut back

/-- A part without newlines goes on with the last line of a text. -/
lemma lines_append_of_notMem {u : List Char} (h : lines front = ls ++ [own]) (hu : '\n' ∉ u) :
    lines (front ++ u) = ls ++ [own ++ u] := by
  rw [lines_append h, lines, cutAt_of_notMem hu, prependHead_cons]

/-- A newline completes the last line of a text. -/
lemma lines_append_newline (h : lines front = ls ++ [own]) :
    lines (front ++ ['\n']) = ls ++ [own] ++ [[]] := by
  have hcut : lines ['\n'] = [[], []] := rfl
  rw [lines_append h, hcut, prependHead_cons, List.append_nil, List.append_assoc]
  rfl

lemma length_lines (text : List Char) : (lines text).length = newlineCount text + 1 := by
  induction text with
  | nil => rfl
  | cons c text ih =>
    obtain ⟨piece, pieces, hpieces⟩ := List.exists_cons_of_ne_nil (cutAt_ne_nil (· == '\n') text)
    have hlines : lines text = piece :: pieces := hpieces
    rw [hlines, List.length_cons, Nat.add_right_cancel_iff] at ih
    rw [lines, cutAt, newlineCount, List.count_cons, hpieces]
    split
    · rw [List.length_cons, List.length_cons, ih]
      rfl
    · rw [consHead_cons, List.length_cons, ih]
      rfl

/-- A text has a last line. -/
lemma exists_lines_eq (text : List Char) : ∃ ls own, lines text = ls ++ [own] :=
  ⟨_, _, (List.dropLast_append_getLast (cutAt_ne_nil _ text)).symm⟩

/-- A text is made of whole lines, which end with a newline, and a last line, which does not. -/
lemma eq_of_lines (h : lines front = ls ++ [own]) : front = ended ls ++ own ∧ '\n' ∉ own := by
  have hjoin : ∀ ls : List (List Char), ['\n'].intercalate (ls ++ [own]) = ended ls ++ own := by
    intro ls
    induction ls with
    | nil => simp [ended]
    | cons line ls ih =>
      have hne : ls ++ [own] ≠ [] := by simp
      obtain ⟨next, more, hnext⟩ := List.exists_cons_of_ne_nil hne
      rw [hnext] at ih
      rw [List.cons_append, hnext, List.intercalate_cons_cons, ih]
      simp [ended]
  obtain ⟨htext, hnewline⟩ := intercalate_cutAt '\n' front
  rw [← lines, h, hjoin] at htext
  exact ⟨htext.symm, hnewline own (by rw [← lines, h]; simp)⟩

lemma newlineCount_of_lines (h : lines front = ls ++ [own]) : newlineCount front = ls.length := by
  have hlength := length_lines front
  rw [h, List.length_append, List.length_singleton] at hlength
  omega

/-! ### Where lines start -/

lemma lineStartsFrom_append (offset : Nat) (front back : List Char) :
    lineStartsFrom offset (front ++ back) =
      lineStartsFrom offset front ++ lineStartsFrom (offset + byteLength front) back := by
  induction front generalizing offset with
  | nil => simp [lineStartsFrom]
  | cons c front ih =>
    have hoffset : offset + c.utf8Size + byteLength front =
        offset + (c.utf8Size + byteLength front) := by omega
    simp only [List.cons_append, lineStartsFrom, byteLength_cons, ih, hoffset]
    split <;> simp

lemma length_lineStartsFrom (offset : Nat) (text : List Char) :
    (lineStartsFrom offset text).length = newlineCount text := by
  induction text generalizing offset with
  | nil => rfl
  | cons c text ih =>
    simp only [lineStartsFrom, newlineCount, List.count_cons, beq_iff_eq]
    split
    · rw [List.length_cons, ih]
      rfl
    · exact ih _

lemma mem_lineStartsFrom {offset n : Nat} {text : List Char} (h : n ∈ lineStartsFrom offset text) :
    offset < n ∧ n ≤ offset + byteLength text := by
  induction text generalizing offset with
  | nil => simp [lineStartsFrom] at h
  | cons c text ih =>
    have hpos : 0 < c.utf8Size := c.utf8Size_pos
    have hrest (hmem : n ∈ lineStartsFrom (offset + c.utf8Size) text) :
        offset < n ∧ n ≤ offset + (c.utf8Size + byteLength text) := by
      have := ih hmem
      omega
    rw [byteLength_cons]
    simp only [lineStartsFrom] at h
    split at h
    · rcases List.mem_cons.1 h with rfl | h
      · omega
      · exact hrest h
    · exact hrest h

/-- No line but the first starts in front of the end of the first character of a text. -/
lemma le_of_mem_lineStartsFrom {n : Nat} {text : List Char} {c : Char} (hc : text.head? = some c)
    (h : n ∈ lineStartsFrom offset text) : offset + c.utf8Size ≤ n := by
  obtain ⟨rest, rfl⟩ := List.head?_eq_some_iff.1 hc
  rw [lineStartsFrom] at h
  split at h
  · rcases List.mem_cons.1 h with rfl | h
    · exact Nat.le_refl _
    · exact Nat.le_of_lt (mem_lineStartsFrom h).1
  · exact Nat.le_of_lt (mem_lineStartsFrom h).1

/-- A line starts behind every newline. -/
lemma getElem?_lineStartsFrom (u v : List Char) :
    (lineStartsFrom 0 (u ++ '\n' :: v))[newlineCount u]? = some (byteLength u + 1) := by
  rw [lineStartsFrom_append, List.getElem?_append_right (Nat.le_of_eq (length_lineStartsFrom 0 u)),
    length_lineStartsFrom, Nat.sub_self, lineStartsFrom, if_pos rfl, Nat.zero_add]
  rfl

/-! ### The line of an offset -/

/-- The characters of a text that end at an offset or in front of it, and the characters behind
them. -/
structure EndsBy (front back : List Char) (offset : Nat) : Prop where
  le : byteLength front ≤ offset
  lt : ∀ c ∈ back.head?, offset < byteLength front + c.utf8Size

lemma endsBy_byteLength (front back : List Char) : EndsBy front back (byteLength front) :=
  ⟨Nat.le_refl _, fun c _ => Nat.lt_add_of_pos_right c.utf8Size_pos⟩

/-- Every offset, also one behind the text, divides the characters of a text. -/
lemma exists_endsBy (text : List Char) (offset : Nat) :
    ∃ front back, text = front ++ back ∧ EndsBy front back offset := by
  induction text generalizing offset with
  | nil => exact ⟨[], [], rfl, Nat.zero_le _, by simp⟩
  | cons c text ih =>
    by_cases hlt : offset < c.utf8Size
    · exact ⟨[], c :: text, rfl, Nat.zero_le _, by simpa using hlt⟩
    · obtain ⟨front, back, rfl, hle, hback⟩ := ih (offset - c.utf8Size)
      refine ⟨c :: front, back, rfl, ?_, fun d hd => ?_⟩
      · rw [byteLength_cons]
        omega
      · have := hback d hd
        rw [byteLength_cons]
        omega

theorem EndsBy.lineOf_eq (h : EndsBy front back offset) :
    (LineIndex.ofText (front ++ back)).lineOf offset = 1 + newlineCount front := by
  have hfront : ∀ n ∈ lineStartsFrom 0 front, decide (n ≤ offset) = true := by
    intro n hn
    have hle := (mem_lineStartsFrom hn).2
    rw [Nat.zero_add] at hle
    exact decide_eq_true (Nat.le_trans hle h.le)
  have hback : (lineStartsFrom (0 + byteLength front) back).takeWhile
      (fun n => decide (n ≤ offset)) = [] := by
    cases hhead : back.head? with
    | none =>
      obtain rfl := List.head?_eq_none_iff.1 hhead
      rfl
    | some c =>
      cases hstarts : lineStartsFrom (0 + byteLength front) back with
      | nil => rfl
      | cons n starts =>
        have hstart := le_of_mem_lineStartsFrom hhead (hstarts ▸ List.mem_cons_self (a := n))
        have hlt := h.lt c hhead
        exact List.takeWhile_cons_of_neg (by simp; omega)
  rw [LineIndex.lineOf, LineIndex.ofText, lineStartsFrom_append,
    List.takeWhile_cons_of_pos (by simp), List.takeWhile_append_of_pos hfront, hback,
    List.append_nil, List.length_cons, length_lineStartsFrom]
  omega

/-- The line of an offset starts behind the whole lines in front of the offset. -/
lemma EndsBy.lineStart_eq (h : EndsBy front back offset) (hlines : lines front = ls ++ [own]) :
    (LineIndex.ofText (front ++ back)).lineStart offset = byteLength (ended ls) := by
  have hcount := newlineCount_of_lines hlines
  obtain ⟨htext, hown⟩ := eq_of_lines hlines
  rw [LineIndex.lineStart, h.lineOf_eq, hcount, Nat.add_sub_cancel_left]
  rcases List.eq_nil_or_concat ls with rfl | ⟨ls, line, rfl⟩
  · rfl
  · -- the last of the whole lines ends with the newline that the index lists under their number
    rw [List.concat_eq_append] at htext hcount ⊢
    rw [ended_append_singleton, List.append_assoc, List.singleton_append] at htext
    have hwhole : newlineCount (ended ls ++ line) = ls.length := by
      rw [htext, newlineCount, List.count_append, List.count_cons_self,
        List.count_eq_zero_of_not_mem hown, List.length_append, List.length_singleton] at hcount
      exact Nat.add_right_cancel hcount
    have hlisted := getElem?_lineStartsFrom (ended ls ++ line) (own ++ back)
    rw [hwhole, ← List.cons_append, ← List.append_assoc, ← htext] at hlisted
    rw [LineIndex.ofText, List.length_append, List.length_singleton, List.getD_cons_succ,
      List.getD_eq_getElem?_getD, hlisted, Option.getD_some, ended_append_singleton,
      byteLength_append (ended ls ++ line)]
    rfl

theorem lineOf_byteLength (front back : List Char) :
    (LineIndex.ofText (front ++ back)).lineOf (byteLength front) = 1 + newlineCount front :=
  (endsBy_byteLength front back).lineOf_eq

/-- The last line of a text starts behind the newlines of the text. -/
lemma lineStart_byteLength (h : lines front = ls ++ [own]) (back : List Char) :
    (LineIndex.ofText (front ++ back)).lineStart (byteLength front) = byteLength (ended ls) :=
  (endsBy_byteLength front back).lineStart_eq h

/-- A later offset is on the same line or on a later one. -/
lemma LineIndex.lineOf_mono (index : LineIndex) {a b : Nat} (h : a ≤ b) :
    index.lineOf a ≤ index.lineOf b := by
  rw [lineOf, lineOf]
  induction index.starts with
  | nil => exact Nat.le_refl _
  | cons start starts ih =>
    by_cases hstart : start ≤ a
    · rw [List.takeWhile_cons_of_pos (by simpa using hstart),
        List.takeWhile_cons_of_pos (by simpa using Nat.le_trans hstart h)]
      exact Nat.succ_le_succ ih
    · rw [List.takeWhile_cons_of_neg (by simpa using hstart)]
      exact Nat.zero_le _

end Survey.Text
