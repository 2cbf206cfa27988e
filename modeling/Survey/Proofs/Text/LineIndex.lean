/-
# A line index against the bytes and the lines of a text

A line index is searched for every offset of a text, also for one inside a character or behind the
text.  What it answers is what a rescan of the bytes in front of the offset finds: the number of the
line is one more than the number of newline bytes, and the line starts behind the last of them.  No
newline byte is part of a longer character, so the characters that end in front of an offset have
all newlines that the bytes have.

The lines that the text is cut into are numbered in the same way.  The line of an offset stands in
the text at the start that the index gives, and what lies between this start and the offset is a
front part of it.
-/
import Survey.Proofs.Text.Places

namespace Survey.Text

variable {front back own u : List Char} {ls : List (List Char)} {offset : Nat}

/-! ### Searching the starts -/

/-- A number of entries of a list such that those before it are at most a bound and those behind it
are above the bound.  A search by halving looks for this number. -/
structure PartsAt (l : List Nat) (bound count : Nat) : Prop where
  le_length : count ≤ l.length
  before : ∀ n ∈ l.take count, n ≤ bound
  behind : ∀ n ∈ l.drop count, bound < n

namespace PartsAt

variable {l : List Nat} {bound count count' : Nat}

lemma le (h : PartsAt l bound count) (h' : PartsAt l bound count') : count ≤ count' := by
  by_contra hlt
  -- the entry behind the smaller number would be on both sides of the bound
  have hpos : count' < l.length := by
    have := h.le_length
    omega
  have hbefore := h.before l[count'] (List.mem_take_iff_getElem.2 ⟨count', by omega, rfl⟩)
  have hbehind := h'.behind l[count'] (List.mem_drop_iff_getElem.2 ⟨0, by omega, by simp⟩)
  omega

/-- There is one such number at most. -/
lemma eq (h : PartsAt l bound count) (h' : PartsAt l bound count') : count = count' :=
  Nat.le_antisymm (h.le h') (h'.le h)

end PartsAt

/-- In a list in increasing order the entries up to a bound are the ones at its front. -/
lemma partsAt_takeWhile {l : List Nat} (hl : l.Pairwise (· < ·)) (bound : Nat) :
    PartsAt l bound (l.takeWhile (· ≤ bound)).length := by
  induction l with
  | nil => exact ⟨Nat.le_refl _, by simp, by simp⟩
  | cons n l ih =>
    obtain ⟨hn, hl⟩ := List.pairwise_cons.1 hl
    by_cases hle : n ≤ bound
    · obtain ⟨hlength, hbefore, hbehind⟩ := ih hl
      rw [List.takeWhile_cons_of_pos (by simpa using hle), List.length_cons]
      exact ⟨Nat.succ_le_succ hlength, List.forall_mem_cons.2 ⟨hle, hbefore⟩, hbehind⟩
    · rw [List.takeWhile_cons_of_neg (by simpa using hle)]
      have hlt : bound < n := Nat.lt_of_not_le hle
      exact ⟨Nat.zero_le _, by simp,
        List.forall_mem_cons.2 ⟨hlt, fun m hm => hlt.trans (hn m hm)⟩⟩

lemma pairwise_lineStartsFrom (offset : Nat) (text : List Char) :
    (lineStartsFrom offset text).Pairwise (· < ·) := by
  induction text generalizing offset with
  | nil => exact .nil
  | cons c text ih =>
    rw [lineStartsFrom]
    split
    · exact .cons (fun n hn => (mem_lineStartsFrom hn).1) (ih _)
    · exact ih _

/-- The lines of a text start one behind the other. -/
lemma LineIndex.pairwise_starts (text : List Char) :
    (LineIndex.ofText text).starts.Pairwise (· < ·) :=
  .cons (fun _ hn => (mem_lineStartsFrom hn).1) (pairwise_lineStartsFrom 0 text)

/-! ### Newline bytes -/

/-- The byte of a newline. -/
def newlineByte : UInt8 := 0x0a

/-- A newline byte is a newline. -/
lemma newlineByte_mem_utf8EncodeChar {c : Char} :
    newlineByte ∈ String.utf8EncodeChar c ↔ c = '\n' := by
  constructor
  · intro h
    have hascii : c.val.toNat ≤ 127 := by
      by_contra hlong
      exact not_ascii_of_mem_utf8EncodeChar hlong _ h (by decide)
    have hone : String.utf8EncodeChar c = [UInt8.ofNat c.val.toNat] := if_pos hascii
    rw [hone, List.mem_singleton, ← UInt8.toNat_inj, UInt8.toNat_ofNat',
      Nat.mod_eq_of_lt (by omega)] at h
    exact Char.ext (UInt32.toNat_inj.1 h.symm)
  · rintro rfl
    decide

lemma newlineByte_notMem_utf8 (hu : '\n' ∉ u) : newlineByte ∉ utf8 u := by
  intro hmem
  obtain ⟨c, hc, hbyte⟩ := List.mem_flatMap.1 hmem
  exact hu (newlineByte_mem_utf8EncodeChar.1 hbyte ▸ hc)

lemma count_newlineByte_utf8 (text : List Char) :
    (utf8 text).count newlineByte = newlineCount text := by
  induction text with
  | nil => rfl
  | cons c text ih =>
    have hcons : utf8 (c :: text) = String.utf8EncodeChar c ++ utf8 text := rfl
    rw [hcons, List.count_append, ih, newlineCount, newlineCount, List.count_cons]
    by_cases hc : c = '\n'
    · subst hc
      exact Nat.add_comm 1 _
    · rw [List.count_eq_zero_of_not_mem (mt newlineByte_mem_utf8EncodeChar.1 hc),
        if_neg (by simpa using hc), Nat.zero_add, Nat.add_zero]

/-- The start of the line of an offset, told from the bytes of a text alone: one past the last
newline byte in front of the offset, or zero when there is no such byte. -/
inductive LineStartIn (bytes : List UInt8) (offset : Nat) : Nat → Prop
  | first (hnone : ∀ place < offset, bytes[place]? ≠ some newlineByte) : LineStartIn bytes offset 0
  | behind {place : Nat} (hlt : place < offset) (hnewline : bytes[place]? = some newlineByte)
      (hlast : ∀ later, place < later → later < offset → bytes[later]? ≠ some newlineByte) :
      LineStartIn bytes offset (place + 1)

/-- Behind a newline, or at the start of the text, a line starts; it goes on up to the next newline. -/
lemma lineStartIn_of_take {bytes u v : List UInt8} (hbytes : bytes.take offset = u ++ v)
    (hu : ∀ b ∈ u.getLast?, b = newlineByte) (hv : newlineByte ∉ v) :
    LineStartIn bytes offset u.length := by
  have hread {place : Nat} (hlt : place < offset) : bytes[place]? = (u ++ v)[place]? := by
    rw [← hbytes, List.getElem?_take_of_lt hlt]
  have hnone {place : Nat} (hle : u.length ≤ place) (hlt : place < offset) :
      bytes[place]? ≠ some newlineByte := by
    rw [hread hlt, List.getElem?_append_right hle]
    exact fun hget => hv (List.mem_of_getElem? hget)
  rcases List.eq_nil_or_concat u with rfl | ⟨u, b, rfl⟩
  · exact .first fun place hlt => hnone (Nat.zero_le _) hlt
  · rw [List.concat_eq_append] at *
    obtain rfl : b = newlineByte := hu b (by simp)
    rw [List.length_append, List.length_singleton] at *
    have hlt : u.length < offset := by
      have hlength := congrArg List.length hbytes
      simp only [List.length_take, List.length_append, List.length_singleton] at hlength
      omega
    refine .behind hlt ?_ fun later hlater => hnone hlater
    rw [hread hlt, List.append_assoc, List.getElem?_append_right (Nat.le_refl _), Nat.sub_self]
    rfl

/-! ### The bytes in front of an offset -/

/-- The bytes in front of an offset are those of the characters that end by it and some of the
character behind them, which belong to the first line of the rest of the text. -/
lemma EndsBy.exists_part (h : EndsBy front back offset) :
    ∃ part piece more, (utf8 (front ++ back)).take offset = utf8 front ++ part ∧
      newlineByte ∉ part ∧ lines back = piece :: more ∧ part <+: utf8 piece ∧ piece <+: back := by
  have hle : (utf8 front).length ≤ offset := by
    rw [length_utf8]
    exact h.le
  have htake : (utf8 (front ++ back)).take offset =
      utf8 front ++ (utf8 back).take (offset - byteLength front) := by
    rw [utf8_append, List.take_append, List.take_of_length_le hle, length_utf8]
  cases back with
  | nil => exact ⟨_, [], [], htake, by simp [utf8], rfl, by simp [utf8], List.prefix_rfl⟩
  | cons c back =>
    have hsize := h.lt c rfl
    have hcons : utf8 (c :: back) = String.utf8EncodeChar c ++ utf8 back := rfl
    rw [hcons, List.take_append_of_le_length (by rw [String.length_utf8EncodeChar]; omega)] at htake
    by_cases hc : c = '\n'
    · -- a newline has one byte, so none of it stands in front of the offset
      subst hc
      have hzero : offset - byteLength front = 0 := by
        have hone : '\n'.utf8Size = 1 := rfl
        omega
      rw [hzero, List.take_zero] at htake
      exact ⟨[], [], lines back, htake, List.not_mem_nil, rfl, List.nil_prefix, List.nil_prefix⟩
    · obtain ⟨piece, more, hcut, hpiece⟩ := exists_cutAt_eq_cons (· == '\n') back
      have hlines : lines (c :: back) = (c :: piece) :: more := by
        rw [lines, cutAt, hcut, if_neg (by simpa using hc), consHead_cons]
      refine ⟨_, c :: piece, more, htake, fun hmem => ?_, hlines, ?_, ?_⟩
      · exact hc (newlineByte_mem_utf8EncodeChar.1 (List.mem_of_mem_take hmem))
      · exact (List.take_prefix _ _).trans (List.prefix_append _ _)
      · exact (List.prefix_cons_inj c).2 hpiece

/-- The newline bytes in front of an offset are the newlines of the characters that end by it. -/
lemma EndsBy.count_eq (h : EndsBy front back offset) :
    ((utf8 (front ++ back)).take offset).count newlineByte = newlineCount front := by
  obtain ⟨part, -, -, htake, hpart, -⟩ := h.exists_part
  rw [htake, List.count_append, count_newlineByte_utf8, List.count_eq_zero_of_not_mem hpart,
    Nat.add_zero]

/-- The whole lines in front of an offset end where the line of the offset starts. -/
lemma EndsBy.lineStartIn (h : EndsBy front back offset) (hlines : lines front = ls ++ [own]) :
    LineStartIn (utf8 (front ++ back)) offset (byteLength (ended ls)) := by
  obtain ⟨part, -, -, htake, hpart, -⟩ := h.exists_part
  obtain ⟨hfront, hown⟩ := eq_of_lines hlines
  have hbytes : (utf8 (front ++ back)).take offset = utf8 (ended ls) ++ (utf8 own ++ part) := by
    rw [htake, ← List.append_assoc, ← utf8_append, ← hfront]
  rw [← length_utf8]
  refine lineStartIn_of_take hbytes ?_ ?_
  · rcases List.eq_nil_or_concat ls with rfl | ⟨ls, line, rfl⟩
    · simp [ended, utf8]
    · intro b hb
      have hend : utf8 ['\n'] = [newlineByte] := rfl
      rw [List.concat_eq_append, ended_append_singleton, utf8_append, hend, List.getLast?_concat] at hb
      exact (Option.some.inj hb).symm
  · rw [List.mem_append, not_or]
    exact ⟨newlineByte_notMem_utf8 hown, hpart⟩

/-! ### The line at an offset -/

/-- A line of a text, by the number of lines above it and the byte at which it stands: in front of
it stand the lines above it, each with its newline. -/
structure IsLine (text : List Char) (above start : Nat) (line : List Char) : Prop where
  listed : (lines text)[above]? = some line
  stands : ended ((lines text).take above) ++ line <+: text
  starts : byteLength (ended ((lines text).take above)) = start

/-- A line holds an offset: the bytes from the start of the line up to the offset are the first bytes
of the line, and when no character is cut there, they are its first characters. -/
structure HoldsOffset (text : List Char) (start offset : Nat) (line : List Char) : Prop where
  bytes : ((utf8 text).take offset).drop start <+: utf8 line
  no_newlineByte : newlineByte ∉ ((utf8 text).take offset).drop start
  text : IsPlace text offset → ∃ part, slice? text start offset = some part ∧ part <+: line ∧
    '\n' ∉ part

/-- At a place of a text the characters that end by it end at it. -/
lemma EndsBy.eq_of_isPlace (h : EndsBy front back offset) (hplace : IsPlace (front ++ back) offset) :
    byteLength front = offset := by
  obtain ⟨front', back', htext, rfl⟩ := hplace
  rcases List.append_eq_append_iff.1 htext with ⟨mid, rfl, rfl⟩ | ⟨mid, rfl, rfl⟩
  · cases mid with
    | nil => rw [List.append_nil]
    | cons c mid =>
      have hlt := h.lt c rfl
      rw [byteLength_append, byteLength_cons] at hlt
      omega
  · have hle := h.le
    rw [byteLength_append] at hle ⊢
    omega

lemma EndsBy.exists_isLine (h : EndsBy front back offset) (hlines : lines front = ls ++ [own]) :
    ∃ line, IsLine (front ++ back) ls.length (byteLength (ended ls)) line ∧
      HoldsOffset (front ++ back) (byteLength (ended ls)) offset line := by
  obtain ⟨part, piece, more, htake, hpart, hpiece, hprefix, hback⟩ := h.exists_part
  obtain ⟨hfront, hown⟩ := eq_of_lines hlines
  have hall : lines (front ++ back) = ls ++ (own ++ piece) :: more := by
    rw [lines_append hlines, hpiece, prependHead_cons]
  have habove : (lines (front ++ back)).take ls.length = ls := by rw [hall, List.take_left]
  have hdrop : ((utf8 (front ++ back)).take offset).drop (byteLength (ended ls)) =
      utf8 own ++ part := by
    rw [htake, hfront, utf8_append, List.append_assoc, ← length_utf8, List.drop_left]
  refine ⟨own ++ piece, ⟨?_, ?_, by rw [habove]⟩, ?_, ?_, fun hplace => ?_⟩
  · rw [hall, List.getElem?_append_right (Nat.le_refl _), Nat.sub_self]
    rfl
  · obtain ⟨rest, hrest⟩ := hback
    exact ⟨rest, by rw [habove, hfront, ← hrest]; simp⟩
  · rw [hdrop, utf8_append]
    exact (List.prefix_append_right_inj _).2 hprefix
  · rw [hdrop, List.mem_append, not_or]
    exact ⟨newlineByte_notMem_utf8 hown, hpart⟩
  · have hslice := slice?_append (ended ls) own back
    rw [← List.append_assoc, ← hfront, h.eq_of_isPlace hplace] at hslice
    exact ⟨own, hslice, List.prefix_append _ _, hown⟩

/-- **A line index agrees with its text.**  For every offset of a text, also behind its end, the
number of the line is the one number that a search of the starts can give, and it is one more than
the number of newline bytes in front of the offset; the line starts behind the last of these bytes.
The line with this number stands in the text at this start and holds the offset. -/
theorem LineIndex.agrees_with_text (text : List Char) (offset : Nat) :
    (∀ count, PartsAt (LineIndex.ofText text).starts offset count ↔
      count = (LineIndex.ofText text).lineOf offset) ∧
    (LineIndex.ofText text).lineOf offset = 1 + ((utf8 text).take offset).count newlineByte ∧
    LineStartIn (utf8 text) offset ((LineIndex.ofText text).lineStart offset) ∧
    ∃ line, IsLine text ((LineIndex.ofText text).lineOf offset - 1)
        ((LineIndex.ofText text).lineStart offset) line ∧
      HoldsOffset text ((LineIndex.ofText text).lineStart offset) offset line := by
  have hparts := partsAt_takeWhile (LineIndex.pairwise_starts text) offset
  obtain ⟨front, back, rfl, h⟩ := exists_endsBy text offset
  obtain ⟨ls, own, hlines⟩ := exists_lines_eq front
  have habove : (LineIndex.ofText (front ++ back)).lineOf offset - 1 = ls.length := by
    rw [h.lineOf_eq, newlineCount_of_lines hlines, Nat.add_sub_cancel_left]
  refine ⟨fun count => ⟨fun hcount => hcount.eq hparts, fun hcount => hcount ▸ hparts⟩, ?_, ?_, ?_⟩
  · rw [h.lineOf_eq, h.count_eq]
  · rw [h.lineStart_eq hlines]
    exact h.lineStartIn hlines
  · rw [habove, h.lineStart_eq hlines]
    exact h.exists_isLine hlines

theorem LineIndex.agrees_behind_long_character :
    IsPlace ['a', '\n', 'é'] 4 ∧ (LineIndex.ofText ['a', '\n', 'é']).lineOf 4 = 2 ∧
    LineStartIn (utf8 ['a', '\n', 'é']) 4 2 ∧
    ∃ line part, IsLine ['a', '\n', 'é'] 1 2 line ∧ slice? ['a', '\n', 'é'] 2 4 = some part ∧
      part <+: line ∧ '\n' ∉ part := by
  have hplace : IsPlace ['a', '\n', 'é'] 4 := isPlace_byteLength ['a', '\n', 'é'] []
  have hline : (LineIndex.ofText ['a', '\n', 'é']).lineOf 4 = 2 := by decide
  obtain ⟨-, -, hstart, line, hstands, hholds⟩ := LineIndex.agrees_with_text ['a', '\n', 'é'] 4
  obtain ⟨part, hslice, hprefix, hnewline⟩ := hholds.text hplace
  exact ⟨hplace, hline, hstart, line, part, hstands, hslice, hprefix, hnewline⟩

end Survey.Text
