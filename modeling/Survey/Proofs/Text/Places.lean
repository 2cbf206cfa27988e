/-
# Places of a text

A byte count is a place of a text if a character ends there; only places cut a text.  Line starts
are places, and so are the two sides of an ASCII byte: a byte below 128 is a character of its own,
never a part of a longer one.
-/
import Mathlib.Data.List.TakeWhile
import Survey.Proofs.Text.Lines

namespace Survey.Text

/-- A byte count at which a character of a text ends, or at which the text starts. -/
def IsPlace (text : List Char) (n : Nat) : Prop :=
  ∃ front back, text = front ++ back ∧ byteLength front = n

variable {text : List Char} {n start stop : Nat}

lemma isPlace_byteLength (front back : List Char) : IsPlace (front ++ back) (byteLength front) :=
  ⟨front, back, rfl, rfl⟩

lemma eq_nil_of_byteLength_eq_zero (h : byteLength text = 0) : text = [] := by
  cases text with
  | nil => rfl
  | cons c text =>
    have hpos : 0 < c.utf8Size := c.utf8Size_pos
    rw [byteLength_cons] at h
    omega

/-- Two places in order have the parts before, between and behind them. -/
lemma IsPlace.exists_parts (hstart : IsPlace text start) (hstop : IsPlace text stop)
    (hle : start ≤ stop) :
    ∃ front mid back, text = front ++ (mid ++ back) ∧ byteLength front = start ∧
      byteLength (front ++ mid) = stop := by
  obtain ⟨front, back, rfl, rfl⟩ := hstart
  obtain ⟨front', back', htext, rfl⟩ := hstop
  rcases List.append_eq_append_iff.1 htext with ⟨mid, rfl, rfl⟩ | ⟨mid, rfl, rfl⟩
  · exact ⟨front, mid, back', rfl, rfl, rfl⟩
  · -- the second place is not in front of the first, so nothing stands between them
    rw [byteLength_append] at hle
    obtain rfl : mid = [] := eq_nil_of_byteLength_eq_zero (by omega)
    exact ⟨front', [], back, by simp, by simp, by simp⟩

/-- A text is cut between two of its places. -/
lemma IsPlace.exists_slice? (hstart : IsPlace text start) (hstop : IsPlace text stop)
    (hle : start ≤ stop) : ∃ part, slice? text start stop = some part := by
  obtain ⟨front, mid, back, rfl, rfl, rfl⟩ := hstart.exists_parts hstop hle
  exact ⟨mid, slice?_append front mid back⟩

/-! ### Lines -/

/-- A line starts behind a newline. -/
lemma isPlace_of_mem_lineStartsFrom {offset : Nat} (h : n ∈ lineStartsFrom offset text) :
    ∃ front back, text = front ++ back ∧ offset + byteLength front = n := by
  induction text generalizing offset with
  | nil => simp [lineStartsFrom] at h
  | cons c text ih =>
    have hrest (hmem : n ∈ lineStartsFrom (offset + c.utf8Size) text) :
        ∃ front back, c :: text = front ++ back ∧ offset + byteLength front = n := by
      obtain ⟨front, back, rfl, rfl⟩ := ih hmem
      exact ⟨c :: front, back, rfl, by rw [byteLength_cons, Nat.add_assoc]⟩
    simp only [lineStartsFrom] at h
    split at h
    · rcases List.mem_cons.1 h with rfl | h
      · exact ⟨[c], text, rfl, by simp⟩
      · exact hrest h
    · exact hrest h

lemma LineIndex.isPlace_of_mem_starts (h : n ∈ (LineIndex.ofText text).starts) :
    IsPlace text n := by
  rcases List.mem_cons.1 h with rfl | h
  · exact isPlace_byteLength [] text
  · obtain ⟨front, back, rfl, hn⟩ := isPlace_of_mem_lineStartsFrom h
    exact ⟨front, back, rfl, by omega⟩

/-- The index lists the start of the line of every offset, one position before the number of the
line, and this start is not above the offset. -/
lemma LineIndex.exists_start (text : List Char) (offset : Nat) :
    ∃ line start, (LineIndex.ofText text).lineOf offset = line + 1 ∧
      (LineIndex.ofText text).starts[line]? = some start ∧ start ≤ offset := by
  set starts := (LineIndex.ofText text).starts
  -- the lines that start at the offset or before it; the first is one of them
  have hcons : starts.takeWhile (· ≤ offset)
      = 0 :: (lineStartsFrom 0 text).takeWhile (· ≤ offset) :=
    List.takeWhile_cons_of_pos (by simp)
  obtain ⟨passed, start, hpassed⟩ :
      ∃ passed start, starts.takeWhile (· ≤ offset) = passed ++ [start] :=
    ⟨_, _, (List.dropLast_append_getLast (by simp [hcons])).symm⟩
  refine ⟨passed.length, start, by rw [LineIndex.lineOf, hpassed, List.length_append]; rfl, ?_, ?_⟩
  · rw [← List.takeWhile_append_dropWhile (p := (· ≤ offset)) (l := starts), hpassed]
    simp
  · have hmem : start ∈ starts.takeWhile (· ≤ offset) := by simp [hpassed]
    simpa using List.mem_takeWhile_imp hmem

/-! ### ASCII bytes -/

/-- A byte of at least 128 is no ASCII byte. -/
lemma not_ascii_ofNat {k : Nat} (hlow : 128 ≤ k) (hhigh : k < 256) : ¬ UInt8.ofNat k < 0x80 := by
  rw [UInt8.lt_iff_toNat_lt, UInt8.toNat_ofNat', Nat.mod_eq_of_lt hhigh]
  exact Nat.not_lt.2 hlow

/-- A longer character has no ASCII byte. -/
lemma not_ascii_of_mem_utf8EncodeChar {c : Char} (hc : ¬ c.val.toNat ≤ 127) :
    ∀ b ∈ String.utf8EncodeChar c, ¬ b < 0x80 := by
  simp only [String.utf8EncodeChar, if_neg hc]
  split_ifs <;>
    simp (disch := omega) only [List.forall_mem_cons, not_ascii_ofNat, not_false_eq_true,
      true_and, List.not_mem_nil, false_implies, implies_true]

/-- An ASCII byte is the only byte of its character. -/
lemma utf8EncodeChar_of_ascii {c : Char} {b : UInt8} (hb : b < 0x80)
    (h : b ∈ String.utf8EncodeChar c) : String.utf8EncodeChar c = [b] := by
  by_cases hc : c.val.toNat ≤ 127
  · have hone : String.utf8EncodeChar c = [UInt8.ofNat c.val.toNat] := if_pos hc
    rw [hone, List.mem_singleton] at h
    rw [hone, h]
  · exact absurd hb (not_ascii_of_mem_utf8EncodeChar hc b h)

/-- Before and behind an ASCII byte there is a place. -/
lemma exists_char_of_ascii {b : UInt8} (hb : b < 0x80) (h : (utf8 text)[n]? = some b) :
    ∃ front c back, text = front ++ c :: back ∧ byteLength front = n ∧
      String.utf8EncodeChar c = [b] := by
  induction text generalizing n with
  | nil => simp [utf8] at h
  | cons c text ih =>
    have hcons : utf8 (c :: text) = String.utf8EncodeChar c ++ utf8 text := rfl
    rw [hcons, List.getElem?_append] at h
    split at h
    · -- the byte belongs to the first character, and so it is all of it
      rename_i hlt
      have hchar := utf8EncodeChar_of_ascii hb (List.mem_of_getElem? h)
      rw [hchar, List.length_singleton] at hlt
      exact ⟨[], c, text, rfl, by rw [byteLength_nil]; omega, hchar⟩
    · rename_i hle
      obtain ⟨front, c', back, rfl, hn, hchar⟩ := ih h
      rw [String.length_utf8EncodeChar] at hn hle
      exact ⟨c :: front, c', back, rfl, by rw [byteLength_cons]; omega, hchar⟩

lemma isPlace_of_ascii {b : UInt8} (hb : b < 0x80) (h : (utf8 text)[n]? = some b) :
    IsPlace text n ∧ IsPlace text (n + 1) := by
  obtain ⟨front, c, back, rfl, rfl, hchar⟩ := exists_char_of_ascii hb h
  have hsize : c.utf8Size = 1 := by
    rw [← String.length_utf8EncodeChar, hchar, List.length_singleton]
  exact ⟨⟨front, c :: back, rfl, rfl⟩, ⟨front ++ [c], back, by simp, by simp [hsize]⟩⟩

end Survey.Text
