/-
# Cutting a text at the end of one of its parts

Byte counts are places of a text exactly where a character ends.  The byte length of a front part
is such a place, so taking, dropping and slicing by the byte lengths of parts give the parts back.
-/
import Mathlib.Data.List.Basic
import Survey.Text.Utf8

namespace Survey.Text

lemma utf8_append (front back : List Char) : utf8 (front ++ back) = utf8 front ++ utf8 back :=
  List.flatMap_append

lemma length_utf8 (text : List Char) : (utf8 text).length = byteLength text := by
  induction text with
  | nil => rfl
  | cons c text ih =>
    have hcons : utf8 (c :: text) = String.utf8EncodeChar c ++ utf8 text := rfl
    rw [hcons, List.length_append, ih, String.length_utf8EncodeChar, byteLength_cons]

lemma takeBytes?_append (front back : List Char) :
    takeBytes? (byteLength front) (front ++ back) = some front := by
  induction front with
  | nil => cases back <;> rfl
  | cons c rest ih =>
    have hpos : 0 < c.utf8Size := c.utf8Size_pos
    obtain ⟨n, hn⟩ : ∃ n, c.utf8Size + byteLength rest = n + 1 :=
      ⟨c.utf8Size + byteLength rest - 1, by omega⟩
    have hrest : n + 1 - c.utf8Size = byteLength rest := by omega
    simp [hn, takeBytes?, hrest, ih, show c.utf8Size ≤ n + 1 by omega]

lemma dropBytes?_append (front back : List Char) :
    dropBytes? (byteLength front) (front ++ back) = some back := by
  induction front with
  | nil => cases back <;> rfl
  | cons c rest ih =>
    have hpos : 0 < c.utf8Size := c.utf8Size_pos
    obtain ⟨n, hn⟩ : ∃ n, c.utf8Size + byteLength rest = n + 1 :=
      ⟨c.utf8Size + byteLength rest - 1, by omega⟩
    have hrest : n + 1 - c.utf8Size = byteLength rest := by omega
    simp [hn, dropBytes?, hrest, ih, show c.utf8Size ≤ n + 1 by omega]

/-- The slice between the byte lengths of two parts is what stands between them. -/
lemma slice?_append (front mid back : List Char) :
    slice? (front ++ (mid ++ back)) (byteLength front) (byteLength (front ++ mid)) = some mid := by
  have hsub : byteLength front + byteLength mid - byteLength front = byteLength mid := by omega
  simp [slice?, dropBytes?_append, hsub, takeBytes?_append]

end Survey.Text
