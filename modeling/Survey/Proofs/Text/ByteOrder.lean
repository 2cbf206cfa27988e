/-
# Strings in the order of their bytes

Strings are compared character by character.  The first byte of a character tells how many bytes it
has, and characters with more bytes come later, so comparing the UTF-8 bytes gives the same order.
-/
import Mathlib.Data.List.Basic
import Survey.Text.Utf8

namespace Survey.Text

/-- One string comes before another in the order of their UTF-8 bytes. -/
def ByteLt (s t : String) : Prop := utf8 s.toList < utf8 t.toList

/-! ### Characters -/

/-- Some bytes are below others at the first place where they differ, and there is such a place. -/
def DiffersBelow : List UInt8 → List UInt8 → Prop
  | a :: u, b :: v => a.toNat < b.toNat ∨ (a.toNat = b.toNat ∧ DiffersBelow u v)
  | _, _ => False

lemma DiffersBelow.append_lt {u v : List UInt8} (h : DiffersBelow u v) (x y : List UInt8) :
    u ++ x < v ++ y := by
  induction u generalizing v with
  | nil => exact h.elim
  | cons a u ih =>
    cases v with
    | nil => exact h.elim
    | cons b v =>
      rw [List.cons_append, List.cons_append, List.cons_lt_cons_iff]
      rcases h with h | ⟨heq, h⟩
      · exact Or.inl (UInt8.lt_iff_toNat_lt.2 h)
      · exact Or.inr ⟨UInt8.toNat_inj.1 heq, ih h⟩

/-- A number by its digits in base sixty-four. -/
lemma sixtyFour_digits (n : Nat) :
    n = n % 64 + 64 * (n / 64 % 64) + 4096 * (n / 4096 % 64) + 262144 * (n / 262144) := by
  omega

/-- The bytes of an earlier character come before those of a later one. -/
lemma differsBelow_utf8EncodeChar {c d : Char} (h : c < d) :
    DiffersBelow (String.utf8EncodeChar c) (String.utf8EncodeChar d) := by
  have hval : c.val.toNat < d.val.toNat := h
  have hmax : d.val.toNat < 0x110000 := by
    rcases d.valid with hlow | hhigh
    · exact Nat.lt_trans hlow (by decide)
    · exact hhigh.2
  have hc := sixtyFour_digits c.val.toNat
  have hd := sixtyFour_digits d.val.toNat
  -- the numbers of bytes differ in the first byte, and equal numbers leave the digits to compare
  rw [String.utf8EncodeChar, String.utf8EncodeChar]
  split_ifs <;>
    simp (disch := omega) only [DiffersBelow, UInt8.toNat_ofNat', Nat.reducePow,
      Nat.mod_eq_of_lt] <;>
    omega

/-! ### Texts -/

lemma utf8_lt_of_lt {u v : List Char} (h : u < v) : utf8 u < utf8 v := by
  induction u generalizing v with
  | nil =>
    cases v with
    | nil => exact absurd h (List.lt_irrefl _)
    | cons d v =>
      obtain ⟨b, bytes, hbytes⟩ := List.exists_cons_of_ne_nil (String.utf8EncodeChar_ne_nil (c := d))
      rw [utf8, utf8, List.flatMap_nil, List.flatMap_cons, hbytes]
      exact List.nil_lt_cons _ _
  | cons c u ih =>
    cases v with
    | nil => exact absurd h (List.not_lt_nil _)
    | cons d v =>
      rw [utf8, utf8, List.flatMap_cons, List.flatMap_cons]
      rcases List.cons_lt_cons_iff.1 h with hlt | ⟨rfl, hlt⟩
      · exact (differsBelow_utf8EncodeChar hlt).append_lt _ _
      · exact List.append_left_lt (ih hlt)

/-- The order of strings is the order of their bytes. -/
theorem byteLt_of_lt {s t : String} (h : s < t) : ByteLt s t := utf8_lt_of_lt (String.lt_iff.1 h)

end Survey.Text
