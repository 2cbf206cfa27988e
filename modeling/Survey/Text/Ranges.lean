/-
# Tables of code points

A property of characters is given by a table of inclusive ranges of code points, in increasing
order.  This file looks a code point up in such a table; the tables themselves stand beside the
properties that they define.
-/

namespace Survey.Text

/-- Whether a code point lies in one of the ranges of an increasing table. -/
def inRanges : List (Nat × Nat) → Nat → Bool
  | [], _ => false
  | (first, last) :: rest, n =>
    if n < first then false else if n ≤ last then true else inRanges rest n

@[simp] theorem inRanges_nil (n : Nat) : inRanges [] n = false := rfl

end Survey.Text
