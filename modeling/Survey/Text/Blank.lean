/-
# Blank characters

The blanks are the characters with the property `White_Space`: the controls from tab to carriage
return, the space, the next-line control and the spaces and separators beyond it.  Zero-width
characters and the byte order mark are no blanks.

Trimming and cutting into words go by this property, and so does every pattern that skips blanks.
-/
import Survey.Text.Ranges

namespace Survey.Text

/-- The code points with the property `White_Space`. -/
def blankRanges : List (Nat × Nat) :=
  [(0x9, 0xd), (0x20, 0x20), (0x85, 0x85), (0xa0, 0xa0), (0x1680, 0x1680), (0x2000, 0x200a),
   (0x2028, 0x2029), (0x202f, 0x202f), (0x205f, 0x205f), (0x3000, 0x3000)]

/-- Whether a character is blank. -/
def isBlank (c : Char) : Bool := inRanges blankRanges c.toNat

/-- A text without the blanks at its start. -/
def trimStart (text : List Char) : List Char := text.dropWhile isBlank

/-- A text without the blanks at its end. -/
def trimEnd (text : List Char) : List Char := (text.reverse.dropWhile isBlank).reverse

/-- A text without the blanks at its two ends. -/
def trim (text : List Char) : List Char := trimEnd (trimStart text)

/-! ### Cutting -/

/-- Puts a character in front of the first piece. -/
def consHead (c : Char) : List (List Char) → List (List Char)
  | [] => [[c]]
  | piece :: pieces => (c :: piece) :: pieces

/-- Cuts a text at every character of a class; the pieces lie between the cuts, so there is one
piece more than there are cuts. -/
def cutAt (cut : Char → Bool) : List Char → List (List Char)
  | [] => [[]]
  | c :: rest => if cut c then [] :: cutAt cut rest else consHead c (cutAt cut rest)

/-- The pieces that are not empty. -/
def nonEmpty (pieces : List (List Char)) : List (List Char) := pieces.filter (!·.isEmpty)

/-- The words of a text: its maximal runs of characters that are not blank. -/
def words (text : List Char) : List (List Char) := nonEmpty (cutAt isBlank text)

@[simp] theorem cutAt_nil (cut : Char → Bool) : cutAt cut [] = [[]] := rfl

@[simp] theorem consHead_cons (c : Char) (piece : List Char) (pieces : List (List Char)) :
    consHead c (piece :: pieces) = (c :: piece) :: pieces := rfl

theorem consHead_ne_nil (c : Char) (pieces : List (List Char)) : consHead c pieces ≠ [] := by
  cases pieces <;> simp [consHead]

theorem cutAt_ne_nil (cut : Char → Bool) (text : List Char) : cutAt cut text ≠ [] := by
  cases text with
  | nil => simp
  | cons c rest =>
    rw [cutAt]
    split
    · simp
    · exact consHead_ne_nil c _

theorem mem_nonEmpty {piece : List Char} {pieces : List (List Char)} :
    piece ∈ nonEmpty pieces ↔ piece ∈ pieces ∧ piece ≠ [] := by
  simp [nonEmpty]

end Survey.Text
