/-
# Bytes of a text

Places in a text are counted in bytes of its UTF-8 form.  A count that falls inside a character
is no place, so cutting a text at byte counts is a partial operation.

Bytes that are no UTF-8 are still read: every maximal piece that begins a character without
completing it, and every byte that begins none, is read as one replacement character.
-/

namespace Survey.Text

/-- The UTF-8 bytes of a text. -/
def utf8 (text : List Char) : List UInt8 := text.flatMap String.utf8EncodeChar

/-- The number of UTF-8 bytes of a text. -/
def byteLength : List Char → Nat
  | [] => 0
  | c :: rest => c.utf8Size + byteLength rest

@[simp] theorem byteLength_nil : byteLength [] = 0 := rfl

@[simp] theorem byteLength_cons (c : Char) (rest : List Char) :
    byteLength (c :: rest) = c.utf8Size + byteLength rest := rfl

@[simp] theorem byteLength_append (front back : List Char) :
    byteLength (front ++ back) = byteLength front + byteLength back := by
  induction front with
  | nil => simp
  | cons c rest ih => simp [ih, Nat.add_assoc]

@[simp] theorem byteLength_reverse (text : List Char) :
    byteLength text.reverse = byteLength text := by
  induction text with
  | nil => rfl
  | cons c rest ih => simp [ih, Nat.add_comm]

/-! ### Cutting at byte counts -/

/-- A text without its first `count` bytes, if a character ends there. -/
def dropBytes? : Nat → List Char → Option (List Char)
  | 0, text => some text
  | _ + 1, [] => none
  | count + 1, c :: rest =>
    if c.utf8Size ≤ count + 1 then dropBytes? (count + 1 - c.utf8Size) rest else none

/-- The first `count` bytes of a text, if a character ends there. -/
def takeBytes? : Nat → List Char → Option (List Char)
  | 0, _ => some []
  | _ + 1, [] => none
  | count + 1, c :: rest =>
    if c.utf8Size ≤ count + 1 then (takeBytes? (count + 1 - c.utf8Size) rest).map (c :: ·)
    else none

/-- The text between two byte counts, if both are places of the text, in this order. -/
def slice? (text : List Char) (start stop : Nat) : Option (List Char) :=
  if start ≤ stop then (dropBytes? start text).bind (takeBytes? (stop - start)) else none

/-! ### Reading bytes -/

/-- The character that stands for bytes that are no UTF-8. -/
def replacementChar : Char := '\ufffd'

/-- Whether a byte continues a character. -/
def isContinuation (b : UInt8) : Bool := 0x80 ≤ b && b ≤ 0xbf

/-- The last six bits of a continuation byte. -/
def payload (b : UInt8) : Nat := b.toNat % 64

/-- Whether a byte may come second after the first byte of a character of three bytes. -/
def secondOfThree (lead b : UInt8) : Bool :=
  if lead == 0xe0 then 0xa0 ≤ b && b ≤ 0xbf
  else if lead == 0xed then 0x80 ≤ b && b ≤ 0x9f
  else isContinuation b

/-- Whether a byte may come second after the first byte of a character of four bytes. -/
def secondOfFour (lead b : UInt8) : Bool :=
  if lead == 0xf0 then 0x90 ≤ b && b ≤ 0xbf
  else if lead == 0xf4 then 0x80 ≤ b && b ≤ 0x8f
  else isContinuation b

/-- The character that begins with a byte, and the number of bytes after it that belong to it. -/
def readChar (lead : UInt8) (rest : List UInt8) : Char × Nat :=
  if lead < 0x80 then (Char.ofNat lead.toNat, 0)
  else if 0xc2 ≤ lead && lead ≤ 0xdf then
    match rest with
    | b :: _ =>
      if isContinuation b then (Char.ofNat (lead.toNat % 32 * 64 + payload b), 1)
      else (replacementChar, 0)
    | [] => (replacementChar, 0)
  else if 0xe0 ≤ lead && lead ≤ 0xef then
    match rest with
    | b :: c :: _ =>
      if secondOfThree lead b then
        if isContinuation c then
          (Char.ofNat (lead.toNat % 16 * 4096 + payload b * 64 + payload c), 2)
        else (replacementChar, 1)
      else (replacementChar, 0)
    | [b] => if secondOfThree lead b then (replacementChar, 1) else (replacementChar, 0)
    | [] => (replacementChar, 0)
  else if 0xf0 ≤ lead && lead ≤ 0xf4 then
    match rest with
    | b :: c :: d :: _ =>
      if secondOfFour lead b then
        if isContinuation c then
          if isContinuation d then
            (Char.ofNat
              (lead.toNat % 8 * 262144 + payload b * 4096 + payload c * 64 + payload d), 3)
          else (replacementChar, 2)
        else (replacementChar, 1)
      else (replacementChar, 0)
    | [b, c] =>
      if secondOfFour lead b then
        if isContinuation c then (replacementChar, 2) else (replacementChar, 1)
      else (replacementChar, 0)
    | [b] => if secondOfFour lead b then (replacementChar, 1) else (replacementChar, 0)
    | [] => (replacementChar, 0)
  else (replacementChar, 0)

/-- The text of the bytes after the next `skip` ones. -/
def decodeAfter : Nat → List UInt8 → List Char
  | _, [] => []
  | skip + 1, _ :: rest => decodeAfter skip rest
  | 0, lead :: rest =>
    let (c, size) := readChar lead rest
    c :: decodeAfter size rest

/-- The text of any bytes; what is no UTF-8 is read as replacement characters. -/
def decode (bytes : List UInt8) : List Char := decodeAfter 0 bytes

end Survey.Text
