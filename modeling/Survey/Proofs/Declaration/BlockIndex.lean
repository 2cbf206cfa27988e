/-
# The search for a closing brace, by index

The search can also be written with an index into the bytes: at a quote, `//` or `/*` an inner
loop moves the index to the end of what begins there, and the outer loop goes on behind it.  An
inner loop that meets the end of the bytes leaves the index at the end or a few bytes beyond.

No index is used before it has been compared with the number of bytes, so nothing is read there; and
this file proves that the search by index finds what the search byte by byte finds.
-/
import Mathlib.Data.List.Basic
import Survey.Proofs.Declaration.Blocks

namespace Survey.Block

/-! ### The loops -/

/-- Where a literal ends, from an index in it: at its quote, at a newline, or beyond the end. -/
def literalStop (bytes : List UInt8) (quote : UInt8) (i : Nat) : Nat :=
  if h : i < bytes.length then
    if bytes[i] = quote ∨ bytes[i] = newline then i
    else if bytes[i] = backslash then literalStop bytes quote (i + 2)
    else literalStop bytes quote (i + 1)
  else i
termination_by bytes.length - i

/-- Where a line ends, from an index in it. -/
def lineStop (bytes : List UInt8) (i : Nat) : Nat :=
  if h : i < bytes.length then
    if bytes[i] = newline then i else lineStop bytes (i + 1)
  else i
termination_by bytes.length - i

/-- Where the `*/` of a comment begins, from an index in it; when there is none, the last index, or
the given one if it lies behind. -/
def commentStop (bytes : List UInt8) (i : Nat) : Nat :=
  if h : i + 1 < bytes.length then
    if bytes[i] = star ∧ bytes[i + 1] = slash then i else commentStop bytes (i + 1)
  else i
termination_by bytes.length - i

lemma le_literalStop (bytes : List UInt8) (quote : UInt8) (i : Nat) :
    i ≤ literalStop bytes quote i := by
  fun_induction literalStop bytes quote i <;> omega

lemma le_lineStop (bytes : List UInt8) (i : Nat) : i ≤ lineStop bytes i := by
  fun_induction lineStop bytes i <;> omega

lemma le_commentStop (bytes : List UInt8) (i : Nat) : i ≤ commentStop bytes i := by
  fun_induction commentStop bytes i <;> omega

/-- The index of the brace that closes the outermost open block, from an index and a number of open
blocks. -/
def closingBraceFrom? (bytes : List UInt8) (depth i : Nat) : Option Nat :=
  if h : i < bytes.length then
    let b := bytes[i]
    if b = openBrace then closingBraceFrom? bytes (depth + 1) (i + 1)
    else if b = closeBrace then
      if depth - 1 = 0 then some i else closingBraceFrom? bytes (depth - 1) (i + 1)
    else if b = doubleQuote ∨ b = singleQuote then
      closingBraceFrom? bytes depth (literalStop bytes b (i + 1) + 1)
    else if b = slash ∧ bytes[i + 1]? = some slash then
      closingBraceFrom? bytes depth (lineStop bytes i + 1)
    else if b = slash ∧ bytes[i + 1]? = some star then
      closingBraceFrom? bytes depth (commentStop bytes (i + 2) + 1 + 1)
    else closingBraceFrom? bytes depth (i + 1)
  else none
termination_by bytes.length - i
decreasing_by
  · omega
  · omega
  · have := le_literalStop bytes bytes[i] (i + 1)
    omega
  · have := le_lineStop bytes i
    omega
  · have := le_commentStop bytes (i + 2)
    omega
  · omega

/-! ### One search -/

variable {bytes : List UInt8} {quote : UInt8} {i depth depth' : Nat} {mode mode' : Mode}

/-- The search byte by byte, from an index. -/
def closeAt (mode : Mode) (depth : Nat) (bytes : List UInt8) (i : Nat) : Option Nat :=
  (closeFrom mode depth (bytes.drop i)).map (i + ·)

lemma closeAt_of_length_le (h : bytes.length ≤ i) : closeAt mode depth bytes i = none := by
  rw [closeAt, List.drop_eq_nil_of_le h, closeFrom, Option.map_none]

/-- One byte of the search, by its index. -/
lemma closeAt_succ (h : i < bytes.length)
    (hread : ∀ rest : List UInt8, rest.head? = bytes[i + 1]? →
      closeFrom mode depth (bytes[i] :: rest) = (closeFrom mode' depth' rest).map (1 + ·)) :
    closeAt mode depth bytes i = closeAt mode' depth' bytes (i + 1) := by
  rw [closeAt, List.drop_eq_getElem_cons h, hread _ List.head?_drop, map_add_map_add, closeAt]

lemma closeAt_next (h : i < bytes.length) (hmode : mode ≠ .code) :
    closeAt mode depth bytes i
      = closeAt (mode.next bytes[i] bytes[i + 1]?) depth bytes (i + 1) :=
  closeAt_succ h fun rest hrest => by rw [closeFrom_cons_of_ne_code hmode, hrest]

lemma closeAt_afterCode (h : i < bytes.length) (hopen : bytes[i] ≠ openBrace)
    (hclose : bytes[i] ≠ closeBrace) :
    closeAt .code depth bytes i
      = closeAt (.afterCode bytes[i] bytes[i + 1]?) depth bytes (i + 1) :=
  closeAt_succ h fun rest hrest => by rw [closeFrom_cons hopen hclose, hrest]

/-- Behind a backslash one byte is passed over, also when there is none. -/
lemma closeAt_escape :
    closeAt (.escape quote) depth bytes i = closeAt (.literal quote) depth bytes (i + 1) := by
  by_cases h : i < bytes.length
  · exact closeAt_next h (by simp)
  · rw [closeAt_of_length_le (by omega), closeAt_of_length_le (by omega)]

lemma closeAt_literal :
    closeAt (.literal quote) depth bytes i
      = closeAt .code depth bytes (literalStop bytes quote i + 1) := by
  fun_induction literalStop bytes quote i with
  | case1 i h hend =>
    rw [closeAt_next h (by simp), Mode.next, if_pos hend]
  | case2 i h hend hbackslash ih =>
    rw [closeAt_next h (by simp), Mode.next, if_neg hend, if_pos hbackslash, closeAt_escape, ih]
  | case3 i h hend hbackslash ih =>
    rw [closeAt_next h (by simp), Mode.next, if_neg hend, if_neg hbackslash, ih]
  | case4 i h => rw [closeAt_of_length_le (by omega), closeAt_of_length_le (by omega)]

lemma closeAt_lineComment :
    closeAt .lineComment depth bytes i = closeAt .code depth bytes (lineStop bytes i + 1) := by
  fun_induction lineStop bytes i with
  | case1 i h hnewline => rw [closeAt_next h (by simp), Mode.next, if_pos hnewline]
  | case2 i h hnewline ih => rw [closeAt_next h (by simp), Mode.next, if_neg hnewline, ih]
  | case3 i h => rw [closeAt_of_length_le (by omega), closeAt_of_length_le (by omega)]

lemma closeAt_blockClosing :
    closeAt .blockClosing depth bytes i = closeAt .code depth bytes (i + 1) := by
  by_cases h : i < bytes.length
  · exact closeAt_next h (by simp)
  · rw [closeAt_of_length_le (by omega), closeAt_of_length_le (by omega)]

/-- A comment without `*/` reaches to the end, whatever the last byte is. -/
lemma closeAt_blockComment :
    closeAt .blockComment depth bytes i
      = closeAt .code depth bytes (commentStop bytes i + 1 + 1) := by
  fun_induction commentStop bytes i with
  | case1 i h hend =>
    have hnext : bytes[i] = star ∧ bytes[i + 1]? = some slash :=
      ⟨hend.1, by rw [List.getElem?_eq_getElem h, hend.2]⟩
    rw [closeAt_next (by omega) (by simp), Mode.next, if_pos hnext, closeAt_blockClosing]
  | case2 i h hend ih =>
    have hnext : ¬ (bytes[i] = star ∧ bytes[i + 1]? = some slash) := by
      rwa [List.getElem?_eq_getElem h, Option.some.injEq]
    rw [closeAt_next (by omega) (by simp), Mode.next, if_neg hnext, ih]
  | case3 i h =>
    rw [closeAt_of_length_le (i := i + 1 + 1) (by omega)]
    by_cases hlast : i < bytes.length
    · rw [closeAt_next hlast (by simp), closeAt_of_length_le (by omega)]
    · exact closeAt_of_length_le (by omega)

/-- The search by index finds what the search byte by byte finds. -/
lemma closingBraceFrom?_eq_closeAt :
    closingBraceFrom? bytes depth i = closeAt .code depth bytes i := by
  fun_induction closingBraceFrom? bytes depth i with
  | case1 depth i h b hopen ih =>
    rw [ih]
    refine (closeAt_succ h fun rest _ => ?_).symm
    rw [show bytes[i] = openBrace from hopen, closeFrom_openBrace]
  | case2 depth i h b hopen hclose hdepth =>
    have hstop : depth ≤ 1 := by omega
    rw [closeAt, List.drop_eq_getElem_cons h, show bytes[i] = closeBrace from hclose, closeFrom,
      if_neg (by decide), if_pos ⟨rfl, rfl⟩, if_pos hstop]
    rfl
  | case3 depth i h b hopen hclose hdepth ih =>
    obtain ⟨outer, rfl⟩ : ∃ outer, depth = outer + 2 := ⟨depth - 2, by omega⟩
    rw [ih]
    refine (closeAt_succ h fun rest _ => ?_).symm
    rw [show bytes[i] = closeBrace from hclose, closeFrom_closeBrace]
    rfl
  | case4 depth i h b hopen hclose hquote ih =>
    rw [ih, closeAt_afterCode h hopen hclose, Mode.afterCode, if_pos hquote, closeAt_literal]
  | case5 depth i h b hopen hclose hquote hline ih =>
    -- the inner loop looks at the first slash again
    have hfirst : lineStop bytes i = lineStop bytes (i + 1) := by
      have hne : bytes[i] ≠ newline := by
        rw [show bytes[i] = slash from hline.1]
        decide
      rw [lineStop, dif_pos h, if_neg hne]
    rw [ih, closeAt_afterCode h hopen hclose, Mode.afterCode, if_neg hquote, if_pos hline,
      closeAt_lineComment, hfirst]
  | case6 depth i h b hopen hclose hquote hline hblock ih =>
    have hstar : i + 1 < bytes.length := (List.getElem?_eq_some_iff.1 hblock.2).1
    rw [ih, closeAt_afterCode h hopen hclose, Mode.afterCode, if_neg hquote, if_neg hline,
      if_pos hblock, closeAt_next hstar (by simp), Mode.next, closeAt_blockComment]
  | case7 depth i h b hopen hclose hquote hline hblock ih =>
    rw [ih, closeAt_afterCode h hopen hclose, Mode.afterCode, if_neg hquote, if_neg hline,
      if_neg hblock]
  | case8 depth i h => exact (closeAt_of_length_le (by omega)).symm

/-- The search by index and the search byte by byte find the same brace. -/
theorem closingBraceFrom?_eq (bytes : List UInt8) (start : Nat) :
    closingBraceFrom? bytes 0 start = closingBraceIn? bytes start := closingBraceFrom?_eq_closeAt

/-! ### What is found -/

/-- What the search finds is a closing brace. -/
lemma getElem?_of_closeFrom {n : Nat} (h : closeFrom mode depth bytes = some n) :
    bytes[n]? = some closeBrace := by
  induction bytes generalizing mode depth n with
  | nil => simp [closeFrom] at h
  | cons b bytes ih =>
    have hrest : ∀ {mode' depth'}, (closeFrom mode' depth' bytes).map (· + 1) = some n →
        (b :: bytes)[n]? = some closeBrace := by
      intro mode' depth' hmap
      obtain ⟨m, hm, rfl⟩ := Option.map_eq_some_iff.1 hmap
      exact ih hm
    rw [closeFrom] at h
    split_ifs at h with hopen hclose hdepth
    · exact hrest h
    · obtain rfl : 0 = n := Option.some.inj h
      rw [List.getElem?_cons_zero, hclose.2]
    · exact hrest h
    · exact hrest h

/-- The brace that closes a block is a byte behind the one that opens it. -/
lemma getElem?_of_closingBraceIn? {start stop : Nat} (hopen : bytes[start]? = some openBrace)
    (h : closingBraceIn? bytes start = some stop) :
    start < stop ∧ bytes[stop]? = some closeBrace := by
  obtain ⟨n, hn, rfl⟩ := Option.map_eq_some_iff.1 h
  have hclose : (bytes.drop start)[n]? = some closeBrace := getElem?_of_closeFrom hn
  rw [List.getElem?_drop] at hclose
  refine ⟨?_, hclose⟩
  rcases Nat.eq_zero_or_pos n with rfl | hpos
  · rw [Nat.add_zero, hopen] at hclose
    exact absurd hclose (by decide)
  · omega

end Survey.Block
