/-
# Brackets that balance

The bracket depth behind a text counts its opening brackets less its closing ones, in the 32 bits of
the program.  A text balances when the depth is never negative within it and zero at its end; then
the depth never runs over, and the brackets of the text nest (`balanced_iff_nests`).  A token that
balances and has neither a blank nor a comma outside its brackets is atomic: a list is not split
inside of it, and tokens that are printed with spaces between them are cut apart again.
-/
import Mathlib.Algebra.Group.Int.Defs
import Mathlib.Algebra.Group.Nat.Defs
import Survey.Proofs.Text.Trim

namespace Survey.Text

variable {text token : List Char} {depth : Int32} {c : Char}

/-! ### Depth -/

/-- Whether a character is a bracket. -/
def isBracket (c : Char) : Bool := ['<', '(', '[', '>', ')', ']'].contains c

/-- The bracket depth behind a text. -/
def depthBehind : List Char → Int32
  | [] => 0
  | c :: rest => depthChange c + depthBehind rest

/-- The brackets of a text balance: the depth is never negative, and zero at the end. -/
def Balanced (text : List Char) : Prop :=
  (∀ n ≤ text.length, 0 ≤ depthBehind (text.take n)) ∧ depthBehind text = 0

/-- No character of a class stands outside the brackets of a text. -/
def NoneOutside (cls : Char → Bool) (text : List Char) : Prop :=
  ∀ n, (h : n < text.length) → depthBehind (text.take n) = 0 → cls text[n] = false

lemma depthBehind_append (front back : List Char) :
    depthBehind (front ++ back) = depthBehind front + depthBehind back := by
  induction front with
  | nil => simp [depthBehind]
  | cons c front ih => rw [List.cons_append, depthBehind, depthBehind, ih, Int32.add_assoc]

lemma Balanced.nonneg_front {front back : List Char} (h : Balanced (front ++ back)) :
    0 ≤ depthBehind front := by
  have hfront := h.1 front.length (by simp)
  rwa [List.take_left] at hfront

/-- Only brackets change the depth. -/
lemma depthChange_eq_zero_iff : depthChange c = 0 ↔ isBracket c = false := by
  rw [depthChange, isBracket]
  split_ifs with hopen hclose
  · rcases hopen with rfl | rfl | rfl <;> decide
  · rcases hclose with rfl | rfl | rfl <;> decide
  · simp only [not_or] at hopen hclose
    simp [hopen, hclose]

/-- No blank is a bracket. -/
lemma isBracket_of_isBlank (hc : isBlank c = true) : isBracket c = false := by
  have hnone : ['<', '(', '[', '>', ')', ']'].any isBlank = false := by decide
  rw [isBracket, List.contains_eq_mem, decide_eq_false_iff_not]
  exact fun hmem => List.any_eq_false.1 hnone c hmem hc

lemma depthChange_of_isBlank (hc : isBlank c = true) : depthChange c = 0 :=
  depthChange_eq_zero_iff.2 (isBracket_of_isBlank hc)

instance (text : List Char) : Decidable (Balanced text) :=
  inferInstanceAs (Decidable (_ ∧ _))

instance (cls : Char → Bool) (text : List Char) : Decidable (NoneOutside cls text) :=
  inferInstanceAs (Decidable (∀ n, (h : n < text.length) → _))

/-! ### Depth and the number of brackets -/

/-- Whether a character opens a bracket. -/
def isOpening (c : Char) : Bool := ['<', '(', '['].contains c

/-- Whether a character closes a bracket. -/
def isClosing (c : Char) : Bool := ['>', ')', ']'].contains c

/-- The number of brackets that a text opens and does not close, negative if it closes more. -/
def excess (text : List Char) : Int := text.countP isOpening - text.countP isClosing

/-- The brackets of a text nest: no front part closes more of them than it opens, and the whole text
closes as many. -/
def Nests (text : List Char) : Prop :=
  (∀ n ≤ text.length, 0 ≤ excess (text.take n)) ∧ excess text = 0

lemma excess_append (front back : List Char) :
    excess (front ++ back) = excess front + excess back := by
  simp only [excess, List.countP_append]
  omega

/-- One more character changes the excess by one at most. -/
lemma excess_singleton_le (c : Char) : -1 ≤ excess [c] ∧ excess [c] ≤ 1 := by
  simp only [excess, List.countP_singleton]
  split <;> split <;> decide

lemma depthChange_eq_excess (c : Char) : depthChange c = Int32.ofInt (excess [c]) := by
  rw [depthChange]
  split_ifs with hopen hclose
  · rcases hopen with rfl | rfl | rfl <;> decide
  · rcases hclose with rfl | rfl | rfl <;> decide
  · simp only [not_or] at hopen hclose
    simp [excess, isOpening, isClosing, hopen, hclose]

/-- The depth behind a text is its excess, as far as 32 bits hold it. -/
lemma depthBehind_eq_excess (text : List Char) : depthBehind text = Int32.ofInt (excess text) := by
  induction text with
  | nil => rfl
  | cons c text ih =>
    rw [depthBehind, ih, depthChange_eq_excess, ← Int32.ofInt_add, ← excess_append,
      List.singleton_append]

/-- Within one step of what 32 bits hold, a depth is negative when it falls below zero, and when it
grows too large. -/
lemma ofInt_nonneg_iff {n : Int} (hle : -1 ≤ n) (hge : n ≤ 2 ^ 31) :
    0 ≤ Int32.ofInt n ↔ 0 ≤ n ∧ n < 2 ^ 31 := by
  rw [Int32.le_iff_toInt_le, Int32.toInt_ofInt, Int32.toInt_zero, Int.bmod_def]
  simp only [Int32.size]
  split <;> omega

/-- As long as the depth is not negative it is the excess, which is less than `2 ^ 31`. -/
lemma excess_of_depth_nonneg (h : ∀ n ≤ text.length, 0 ≤ depthBehind (text.take n)) :
    ∀ n ≤ text.length, 0 ≤ excess (text.take n) ∧ excess (text.take n) < 2 ^ 31 := by
  intro n hn
  induction n with
  | zero => simp [excess]
  | succ n ih =>
    have hlast := ih (by omega)
    have hnext : text.take (n + 1) = text.take n ++ [text[n]] := by simp
    have hone := excess_singleton_le text[n]
    have hdepth := h (n + 1) hn
    rw [depthBehind_eq_excess, hnext, excess_append] at hdepth
    rw [hnext, excess_append]
    exact (ofInt_nonneg_iff (by omega) (by omega)).1 hdepth

/-- A text balances exactly if its brackets nest and it is nowhere `2 ^ 31` deep. -/
lemma balanced_iff_nests :
    Balanced text ↔ Nests text ∧ ∀ n ≤ text.length, excess (text.take n) < 2 ^ 31 := by
  constructor
  · rintro ⟨hdepth, hend⟩
    have hexcess := excess_of_depth_nonneg hdepth
    refine ⟨⟨fun n hn => (hexcess n hn).1, ?_⟩, fun n hn => (hexcess n hn).2⟩
    have hwhole := hexcess text.length (Nat.le_refl _)
    rw [List.take_length] at hwhole
    have hzero := congrArg Int32.toInt hend
    rwa [depthBehind_eq_excess, Int32.toInt_ofInt_of_le (by omega) hwhole.2] at hzero
  · rintro ⟨⟨hnonneg, hend⟩, hlt⟩
    refine ⟨fun n hn => ?_, by rw [depthBehind_eq_excess, hend]; rfl⟩
    have hle := hnonneg n hn
    have hge := hlt n hn
    rw [depthBehind_eq_excess]
    exact (ofInt_nonneg_iff (by omega) (by omega)).2 ⟨hle, hge⟩

lemma countP_isOpening_le (text : List Char) : text.countP isOpening ≤ text.countP isBracket := by
  refine List.countP_mono_left fun c _ hc => ?_
  simp only [isOpening, isBracket, List.contains_eq_mem, decide_eq_true_eq] at hc ⊢
  exact List.mem_append_left ['>', ')', ']'] hc

/-- With fewer than `2 ^ 31` brackets a text balances exactly if its brackets nest. -/
lemma balanced_iff_nests_of_lt (h : text.countP isBracket < 2 ^ 31) : Balanced text ↔ Nests text := by
  refine balanced_iff_nests.trans (and_iff_left fun n _ => ?_)
  have hfront : (text.take n).countP isOpening ≤ text.countP isOpening :=
    (List.take_sublist n text).countP_le
  have hopening := countP_isOpening_le text
  rw [excess]
  omega

/-! ### Stretches that are kept -/

/-- A stretch in which the depth is never negative is kept by a split at a character that does not
stand at depth zero in it. -/
lemma keeps_of_depth {separator : Char}
    (hdepth : ∀ n ≤ text.length, 0 ≤ depth + depthBehind (text.take n))
    (hcut : ∀ n, (h : n < text.length) → depth + depthBehind (text.take n) = 0 →
      text[n] ≠ separator) :
    Keeps separator depth text (depth + depthBehind text) := by
  induction text generalizing depth with
  | nil =>
    rw [depthBehind, Int32.add_zero]
    exact keeps_of_forall (by simp) (by simpa [depthBehind] using hdepth 0 (Nat.le_refl 0))
  | cons c rest ih =>
    have hfirst : Keeps separator depth [c] (depth + depthChange c) := by
      refine keeps_singleton (fun h => ?_) ?_
      · exact hcut 0 (by simp) (by simp [depthBehind, h.2]) h.1
      · simpa [depthBehind] using hdepth 1 (by simp)
    have hrest : Keeps separator (depth + depthChange c) rest
        (depth + depthChange c + depthBehind rest) := by
      refine ih (fun n hn => ?_) fun n hn hzero => ?_
      · simpa [depthBehind, Int32.add_assoc] using hdepth (n + 1) (by simpa using hn)
      · have hnext := hcut (n + 1) (by simpa using hn)
        simpa [depthBehind, ← Int32.add_assoc, hzero] using hnext
    rw [depthBehind, ← Int32.add_assoc]
    exact hfirst.append hrest

/-- A stretch without a blank at depth zero or below is kept by the cut into tokens. -/
lemma keepsToken_of_depth
    (hcut : ∀ n, (h : n < text.length) → depth + depthBehind (text.take n) ≤ 0 →
      isBlank text[n] = false) :
    KeepsToken depth text (depth + depthBehind text) := by
  induction text generalizing depth with
  | nil =>
    rw [depthBehind, Int32.add_zero]
    exact keepsToken_of_forall (by simp)
  | cons c rest ih =>
    have hfirst : KeepsToken depth [c] (depth + depthChange c) := by
      refine keepsToken_singleton fun h => ?_
      have hblank := hcut 0 (by simp) (by simpa [depthBehind] using h.2)
      rw [List.getElem_cons_zero, h.1] at hblank
      exact absurd hblank (by decide)
    have hrest : KeepsToken (depth + depthChange c) rest
        (depth + depthChange c + depthBehind rest) := by
      refine ih fun n hn hle => ?_
      have hnext := hcut (n + 1) (by simpa using hn)
      simp only [List.take_succ_cons, depthBehind, List.getElem_cons_succ, ← Int32.add_assoc] at hnext
      exact hnext hle
    rw [depthBehind, ← Int32.add_assoc]
    exact hfirst.append hrest

/-- A text that balances is kept by a split at a character that does not stand outside its brackets. -/
lemma Balanced.keeps {separator : Char} (h : Balanced text)
    (hnone : NoneOutside (· == separator) text) : Keeps separator 0 text 0 := by
  have hkeeps : Keeps separator 0 text (0 + depthBehind text) := keeps_of_depth
    (fun n hn => by simpa using h.1 n hn)
    (fun n hn hzero => by simpa using hnone n hn (by simpa using hzero))
  rwa [h.2, Int32.add_zero] at hkeeps

/-! ### Atomic tokens -/

/-- A token that neither a split of a list nor a cut into tokens breaks up.  Its depth is the one that the
program counts, so its brackets nest less than `2 ^ 31` deep (`balanced_iff_nests`). -/
structure Atomic (token : List Char) : Prop where
  ne_nil : token ≠ []
  balanced : Balanced token
  no_blank : NoneOutside isBlank token
  no_comma : NoneOutside (· == ',') token

instance (token : List Char) : Decidable (Atomic token) :=
  decidable_of_iff
    (token ≠ [] ∧ Balanced token ∧ NoneOutside isBlank token ∧ NoneOutside (· == ',') token)
    ⟨fun ⟨h₁, h₂, h₃, h₄⟩ => ⟨h₁, h₂, h₃, h₄⟩, fun ⟨h₁, h₂, h₃, h₄⟩ => ⟨h₁, h₂, h₃, h₄⟩⟩

namespace Atomic

lemma keeps (h : Atomic token) : Keeps ',' 0 token 0 := h.balanced.keeps h.no_comma

lemma keepsToken (h : Atomic token) : KeepsToken 0 token 0 := by
  have hkeeps : KeepsToken 0 token (0 + depthBehind token) := by
    refine keepsToken_of_depth fun n hn hle => ?_
    have hnonneg := h.balanced.1 n (Nat.le_of_lt hn)
    exact h.no_blank n hn (Int32.le_antisymm (by rwa [Int32.zero_add] at hle) hnonneg)
  rwa [h.balanced.2, Int32.add_zero] at hkeeps

lemma head_not_blank (h : Atomic token) : ∀ c ∈ token.head?, isBlank c = false := by
  intro c hc
  obtain ⟨rest, rfl⟩ := List.head?_eq_some_iff.1 hc
  exact h.no_blank 0 (by simp) rfl

end Atomic

/-! ### Tokens with spaces between them -/

/-- Texts with single spaces between them. -/
def spaced (texts : List (List Char)) : List Char := [' '].intercalate texts

lemma spaced_cons_cons (text next : List Char) (more : List (List Char)) :
    spaced (text :: next :: more) = text ++ ' ' :: spaced (next :: more) := by
  simp [spaced, List.intercalate_cons_cons]

section

variable {texts : List (List Char)}

lemma piecesAtBlanks_spaced (h : ∀ text ∈ texts, Atomic text) (hne : texts ≠ []) :
    piecesAtBlanks 0 (spaced texts) = texts := by
  induction texts with
  | nil => exact absurd rfl hne
  | cons text more ih =>
    have htext := (h text (by simp)).keepsToken
    cases more with
    | nil =>
      have hcut := htext []
      rw [List.append_nil] at hcut
      simpa [spaced, piecesAtBlanks] using hcut
    | cons next more =>
      have hspace : piecesAtBlanks 0 (' ' :: spaced (next :: more)) =
          [] :: piecesAtBlanks 0 (spaced (next :: more)) := by
        rw [piecesAtBlanks, if_pos (by decide)]
      rw [spaced_cons_cons, htext, hspace, prependHead_cons, List.append_nil,
        ih (fun text' hmem => h text' (List.mem_cons_of_mem _ hmem)) (by simp)]

/-- Atomic tokens with spaces between them are cut apart again. -/
lemma tokens_spaced (h : ∀ text ∈ texts, Atomic text) : tokens (spaced texts) = texts := by
  cases texts with
  | nil => rfl
  | cons text more =>
    rw [tokens, piecesAtBlanks_spaced h (by simp), nonEmpty, List.filter_eq_self]
    exact fun text' hmem => by simpa using (h text' hmem).ne_nil

end

end Survey.Text
