/-
# The pieces of known texts

Cutting and splitting go over a text once.  What they do to a stretch does not depend on what stands
behind it, except for the bracket depth: a stretch that leads from one depth to another without a
cut goes in front of the first piece of the rest.
-/
import Mathlib.Data.List.Basic
import Survey.Text.Bracket

namespace Survey.Text

variable {u v w rest : List Char} {c : Char}

/-- Puts a text in front of the first piece. -/
def prependHead (u : List Char) (pieces : List (List Char)) : List (List Char) :=
  u.foldr consHead pieces

@[simp] lemma prependHead_nil (pieces : List (List Char)) : prependHead [] pieces = pieces := rfl

lemma prependHead_append (u v : List Char) (pieces : List (List Char)) :
    prependHead (u ++ v) pieces = prependHead u (prependHead v pieces) :=
  List.foldr_append

@[simp] lemma prependHead_cons (u piece : List Char) (pieces : List (List Char)) :
    prependHead u (piece :: pieces) = (u ++ piece) :: pieces := by
  induction u with
  | nil => rfl
  | cons c u ih =>
    have hcons : prependHead (c :: u) (piece :: pieces) =
        consHead c (prependHead u (piece :: pieces)) := rfl
    rw [hcons, ih, consHead_cons, List.cons_append]

lemma flatten_consHead (c : Char) (pieces : List (List Char)) :
    (consHead c pieces).flatten = c :: pieces.flatten := by
  cases pieces <;> rfl

/-- The first character of a text is not in a class. -/
lemma head?_not_mem {cls : Char → Bool} (hu : u.head? = some c) (hc : cls c = false) :
    ∀ d ∈ u.head?, cls d = false := by
  rw [hu]
  rintro d ⟨rfl⟩
  exact hc

/-! ### Cutting -/

lemma cutAt_append {cut : Char → Bool} (hu : ∀ d ∈ u, cut d = false) (rest : List Char) :
    cutAt cut (u ++ rest) = prependHead u (cutAt cut rest) := by
  induction u with
  | nil => rfl
  | cons d u ih =>
    have hd : ¬ cut d = true := by simp [hu d (by simp)]
    rw [List.cons_append, cutAt, if_neg hd, ih fun e he => hu e (List.mem_cons_of_mem _ he)]
    rfl

/-- A text that is cut nowhere is its only piece. -/
lemma cutAt_eq_singleton {cut : Char → Bool} (hu : ∀ d ∈ u, cut d = false) : cutAt cut u = [u] := by
  have hcut := cutAt_append hu []
  rwa [List.append_nil, cutAt_nil, prependHead_cons, List.append_nil] at hcut

/-- A text without the mark that another one is cut at stays in its first piece. -/
lemma cutAt_append_of_notMem {mark : Char} (h : mark ∉ u) (rest : List Char) :
    cutAt (· == mark) (u ++ rest) = prependHead u (cutAt (· == mark) rest) := by
  refine cutAt_append (fun d hd => ?_) rest
  have hne : d ≠ mark := by
    rintro rfl
    exact h hd
  simpa using hne

lemma cutAt_of_notMem {mark : Char} (h : mark ∉ u) : cutAt (· == mark) u = [u] :=
  cutAt_eq_singleton fun _ hd => beq_false_of_ne fun heq => h (heq ▸ hd)

lemma cutAt_append_cons {cut : Char → Bool} (hc : cut c = true) (u v : List Char) :
    cutAt cut (u ++ c :: v) = cutAt cut u ++ cutAt cut v := by
  induction u with
  | nil =>
    have hcons : cutAt cut (c :: v) = [] :: cutAt cut v := by rw [cutAt, if_pos hc]
    exact hcons
  | cons d u ih =>
    rw [List.cons_append, cutAt, cutAt, ih]
    split
    · rfl
    · obtain ⟨piece, pieces, hpieces⟩ := List.exists_cons_of_ne_nil (cutAt_ne_nil cut u)
      rw [hpieces]
      rfl

/-- A text begins with its first piece. -/
lemma exists_cutAt_eq_cons (cut : Char → Bool) (u : List Char) :
    ∃ piece more, cutAt cut u = piece :: more ∧ piece <+: u := by
  induction u with
  | nil => exact ⟨[], [], rfl, List.prefix_rfl⟩
  | cons c u ih =>
    obtain ⟨piece, more, hcut, hprefix⟩ := ih
    rw [cutAt, hcut]
    split
    · exact ⟨[], _, rfl, List.nil_prefix⟩
    · exact ⟨c :: piece, more, rfl, List.cons_prefix_cons.2 ⟨rfl, hprefix⟩⟩

/-- Text behind a text goes on with what stands behind the last mark. -/
lemma exists_cutAt_append (mark : Char) (u : List Char) :
    ∃ done last, last <:+ u ∧
      ∀ v, cutAt (· == mark) (u ++ v) = done ++ prependHead last (cutAt (· == mark) v) := by
  by_cases hmem : mark ∈ u
  · -- the last mark is the first one of the reversed text
    obtain ⟨back, front, hreverse, hback⟩ :=
      List.eq_append_cons_of_mem (List.mem_reverse.2 hmem)
    have hu : u = front.reverse ++ mark :: back.reverse := by
      have hboth := congrArg List.reverse hreverse
      simpa using hboth
    refine ⟨cutAt (· == mark) front.reverse, back.reverse, ⟨front.reverse ++ [mark], by simp [hu]⟩,
      fun v => ?_⟩
    have hlast : mark ∉ back.reverse := fun hmem => hback (List.mem_reverse.1 hmem)
    rw [hu, List.append_assoc, List.cons_append, cutAt_append_cons (by simp),
      cutAt_append_of_notMem hlast]
  · exact ⟨[], u, List.suffix_rfl, cutAt_append_of_notMem hmem⟩

/-! ### Cutting and joining -/

/-- A text is cut apart into the pieces that it was joined from. -/
lemma cutAt_intercalate {mark : Char} {pieces : List (List Char)} (hne : pieces ≠ [])
    (hmark : ∀ piece ∈ pieces, mark ∉ piece) :
    cutAt (· == mark) ([mark].intercalate pieces) = pieces := by
  induction pieces with
  | nil => exact absurd rfl hne
  | cons piece pieces ih =>
    have hpiece := cutAt_of_notMem (hmark piece (by simp))
    cases pieces with
    | nil => rw [List.intercalate_singleton, hpiece]
    | cons next more =>
      have hmore := ih (by simp) fun piece' hmem => hmark piece' (List.mem_cons_of_mem _ hmem)
      rw [List.intercalate_cons_cons, List.append_assoc, List.singleton_append,
        cutAt_append_cons (by simp), hpiece, hmore, List.singleton_append]

/-- The pieces of a text have the mark between them and not in them. -/
lemma intercalate_cutAt (mark : Char) (text : List Char) :
    [mark].intercalate (cutAt (· == mark) text) = text ∧
      ∀ piece ∈ cutAt (· == mark) text, mark ∉ piece := by
  induction text with
  | nil => simp
  | cons c text ih =>
    obtain ⟨piece, more, hcut⟩ := List.exists_cons_of_ne_nil (cutAt_ne_nil (· == mark) text)
    rw [hcut] at ih
    obtain ⟨hjoined, hmark⟩ := ih
    rw [cutAt, hcut]
    split
    · next hc =>
      rw [List.intercalate_cons_cons, hjoined, eq_of_beq hc]
      exact ⟨rfl, List.forall_mem_cons.2 ⟨List.not_mem_nil, hmark⟩⟩
    · next hc =>
      have hne : mark ≠ c := fun h => hc (by simp [h])
      obtain ⟨hpiece, hmore⟩ := List.forall_mem_cons.1 hmark
      refine ⟨?_, List.forall_mem_cons.2 ⟨List.not_mem_cons_of_ne_of_not_mem hne hpiece, hmore⟩⟩
      rw [consHead_cons, ← hjoined]
      cases more <;> simp [List.intercalate_cons_cons]

/-! ### Words and trimming -/

/-- A word ends at the first blank behind it. -/
lemma words_append_blank (hw : ∀ d ∈ w, isBlank d = false) (hne : w ≠ []) (hc : isBlank c = true)
    (rest : List Char) : words (w ++ c :: rest) = w :: words rest := by
  have hcut : cutAt isBlank (w ++ c :: rest) = w :: cutAt isBlank rest := by
    rw [cutAt_append hw, cutAt, if_pos hc, prependHead_cons, List.append_nil]
  rw [words, hcut, nonEmpty, List.filter_cons_of_pos (by simpa using hne)]
  rfl

/-- A text without blanks at its ends is left as it is when it is trimmed. -/
lemma trim_eq_self (hhead : ∀ d ∈ u.head?, isBlank d = false)
    (hlast : ∀ d ∈ u.getLast?, isBlank d = false) : trim u = u := by
  have hstart : trimStart u = u := by
    cases u with
    | nil => rfl
    | cons d u => exact List.dropWhile_cons_of_neg (by simpa using hhead)
  rw [trim, hstart, trimEnd]
  cases hreverse : u.reverse with
  | nil => simpa using hreverse.symm
  | cons d v =>
    have hd : isBlank d = false := hlast d (by rw [← List.head?_reverse, hreverse]; rfl)
    rw [List.dropWhile_cons_of_neg (by simp [hd]), ← hreverse, List.reverse_reverse]

lemma trim_of_no_blank (hu : ∀ d ∈ u, isBlank d = false) : trim u = u :=
  trim_eq_self (fun d hd => hu d (List.mem_of_mem_head? hd)) fun d hd => hu d (List.mem_of_getLast? hd)

lemma trim_space_cons (u : List Char) : trim (' ' :: u) = trim u := by
  have hstart : trimStart (' ' :: u) = trimStart u := List.dropWhile_cons_of_pos (by decide)
  rw [trim, hstart, trim]

/-! ### Splitting outside brackets -/

/-- A stretch leads from one bracket depth to another without a separator at depth zero. -/
def Keeps (separator : Char) (depth : Int32) (u : List Char) (depth' : Int32) : Prop :=
  ∀ rest, piecesFrom? separator depth (u ++ rest) =
    (piecesFrom? separator depth' rest).map (prependHead u)

/-- A stretch leads from one bracket depth to another without a blank at depth zero. -/
def KeepsToken (depth : Int32) (u : List Char) (depth' : Int32) : Prop :=
  ∀ rest, piecesAtBlanks depth (u ++ rest) = prependHead u (piecesAtBlanks depth' rest)

section

variable {separator : Char} {depth depth' depth'' : Int32}

lemma Keeps.append (hu : Keeps separator depth u depth') (hv : Keeps separator depth' v depth'') :
    Keeps separator depth (u ++ v) depth'' := by
  intro rest
  rw [List.append_assoc, hu, hv, Option.map_map]
  congr 1
  funext pieces
  exact (prependHead_append u v pieces).symm

lemma keeps_singleton (hcut : ¬ (c = separator ∧ depth = 0)) (hdepth : 0 ≤ depth + depthChange c) :
    Keeps separator depth [c] (depth + depthChange c) := by
  intro rest
  rw [List.singleton_append, piecesFrom?, if_neg hcut, if_neg (Int32.not_lt.2 hdepth)]
  rfl

lemma keeps_of_forall (hu : ∀ d ∈ u, depthChange d = 0 ∧ ¬ (d = separator ∧ depth = 0))
    (hdepth : 0 ≤ depth) : Keeps separator depth u depth := by
  induction u with
  | nil =>
    intro rest
    rw [List.nil_append]
    exact (congrFun Option.map_id _).symm
  | cons d u ih =>
    obtain ⟨hchange, hcut⟩ := hu d (by simp)
    have hhead := keeps_singleton hcut (by rwa [hchange, Int32.add_zero])
    rw [hchange, Int32.add_zero] at hhead
    exact hhead.append (ih fun e he => hu e (List.mem_cons_of_mem _ he))

lemma KeepsToken.append (hu : KeepsToken depth u depth') (hv : KeepsToken depth' v depth'') :
    KeepsToken depth (u ++ v) depth'' := by
  intro rest
  rw [List.append_assoc, hu, hv, prependHead_append]

lemma keepsToken_singleton (hcut : ¬ (isBlank c = true ∧ depth ≤ 0)) :
    KeepsToken depth [c] (depth + depthChange c) := by
  intro rest
  rw [List.singleton_append, piecesAtBlanks, if_neg hcut]
  rfl

lemma keepsToken_of_forall
    (hu : ∀ d ∈ u, depthChange d = 0 ∧ ¬ (isBlank d = true ∧ depth ≤ 0)) :
    KeepsToken depth u depth := by
  induction u with
  | nil => exact fun rest => rfl
  | cons d u ih =>
    obtain ⟨hchange, hcut⟩ := hu d (by simp)
    have hhead := keepsToken_singleton hcut
    rw [hchange, Int32.add_zero] at hhead
    exact hhead.append (ih fun e he => hu e (List.mem_cons_of_mem _ he))

end

end Survey.Text
