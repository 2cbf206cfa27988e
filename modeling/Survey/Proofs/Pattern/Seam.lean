/-
# Matching across an added blank

A seam cuts a text in two where no two characters of a class meet, such as those of words.  A blank
added there breaks no word, so a pattern that allows blanks between words matches as before.  The two
texts are compared place by place: the seam corresponds to the places on both sides of the blank, and
every other place to the one with the same characters around it.  A pattern `Preserves` this
correspondence when its ways from corresponding places lead to corresponding places.  That is shown part
by part, and it carries over to the match that a search finds (`rel_find?`).

Behind a stretch of blanks a pattern may have a way in one text only, when no word comes next.  Such a
way leads nowhere if what follows begins with a word, so `PreservesAhead` looks only at the ways that
lead in front of a word.
-/
import Mathlib.Data.List.Forall2
import Mathlib.Data.List.Induction
import Survey.Proofs.Pattern.Finds
import Survey.Proofs.Text.Spacing

namespace Survey.Pattern

open Survey.Text

/-- Two parts of a text between which no two characters of a class meet. -/
structure Seam (token : Char → Bool) where
  /-- The text before the seam. -/
  front : List Char
  /-- The text behind the seam. -/
  back : List Char
  front_ne_nil : front ≠ []
  back_ne_nil : back ≠ []
  apart : Apart token front back
  token_space : token ' ' = false

namespace Seam

variable {token : Char → Bool} (g : Seam token)

/-- The text without a blank at the seam. -/
def closed : List Char := g.front ++ g.back

/-- The text with a blank at the seam. -/
def spaced : List Char := g.front ++ ' ' :: g.back

/-- A word reaches up to the seam. -/
def EndsWord : Prop := ∃ c ∈ g.front.getLast?, token c = true

/-- Places of the two texts that correspond; the place in front of the added blank takes part only
under a condition. -/
inductive Beside (atSeam : Prop) : Cursor → Cursor → Prop
  | before {u v : List Char} : g.front = u ++ v → (v = [] → atSeam) →
      Beside atSeam (.between u (v ++ g.back)) (.between u (v ++ ' ' :: g.back))
  | behind {u v : List Char} : g.back = u ++ v →
      Beside atSeam (.between (g.front ++ u) v) (.between (g.front ++ ' ' :: u) v)

/-- Spans of the two texts that are remembered under the same number and read the same up to the
added blank. -/
def Recalls (token : Char → Bool) (a b : Nat × Span) : Prop :=
  a.1 = b.1 ∧ Respaced token a.2.text b.2.text

/-- States of two matches that have come to corresponding places. -/
structure Tracks (atSeam : Prop) (s t : Progress) : Prop where
  place : g.Beside atSeam s.place t.place
  groups : List.Forall₂ (Recalls token) s.groups t.groups

/-- A character of a class comes next. -/
def ahead (token : Char → Bool) (s : Progress) : Bool := s.place.after.head?.any token

/-- The ways of a pattern from corresponding places lead to corresponding places. -/
def Preserves (P Q : Prop) (p : Pattern) : Prop :=
  ∀ s t, g.Tracks P s t → List.Forall₂ (g.Tracks Q) (p.ways s) (p.ways t)

/-- The same for the ways that lead in front of a word. -/
def PreservesAhead (P Q : Prop) (p : Pattern) : Prop :=
  ∀ s t, g.Tracks P s t →
    List.Forall₂ (g.Tracks Q) ((p.ways s).filter (ahead token)) ((p.ways t).filter (ahead token))

/-- A pattern matches only where a word comes next. -/
def Demands (token : Char → Bool) (p : Pattern) : Prop :=
  ∀ back, (∀ c ∈ back.head?, token c = false) → p.SilentAt back

/-- Two matches remember the same groups, up to the added blank; the second one is a match of a
pattern. -/
structure Alike (token : Char → Bool) (p : Pattern) (m m' : Match) : Prop where
  groups : List.Forall₂ (Recalls token) m.groups m'.groups
  found : ∃ place, p.matchAt? place = some m'

variable {g} {P P' Q Q' R : Prop} {p q : Pattern} {s t : Progress} {c d c' d' : Cursor}
  {cls : Char → Bool} {u v w : List Char}

/-! ### Corresponding places -/

/-- Behind a word that reaches up to the seam no word begins. -/
lemma EndsWord.not_token (h : g.EndsWord) : ∀ c ∈ g.back.head?, token c = false := by
  obtain ⟨c, hc, htoken⟩ := h
  exact fun d hd => g.apart c hc d hd htoken

lemma Beside.mono (h : g.Beside P c d) (hPQ : P → Q) : g.Beside Q c d := by
  cases h with
  | before hfront hseam => exact .before hfront fun hv => hPQ (hseam hv)
  | behind hback => exact .behind hback

lemma beside_start : g.Beside False (.ofText g.closed) (.ofText g.spaced) :=
  .before (List.nil_append g.front).symm fun h => absurd h g.front_ne_nil

/-- What lies between corresponding places reads the same up to the added blank. -/
lemma Beside.respaced (hstart : g.Beside P c d) (hstop : g.Beside Q c' d') (hu : c.Passes u c')
    (hv : d.Passes v d') : Respaced token u v := by
  have hclosed := hu.front_eq
  have hspaced := hv.front_eq
  cases hstart with
  | @before u₁ v₁ hfront₁ =>
    cases hstop with
    | @before u₂ v₂ =>
      simp only [Cursor.before_between, List.reverse_reverse] at hclosed hspaced
      have huv : u = v := List.append_cancel_left (hclosed.symm.trans hspaced)
      exact huv ▸ .same u
    | @behind u₂ v₂ hback =>
      simp only [Cursor.before_between, List.reverse_reverse, hfront₁, List.append_assoc]
        at hclosed hspaced
      obtain rfl := List.append_cancel_left hclosed
      obtain rfl := List.append_cancel_left hspaced
      exact .parted (g.apart.of_parts ⟨u₁, hfront₁.symm⟩ ⟨v₂, hback.symm⟩)
  | @behind u₁ v₁ =>
    cases hstop with
    | @before u₂ v₂ hfront =>
      -- the blank cannot lie in front of a place before the seam
      simp only [Cursor.before_between, List.reverse_reverse] at hspaced
      have hlength := congrArg List.length hspaced
      have hfront' := congrArg List.length hfront
      simp only [List.length_append, List.length_cons] at hlength hfront'
      omega
    | @behind u₂ v₂ =>
      simp only [Cursor.before_between, List.reverse_reverse, List.append_assoc, List.cons_append]
        at hclosed hspaced
      obtain rfl := List.append_cancel_left hclosed
      have huv := List.append_cancel_left hspaced
      simp only [List.cons.injEq, List.append_cancel_left_eq, true_and] at huv
      exact huv ▸ .same u

lemma Tracks.mono (h : g.Tracks P s t) (hPQ : P → Q) : g.Tracks Q s t :=
  ⟨h.place.mono hPQ, h.groups⟩

/-- A word comes next in both texts or in none. -/
lemma Tracks.ahead_eq (h : g.Tracks P s t) (hP : P → g.EndsWord) :
    ahead token s = ahead token t := by
  obtain ⟨place, groups⟩ := s
  obtain ⟨place', groups'⟩ := t
  cases h.place with
  | @before u v hfront hseam =>
    cases v with
    | nil =>
      obtain ⟨d, back, hback⟩ := List.exists_cons_of_ne_nil g.back_ne_nil
      have hd : token d = false := (hP (hseam rfl)).not_token d (by rw [hback]; rfl)
      simp [ahead, hback, hd, g.token_space]
    | cons d v => rfl
  | behind => rfl

lemma preserves_of_beside (h : ∀ c d, g.Beside P c d → ∀ groups groups',
    List.Forall₂ (Recalls token) groups groups' →
      List.Forall₂ (g.Tracks Q) (p.ways ⟨c, groups⟩) (p.ways ⟨d, groups'⟩)) : g.Preserves P Q p :=
  fun _ _ hst => h _ _ hst.place _ _ hst.groups

lemma preservesAhead_of_beside (h : ∀ c d, g.Beside P c d → ∀ groups groups',
    List.Forall₂ (Recalls token) groups groups' →
      List.Forall₂ (g.Tracks Q) ((p.ways ⟨c, groups⟩).filter (ahead token))
        ((p.ways ⟨d, groups'⟩).filter (ahead token))) : g.PreservesAhead P Q p :=
  fun _ _ hst => h _ _ hst.place _ _ hst.groups

/-! ### Parts in sequence -/

lemma forall₂_of_mem {α β : Type} {R S : α → β → Prop} {l : List α} {m : List β}
    (h : List.Forall₂ R l m) (hS : ∀ a ∈ l, ∀ b ∈ m, R a b → S a b) : List.Forall₂ S l m :=
  List.forall₂_iff_zip.2 ⟨h.length_eq, fun hab =>
    hS _ (List.of_mem_zip hab).1 _ (List.of_mem_zip hab).2 (List.forall₂_zip h hab)⟩

lemma Preserves.weaken (h : g.Preserves P Q p) (hP : P' → P) (hQ : Q → Q') :
    g.Preserves P' Q' p :=
  fun s t hst => (h s t (hst.mono hP)).imp fun _ _ hab => hab.mono hQ

lemma PreservesAhead.weaken (h : g.PreservesAhead P Q p) (hP : P' → P) (hQ : Q → Q') :
    g.PreservesAhead P' Q' p :=
  fun s t hst => (h s t (hst.mono hP)).imp fun _ _ hab => hab.mono hQ

/-- Only the ways of a pattern count. -/
lemma Preserves.congr (hways : ∀ s, q.ways s = p.ways s) (h : g.Preserves P Q p) :
    g.Preserves P Q q := by
  intro s t hst
  rw [hways, hways]
  exact h s t hst

lemma Preserves.append (hp : g.Preserves P Q p) (hq : g.Preserves Q R q) :
    g.Preserves P R (p ++ q) :=
  fun s t h => List.rel_flatMap (hp s t h) hq

lemma filter_ahead {l m : List Progress} (h : List.Forall₂ (g.Tracks Q) l m)
    (hQ : Q → g.EndsWord) :
    List.Forall₂ (g.Tracks Q) (l.filter (ahead token)) (m.filter (ahead token)) :=
  List.rel_filter (fun _ _ hab => by simp only [hab.ahead_eq hQ]) h

lemma Demands.ways_eq_nil (hp : Demands token p) (hs : Seam.ahead token s = false) :
    p.ways s = [] := by
  refine (hp s.place.after fun c hc => ?_).ways_eq_nil
  rw [Option.mem_def] at hc
  rw [Seam.ahead, hc] at hs
  exact hs

lemma flatMap_filter_ahead (hq : Demands token q) (l : List Progress) :
    (l.filter (Seam.ahead token)).flatMap (fun s => q.ways s) = l.flatMap fun s => q.ways s := by
  induction l with
  | nil => rfl
  | cons s l ih =>
    cases hs : Seam.ahead token s with
    | true => simp [hs, ih]
    | false => simp [hs, ih, hq.ways_eq_nil hs]

/-- In front of a pattern that begins with a word only the ways that lead to a word count. -/
lemma PreservesAhead.append (hp : g.PreservesAhead P Q p) (hdemands : Demands token q)
    (hq : g.Preserves Q R q) : g.Preserves P R (p ++ q) := by
  intro s t h
  rw [ways_append, ways_append, ← flatMap_filter_ahead hdemands,
    ← flatMap_filter_ahead hdemands (p.ways t)]
  exact List.rel_flatMap (hp s t h) hq

lemma Preserves.append_ahead (hp : g.Preserves P Q p) (hq : g.PreservesAhead Q R q) :
    g.PreservesAhead P R (p ++ q) := by
  intro s t h
  rw [ways_append, ways_append, List.filter_flatMap, List.filter_flatMap]
  exact List.rel_flatMap (hp s t h) hq

/-! ### Choices, groups and rounds -/

lemma PreservesAhead.either (hp : g.PreservesAhead P Q p) (hq : g.PreservesAhead P Q q) :
    g.PreservesAhead P Q (either p q) := by
  intro s t h
  rw [ways_either, ways_either, List.filter_append, List.filter_append]
  exact List.rel_append (hp s t h) (hq s t h)

lemma Preserves.either (hp : g.Preserves P Q p) (hq : g.Preserves P Q q) :
    g.Preserves P Q (either p q) :=
  fun s t h => List.rel_append (hp s t h) (hq s t h)

lemma PreservesAhead.optional (hp : g.PreservesAhead P Q p) (hPQ : P → Q) (hQ : Q → g.EndsWord) :
    g.PreservesAhead P Q (optional p) := by
  intro s t h
  have hsame : List.Forall₂ (g.Tracks Q) [s] [t] := .cons (h.mono hPQ) .nil
  rw [ways_optional, ways_optional, List.filter_append, List.filter_append]
  exact List.rel_append (hp s t h) (filter_ahead hsame hQ)

/-- Remembering what lies between corresponding places. -/
lemma Tracks.group {r r' : Progress} (hstart : g.Tracks P s t) (hstop : g.Tracks Q r r')
    (hr : r ∈ p.ways s) (hr' : r' ∈ p.ways t) (n : Nat) :
    g.Tracks Q { r with groups := (n, ⟨s.place, r.place⟩) :: r.groups }
      { r' with groups := (n, ⟨t.place, r'.place⟩) :: r'.groups } := by
  obtain ⟨u, hu⟩ := passes_of_mem_ways hr
  obtain ⟨v, hv⟩ := passes_of_mem_ways hr'
  refine ⟨hstop.place, .cons ⟨rfl, ?_⟩ hstop.groups⟩
  rw [Span.text_of_passes hu, Span.text_of_passes hv]
  exact hstart.place.respaced hstop.place hu hv

lemma Preserves.group (hp : g.Preserves P Q p) (n : Nat) : g.Preserves P Q (group n p) := by
  intro s t h
  rw [ways_group, ways_group, List.forall₂_map_left_iff, List.forall₂_map_right_iff]
  exact forall₂_of_mem (hp s t h) fun r hr r' hr' hrr' => h.group hrr' hr hr' n

lemma PreservesAhead.group (hp : g.PreservesAhead P Q p) (n : Nat) :
    g.PreservesAhead P Q (group n p) := by
  intro s t h
  have hfilter (s : Progress) : ((Pattern.group n p).ways s).filter (Seam.ahead token) =
      ((p.ways s).filter (Seam.ahead token)).map fun t =>
        { t with groups := (n, ⟨s.place, t.place⟩) :: t.groups } := by
    rw [ways_group, List.filter_map]
    rfl
  rw [hfilter, hfilter, List.forall₂_map_left_iff, List.forall₂_map_right_iff]
  exact forall₂_of_mem (hp s t h) fun r hr r' hr' hrr' =>
    h.group hrr' (List.mem_of_mem_filter hr) (List.mem_of_mem_filter hr') n

/-- Rounds that always move on. -/
lemma ways_rounds_of_leastLength (hp : 0 < p.leastLength) (s : Progress) :
    (rounds p .fewest).ways s = s :: (p.ways s).flatMap fun t => (rounds p .fewest).ways t := by
  rw [ways_rounds_fewest]
  congr 1
  refine List.flatMap_congr fun t ht => if_pos ?_
  obtain ⟨u, hu⟩ := passes_of_mem_ways ht
  have hlength := leastLength_add_le_of_mem_ways ht
  rw [hu.after_eq, List.length_append] at hlength
  exact hu.offset_lt_iff.2 (List.ne_nil_of_length_pos (by omega))

lemma Preserves.rounds (hp : g.Preserves P P p) (hlength : 0 < p.leastLength) :
    g.Preserves P P (rounds p .fewest) := by
  intro s t h
  induction hn : s.place.after.length using Nat.strongRecOn generalizing s t with
  | ind n ih =>
    -- each round leaves less of the text
    have hrounds : List.Forall₂ (fun r r' => g.Tracks P r r' ∧ r.place.after.length < n)
        (p.ways s) (p.ways t) := by
      refine forall₂_of_mem (hp s t h) fun r hr r' hr' hrr' => ⟨hrr', ?_⟩
      have hless := leastLength_add_le_of_mem_ways hr
      omega
    rw [ways_rounds_of_leastLength hlength, ways_rounds_of_leastLength hlength]
    refine .cons h (List.rel_flatMap hrounds ?_)
    rintro r r' ⟨hrr', hless⟩
    exact ih _ hless r r' hrr' rfl

/-! ### Words and marks -/

/-- A character comes next in both texts or in none; in front of the blank it must be one of a
word. -/
lemma Beside.skip?_cons {a : Char} {text : List Char} {S : Cursor → Cursor → Prop}
    (h : g.Beside P c d) (hseam : P → g.EndsWord ∧ token a = true)
    (hnext : ∀ c' d', g.Beside (g.front.getLast? = some a) c' d' →
      Option.Rel S (Cursor.skip? text c') (Cursor.skip? text d')) :
    Option.Rel S (Cursor.skip? (a :: text) c) (Cursor.skip? (a :: text) d) := by
  cases h with
  | @before u v hfront hP =>
    cases v with
    | nil =>
      -- in front of the blank stands the end of a word, so no word begins behind the seam either
      obtain ⟨hends, ha⟩ := hseam (hP rfl)
      obtain ⟨b, back, hback⟩ := List.exists_cons_of_ne_nil g.back_ne_nil
      have hb : a ≠ b := by
        rintro rfl
        simp [hends.not_token a (by rw [hback]; rfl)] at ha
      have hspace : a ≠ ' ' := by
        rintro rfl
        simp [g.token_space] at ha
      rw [List.nil_append, List.nil_append, hback, Cursor.skip?_cons_between,
        Cursor.skip?_cons_between, if_neg hb, if_neg hspace]
      exact .none
    | cons b v =>
      rw [List.cons_append, List.cons_append, Cursor.skip?_cons_between, Cursor.skip?_cons_between]
      split
      · next hab =>
        exact hnext _ _ (.before (by simp [hfront]) fun hv => by simp [hfront, hv, hab])
      · exact .none
  | @behind u v hback =>
    cases v with
    | nil => exact .none
    | cons b v =>
      rw [Cursor.skip?_cons_between, Cursor.skip?_cons_between, List.append_assoc, List.append_assoc]
      split
      · exact hnext _ _ (.behind (by simp [hback]))
      · exact .none

lemma Beside.skip? {text : List Char} (h : g.Beside g.EndsWord c d)
    (htext : ∀ c ∈ text, token c = true) :
    Option.Rel (g.Beside g.EndsWord) (Cursor.skip? text c) (Cursor.skip? text d) := by
  induction text generalizing c d with
  | nil => exact .some h
  | cons a text ih =>
    have ha : token a = true := htext a (by simp)
    exact h.skip?_cons (fun hends => ⟨hends, ha⟩) fun c' d' hplace =>
      ih (hplace.mono fun hlast => ⟨a, hlast, ha⟩) fun c hc => htext c (List.mem_cons_of_mem _ hc)

lemma preserves_of_skip? {text : String}
    (h : ∀ c d, g.Beside P c d →
      Option.Rel (g.Beside Q) (Cursor.skip? text.toList c) (Cursor.skip? text.toList d)) :
    g.Preserves P Q (lit text) := by
  intro s t hst
  rw [lit, ways_word, ways_word]
  have hrel := h _ _ hst.place
  generalize Cursor.skip? text.toList s.place = c at hrel
  generalize Cursor.skip? text.toList t.place = d at hrel
  cases hrel with
  | none => exact .nil
  | some hplace => exact .cons ⟨hplace, hst.groups⟩ .nil

/-- A word is there in both texts or in none. -/
lemma preserves_lit {text : String} (htext : ∀ c ∈ text.toList, token c = true) :
    g.Preserves g.EndsWord g.EndsWord (lit text) :=
  preserves_of_skip? fun _ _ hplace => hplace.skip? htext

/-- A mark is there in both texts or in none, unless it is looked for in front of the blank. -/
lemma preserves_mark {text : String} {a : Char} (htext : text.toList = [a]) :
    g.Preserves False True (lit text) := by
  refine preserves_of_skip? fun c d hplace => ?_
  rw [htext]
  exact hplace.skip?_cons False.elim fun c' d' h => .some (h.mono fun _ => trivial)

/-! ### Stretches of a class -/

lemma forall₂_ite {b : Prop} [Decidable b] (h : b → g.Tracks Q s t) :
    List.Forall₂ (g.Tracks Q) (if b then [s] else []) (if b then [t] else []) := by
  by_cases hb : b
  · rw [if_pos hb, if_pos hb]
    exact .cons (h hb) .nil
  · rw [if_neg hb, if_neg hb]
    exact .nil

/-- Behind the seam the two texts are the same. -/
lemma forall₂_ways_all_behind {groups groups' : List (Nat × Span)} (hback : g.back = u ++ v)
    (hgroups : List.Forall₂ (Recalls token) groups groups') (cls : Char → Bool) (least : Nat) :
    List.Forall₂ (g.Tracks Q) ((all cls least).ways ⟨.between (g.front ++ u) v, groups⟩)
      ((all cls least).ways ⟨.between (g.front ++ ' ' :: u) v, groups'⟩) := by
  obtain ⟨w, rest, rfl, hw, hstop⟩ := Cursor.exists_stop cls v
  rw [ways_all_of_stop hw hstop, ways_all_of_stop hw hstop, List.append_assoc, List.append_assoc]
  exact forall₂_ite fun _ => ⟨.behind (by rw [hback, List.append_assoc]), hgroups⟩

/-- Before the seam a stretch that ends there is the same in both texts. -/
lemma forall₂_ways_all_before {groups groups' : List (Nat × Span)} {b : Char}
    (hfront : g.front = u ++ (v ++ b :: w)) (hv : ∀ c ∈ v, cls c = true) (hb : cls b = false)
    (hgroups : List.Forall₂ (Recalls token) groups groups') (least : Nat) :
    List.Forall₂ (g.Tracks Q) ((all cls least).ways ⟨.between u (v ++ b :: w ++ g.back), groups⟩)
      ((all cls least).ways ⟨.between u (v ++ b :: w ++ ' ' :: g.back), groups'⟩) := by
  have hstop (rest : List Char) : ∀ c ∈ (b :: w ++ rest).head?, cls c = false :=
    head?_not_mem (c := b) rfl hb
  rw [List.append_assoc, List.append_assoc, ways_all_of_stop hv (hstop _),
    ways_all_of_stop hv (hstop _)]
  exact forall₂_ite fun _ => ⟨.before (by rw [hfront, List.append_assoc]) (by simp), hgroups⟩

/-- Characters of words are taken up to the seam at most. -/
lemma preserves_all (hcls : ∀ c, cls c = true → token c = true) (least : Nat) :
    g.Preserves g.EndsWord g.EndsWord (all cls least) := by
  refine preserves_of_beside fun c d hplace groups groups' hgroups => ?_
  cases hplace with
  | @before u v hfront hseam =>
    obtain ⟨w, rest, rfl, hw, hstop⟩ := Cursor.exists_stop cls v
    cases rest with
    | nil =>
      -- the stretch reaches up to the seam, and a word ends there
      rw [List.append_nil] at hfront hseam ⊢
      have hends : g.EndsWord := by
        cases w using List.reverseRecOn with
        | nil => exact hseam rfl
        | append_singleton w b => exact ⟨b, by simp [hfront], hcls b (hw b (by simp))⟩
      have hnot {c : Char} (hc : token c = false) : cls c = false :=
        Bool.eq_false_iff.2 fun h => by simp [hcls c h] at hc
      have hback : ∀ c ∈ g.back.head?, cls c = false := fun c hc => hnot (hends.not_token c hc)
      have hspace : ∀ c ∈ (' ' :: g.back).head?, cls c = false :=
        head?_not_mem (c := ' ') rfl (hnot g.token_space)
      rw [ways_all_of_stop hw hback, ways_all_of_stop hw hspace]
      refine forall₂_ite fun _ => ⟨?_, hgroups⟩
      have hplace : g.Beside g.EndsWord (.between (u ++ w) ([] ++ g.back))
          (.between (u ++ w) ([] ++ ' ' :: g.back)) := .before (by simp [hfront]) fun _ => hends
      exact hplace
    | cons b rest => exact forall₂_ways_all_before hfront hw (hstop b rfl) hgroups least
  | behind hback => exact forall₂_ways_all_behind hback hgroups cls least

/-- What a stretch goes over, the added blank included: from the place in front of the blank on it
goes on behind the seam. -/
lemma ways_all_over {groups groups' : List (Nat × Span)} (hfront : g.front = u ++ v)
    (hv : ∀ c ∈ v, cls c = true) (hspace : cls ' ' = true) (least : Nat) :
    ∃ w rest, g.back = w ++ rest ∧
      (all cls least).ways ⟨.between u (v ++ g.back), groups⟩ =
        (if least ≤ v.length + w.length then [⟨.between (g.front ++ w) rest, groups⟩] else []) ∧
      (all cls least).ways ⟨.between u (v ++ ' ' :: g.back), groups'⟩ =
        (if least ≤ v.length + w.length + 1 then [⟨.between (g.front ++ ' ' :: w) rest, groups'⟩]
          else []) := by
  obtain ⟨w, rest, hback, hw, hstop⟩ := Cursor.exists_stop cls g.back
  have hclosed : ∀ c ∈ v ++ w, cls c = true := List.forall_mem_append.2 ⟨hv, hw⟩
  have hspaced : ∀ c ∈ v ++ ' ' :: w, cls c = true :=
    List.forall_mem_append.2 ⟨hv, List.forall_mem_cons.2 ⟨hspace, hw⟩⟩
  refine ⟨w, rest, hback, ?_, ?_⟩
  · rw [hback, ← List.append_assoc, ways_all_of_stop hclosed hstop, hfront, List.length_append,
      List.append_assoc]
  · rw [hback, ← List.cons_append, ← List.append_assoc, ways_all_of_stop hspaced hstop, hfront,
      List.length_append, List.append_assoc]
    rfl

/-- A stretch that may be empty goes over the added blank. -/
lemma preserves_all_zero (hspace : cls ' ' = true) : g.Preserves True False (all cls 0) := by
  refine preserves_of_beside fun c d hplace groups groups' hgroups => ?_
  cases hplace with
  | @before u v hfront hseam =>
    obtain ⟨w, rest, rfl, hw, hstop⟩ := Cursor.exists_stop cls v
    cases rest with
    | nil =>
      rw [List.append_nil] at hfront ⊢
      obtain ⟨w', rest, hback, hclosed, hspaced⟩ := ways_all_over hfront hw hspace 0
      rw [hclosed, hspaced, if_pos (Nat.zero_le _), if_pos (Nat.zero_le _)]
      exact .cons ⟨.behind hback, hgroups⟩ .nil
    | cons b rest => exact forall₂_ways_all_before hfront hw (hstop b rfl) hgroups 0
  | behind hback => exact forall₂_ways_all_behind hback hgroups cls 0

/-- The added blank is one of those that come next; where it is the only one, no word follows. -/
lemma preservesAhead_blanks : g.PreservesAhead g.EndsWord False blanks := by
  refine preservesAhead_of_beside fun c d hplace groups groups' hgroups => ?_
  cases hplace with
  | @before u v hfront hseam =>
    obtain ⟨w, rest, rfl, hw, hstop⟩ := Cursor.exists_stop isBlank v
    cases rest with
    | nil =>
      rw [List.append_nil] at hfront hseam ⊢
      obtain ⟨w', rest, hback, hclosed, hspaced⟩ := ways_all_over hfront hw rfl 1
      rw [blanks, hclosed, hspaced, if_pos (Nat.le_add_left _ _)]
      by_cases hlength : 1 ≤ w.length + w'.length
      · rw [if_pos hlength]
        exact filter_ahead (.cons ⟨.behind hback, hgroups⟩ .nil) False.elim
      · -- only the added blank comes next, and behind it no word begins
        have hw : w = [] := List.eq_nil_of_length_eq_zero (by omega)
        have hw' : w' = [] := List.eq_nil_of_length_eq_zero (by omega)
        subst hw hw'
        have hnot : ∀ c ∈ rest.head?, token c = false := by
          have hnot := (hseam rfl).not_token
          rwa [hback] at hnot
        have hahead (place : Cursor) (hplace : place.after = rest) :
            Seam.ahead token ⟨place, groups'⟩ = false := by
          rw [Seam.ahead, hplace]
          cases hhead : rest.head? with
          | none => rfl
          | some c => exact hnot c hhead
        rw [if_neg hlength, List.filter_nil, List.filter_singleton, hahead _ rfl]
        exact .nil
    | cons b rest =>
      exact filter_ahead (forall₂_ways_all_before hfront hw (hstop b rfl) hgroups 1) False.elim
  | behind hback => exact filter_ahead (forall₂_ways_all_behind hback hgroups isBlank 1) False.elim

/-- Blanks in front of a word. -/
lemma preserves_blanks_append (hdemands : Demands token q) (hq : g.Preserves g.EndsWord Q q) :
    g.Preserves g.EndsWord Q (blanks ++ q) :=
  preservesAhead_blanks.append hdemands (hq.weaken False.elim id)

/-! ### Conditions on a place -/

lemma preserves_textStart : g.Preserves P P textStart := by
  refine preserves_of_beside fun c d hplace groups groups' hgroups => ?_
  have hplace' := hplace
  rw [ways_textStart, ways_textStart]
  cases hplace with
  | before => exact forall₂_ite fun _ => ⟨hplace', hgroups⟩
  | behind =>
    have hne := g.front_ne_nil
    simp [hne]

lemma preserves_textEnd : g.Preserves True True textEnd := by
  refine preserves_of_beside fun c d hplace groups groups' hgroups => ?_
  have hplace' := hplace
  rw [ways_textEnd, ways_textEnd]
  cases hplace with
  | before =>
    have hne := g.back_ne_nil
    simp [hne]
  | behind => exact forall₂_ite fun _ => ⟨hplace', hgroups⟩

/-- In front of a word both texts have a boundary or none. -/
lemma Beside.isWordBoundary_eq (h : g.Beside False c d)
    (hword : ∀ c, isWordChar c = true → token c = true) (hahead : c.after.head?.any token = true) :
    c.isWordBoundary = d.isWordBoundary := by
  have hnotWord {c : Char} (hc : token c = false) : isWordChar c = false :=
    Bool.eq_false_iff.2 fun h => by simp [hword c h] at hc
  cases h with
  | @before u v hfront hseam =>
    obtain ⟨b, v, rfl⟩ := List.exists_cons_of_ne_nil hseam
    rfl
  | @behind u v hback =>
    cases u using List.reverseRecOn with
    | nil =>
      -- a word begins behind the seam, so none ends before it
      obtain ⟨front, a, hfront⟩ := (List.eq_nil_or_concat g.front).resolve_left g.front_ne_nil
      obtain ⟨b, hb, htoken⟩ := (Option.any_eq_true _ _).1 hahead
      have ha : token a = false := by
        by_contra ha
        have hmeet := g.apart a (by simp [hfront]) b (by rw [hback]; exact hb) (by simpa using ha)
        simp [htoken] at hmeet
      simp [Cursor.isWordBoundary, hfront, hnotWord ha, hnotWord g.token_space]
    | append_singleton u b => simp [Cursor.isWordBoundary]

lemma preservesAhead_wordBoundary (hword : ∀ c, isWordChar c = true → token c = true) :
    g.PreservesAhead False False wordBoundary := by
  refine preservesAhead_of_beside fun c d hplace groups groups' hgroups => ?_
  have htracks : g.Tracks False ⟨c, groups⟩ ⟨d, groups'⟩ := ⟨hplace, hgroups⟩
  have hsame := htracks.ahead_eq False.elim
  rw [ways_wordBoundary, ways_wordBoundary]
  cases hahead : Seam.ahead token ⟨c, groups⟩ with
  | true =>
    rw [hplace.isWordBoundary_eq hword hahead]
    exact filter_ahead (forall₂_ite fun _ => htracks) False.elim
  | false =>
    have hnone {b : Prop} [Decidable b] {s : Progress} (hs : Seam.ahead token s = false) :
        (if b then [s] else []).filter (Seam.ahead token) = [] := by
      split <;> simp [hs]
    rw [hnone hahead, hnone (hsame.symm.trans hahead)]
    exact .nil

/-! ### Patterns that begin with a word -/

lemma Demands.append (hp : Demands token p) (q : Pattern) : Demands token (p ++ q) :=
  fun back h => (hp back h).append q

lemma Demands.group (hp : Demands token p) (n : Nat) : Demands token (Pattern.group n p) :=
  fun back h => (hp back h).group n

lemma Demands.optional_append (hp : Demands token p) (hq : Demands token q) :
    Demands token (Pattern.optional p ++ q) :=
  fun back h => (hp back h).optional.silentAt_append (hq back h)

lemma Demands.congr (hways : ∀ s, q.ways s = p.ways s) (hp : Demands token p) : Demands token q :=
  fun back h front groups => (hways _).trans (hp back h front groups)

lemma Demands.wordBoundary_append (hp : Demands token p) : Demands token (wordBoundary ++ p) := by
  intro back h front groups
  rw [ways_append_eq_nil_iff]
  intro t ht
  obtain ⟨-, rfl⟩ := mem_ways_wordBoundary.1 ht
  exact hp back h front groups

lemma demands_lit {text : String} {a : Char} {more : List Char} (htext : text.toList = a :: more)
    (ha : token a = true) : Demands token (lit text) := by
  intro back h
  refine silentAt_lit fun hprefix => ?_
  obtain ⟨rest, hrest⟩ := hprefix
  have hhead : back.head? = some a := by
    rw [← hrest, htext]
    rfl
  simp [h a hhead] at ha

lemma demands_all (hcls : ∀ c, cls c = true → token c = true) (least : Nat) :
    Demands token (all cls (least + 1)) := by
  intro back h
  refine silentAt_all fun c hc => Bool.eq_false_iff.2 fun hcls' => ?_
  have htoken := h c hc
  simp [hcls c hcls'] at htoken

/-! ### Matches -/

lemma Preserves.matchAt? (hp : g.Preserves P Q p) (h : g.Beside P c d) :
    Option.Rel (Alike token p) (p.matchAt? c) (p.matchAt? d) := by
  have hways := hp ⟨c, []⟩ ⟨d, []⟩ ⟨h, .nil⟩
  cases hc : p.ways ⟨c, []⟩ with
  | nil =>
    rw [hc, List.forall₂_nil_left_iff] at hways
    rw [matchAt?_of_ways_eq_nil hc, matchAt?_of_ways_eq_nil hways]
    exact .none
  | cons s l =>
    rw [hc, List.forall₂_cons_left_iff] at hways
    obtain ⟨t, m, hst, -, hd⟩ := hways
    have hs : p.First ⟨c, []⟩ s := by rw [First, hc]; rfl
    have ht : p.First ⟨d, []⟩ t := by rw [First, hd]; rfl
    rw [matchAt?_of_first hs, matchAt?_of_first ht]
    exact .some ⟨hst.groups, d, matchAt?_of_first ht⟩

namespace Alike

variable {m m' : Match}

lemma group? (h : Alike token p m m') (n : Nat) :
    Option.Rel (fun a b => Respaced token a.text b.text) (m.group? n) (m'.group? n) := by
  have hgroups := h.groups
  rw [Match.group?, Match.group?]
  generalize m.groups = l at hgroups
  generalize m'.groups = l' at hgroups
  induction hgroups with
  | nil => exact .none
  | @cons a b l l' hab hrest ih =>
    obtain ⟨number, span⟩ := a
    obtain ⟨number', span'⟩ := b
    obtain ⟨hnumber, htext⟩ := hab
    obtain rfl : number = number' := hnumber
    rw [List.lookup_cons, List.lookup_cons]
    cases n == number with
    | true => exact .some htext
    | false => exact ih

lemma groupText (h : Alike token p m m') (n : Nat) :
    Respaced token (m.groupText n) (m'.groupText n) := by
  rw [Match.groupText, Match.groupText]
  have hgroup := h.group? n
  generalize m.group? n = a at hgroup
  generalize m'.group? n = b at hgroup
  cases hgroup with
  | none => exact .same []
  | some htext => exact htext

lemma isSome_group? (h : Alike token p m m') (n : Nat) :
    (m.group? n).isSome = (m'.group? n).isSome := by
  have hgroup := h.group? n
  generalize m.group? n = a at hgroup
  generalize m'.group? n = b at hgroup
  cases hgroup <;> rfl

/-- A group of characters other than the blank is the same in both. -/
lemma groupText_eq {n least : Nat} (h : Alike token p m m')
    (hparts : p.parts n = [all cls least]) (hcls : cls ' ' = false) :
    m.groupText n = m'.groupText n := by
  refine (h.groupText n).eq_of_notMem fun hmem => ?_
  obtain ⟨place, hmatch⟩ := h.found
  have hspace := forall_mem_groupText hparts hmatch ' ' hmem
  simp [hcls] at hspace

end Alike

/-! ### Searching -/

lemma rel_or {α β : Type} {S : α → β → Prop} {a b : Option α} {a' b' : Option β}
    (h : Option.Rel S a a') (h' : Option.Rel S b b') : Option.Rel S (a.or b) (a'.or b') := by
  cases h with
  | none => exact h'
  | some hab => exact .some hab

variable {S : Match → Match → Prop}

lemma map_eq_of_rel {α : Type} {a b : Option Match} {f : Match → α} (h : Option.Rel S a b)
    (hf : ∀ m m', S m m' → f m = f m') : a.map f = b.map f := by
  cases h with
  | none => rfl
  | some hab => exact congrArg some (hf _ _ hab)

lemma rel_findBefore?_behind
    (hp : ∀ c d, g.Beside False c d → Option.Rel S (p.matchAt? c) (p.matchAt? d))
    (hback : g.back = u ++ v) :
    Option.Rel S (p.findBefore? (.between (g.front ++ u) v) v)
      (p.findBefore? (.between (g.front ++ ' ' :: u) v) v) := by
  induction v generalizing u with
  | nil => exact hp _ _ (.behind hback)
  | cons b v ih =>
    have hrest := @ih (u ++ [b]) (by simp [hback])
    rw [findBefore?, findBefore?, orElse_eq, orElse_eq, Cursor.pass_between, Cursor.pass_between]
    exact rel_or (hp _ _ (.behind hback)) (by simpa using hrest)

lemma rel_findBefore?_before (hdemands : Demands token p)
    (hp : ∀ c d, g.Beside False c d → Option.Rel S (p.matchAt? c) (p.matchAt? d))
    (hfront : g.front = u ++ v) :
    Option.Rel S (p.findBefore? (.between u (v ++ g.back)) (v ++ g.back))
      (p.findBefore? (.between u (v ++ ' ' :: g.back)) (v ++ ' ' :: g.back)) := by
  induction v generalizing u with
  | nil =>
    -- the search passes over the place in front of the blank
    have hblank : p.matchAt? (.between u (' ' :: g.back)) = none :=
      matchAt?_of_ways_eq_nil (hdemands _ (head?_not_mem (c := ' ') rfl g.token_space) u [])
    have hbehind := rel_findBefore?_behind hp (List.nil_append g.back).symm
    rw [List.nil_append, List.nil_append, findBefore?, orElse_eq, hblank, Option.none_or,
      Cursor.pass_between]
    simpa [hfront] using hbehind
  | cons b v ih =>
    have hrest := @ih (u ++ [b]) (by simp [hfront])
    rw [List.cons_append, List.cons_append, findBefore?, findBefore?, orElse_eq, orElse_eq,
      Cursor.pass_between, Cursor.pass_between]
    exact rel_or (hp _ _ (.before hfront (by simp))) hrest

/-- **A search finds the same** in the text with an added blank, as long as what the pattern does at
corresponding places is the same and it begins with a word. -/
theorem rel_find? (hdemands : Demands token p)
    (hp : ∀ c d, g.Beside False c d → Option.Rel S (p.matchAt? c) (p.matchAt? d)) :
    Option.Rel S (p.find? g.closed) (p.find? g.spaced) :=
  rel_findBefore?_before hdemands hp (List.nil_append g.front).symm

/-- The same for a pattern that matches at the start only. -/
theorem rel_find?_of_onlyAtStart (hstart : p.OnlyAtStart)
    (hp : ∀ c d, g.Beside False c d → Option.Rel S (p.matchAt? c) (p.matchAt? d)) :
    Option.Rel S (p.find? g.closed) (p.find? g.spaced) := by
  rw [hstart.find?_eq_matchAt?, hstart.find?_eq_matchAt?]
  exact hp _ _ beside_start

end Seam

end Survey.Pattern
