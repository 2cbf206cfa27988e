/-
# Blanks that separate nothing

Where two characters of a class meet, such as those of words, a blank between them makes two tokens out
of one; everywhere else a blank separates nothing.  `closeUp` drops the blanks of the second kind and writes every stretch of
the first kind as one space, so two texts that differ only in their spacing close up to the same
text.  A blank put between two parts of a text changes nothing else as long as the parts are `Apart`.
-/
import Survey.Proofs.Text.Trim
import Survey.Proofs.Text.Words
import Survey.Text.Bracket

namespace Survey.Text

/-- A text without its blanks, except that one space stays between two characters of a class that
blanks stand between. -/
def closeUp (token : Char → Bool) : List Char → List Char
  | [] => []
  | c :: rest =>
    if isBlank c then closeUp token rest
    else if token c && rest.head?.any isBlank && (closeUp token rest).head?.any token then
      c :: ' ' :: closeUp token rest
    else c :: closeUp token rest

/-- No two characters of a class meet where one text ends and another begins. -/
def Apart (token : Char → Bool) (u v : List Char) : Prop :=
  ∀ c ∈ u.getLast?, ∀ d ∈ v.head?, token c = true → token d = false

lemma apart_iff {token : Char → Bool} {u v : List Char} :
    (u.getLast?.any token && v.head?.any token) = false ↔ Apart token u v := by
  rw [Apart]
  cases u.getLast? with
  | none => simp
  | some c => cases v.head? <;> simp

instance (token : Char → Bool) (u v : List Char) : Decidable (Apart token u v) :=
  decidable_of_iff _ apart_iff

/-- Two texts are the same, or a space in the second one separates two parts of the first. -/
inductive Respaced (token : Char → Bool) : List Char → List Char → Prop
  | same (u : List Char) : Respaced token u u
  | parted {u v : List Char} : Apart token u v → Respaced token (u ++ v) (u ++ ' ' :: v)

variable {token : Char → Bool} {c : Char} {u v w : List Char}

/-! ### Closing up -/

lemma closeUp_cons (c : Char) (u : List Char) :
    closeUp token (c :: u) =
      if isBlank c then closeUp token u
      else if token c && u.head?.any isBlank && (closeUp token u).head?.any token then
        c :: ' ' :: closeUp token u
      else c :: closeUp token u := rfl

lemma closeUp_cons_blank (hc : isBlank c = true) (u : List Char) :
    closeUp token (c :: u) = closeUp token u := by
  rw [closeUp_cons, if_pos hc]

lemma closeUp_append_of_blank (hu : ∀ c ∈ u, isBlank c = true) (v : List Char) :
    closeUp token (u ++ v) = closeUp token v := by
  induction u with
  | nil => rfl
  | cons c u ih =>
    rw [List.cons_append, closeUp_cons_blank (hu c (by simp)),
      ih fun d hd => hu d (List.mem_cons_of_mem _ hd)]

/-- A first character that is not blank stays first. -/
lemma head?_closeUp_cons (hc : isBlank c = false) (u : List Char) :
    (closeUp token (c :: u)).head? = some c := by
  rw [closeUp_cons, if_neg (by simp [hc])]
  split <;> rfl

lemma closeUp_eq_nil_iff : closeUp token u = [] ↔ ∀ c ∈ u, isBlank c = true := by
  induction u with
  | nil => simp [closeUp]
  | cons c u ih =>
    cases hc : isBlank c with
    | true => simp [closeUp_cons_blank hc, hc, ih]
    | false =>
      have hne : closeUp token (c :: u) ≠ [] := by
        intro hnil
        have hhead : (closeUp token (c :: u)).head? = some c := head?_closeUp_cons hc u
        simp [hnil] at hhead
      simp [hne, hc]

/-- Blanks at the end separate nothing. -/
lemma closeUp_append_blank (hv : ∀ c ∈ v, isBlank c = true) (u : List Char) :
    closeUp token (u ++ v) = closeUp token u := by
  induction u with
  | nil => exact closeUp_eq_nil_iff.2 hv
  | cons c u ih =>
    rw [List.cons_append, closeUp_cons, closeUp_cons, ih]
    cases u with
    | nil => simp [closeUp]
    | cons d u => rfl

lemma closeUp_trimStart (u : List Char) : closeUp token (trimStart u) = closeUp token u := by
  have hsplit : u = u.takeWhile isBlank ++ trimStart u := List.takeWhile_append_dropWhile.symm
  conv_rhs => rw [hsplit]
  exact (closeUp_append_of_blank (fun c hc => List.mem_takeWhile_imp hc) _).symm

lemma closeUp_trimEnd (u : List Char) : closeUp token (trimEnd u) = closeUp token u := by
  have hsplit : u = trimEnd u ++ (u.reverse.takeWhile isBlank).reverse := by
    rw [trimEnd, ← List.reverse_append, List.takeWhile_append_dropWhile, List.reverse_reverse]
  conv_rhs => rw [hsplit]
  refine (closeUp_append_blank (fun c hc => ?_) _).symm
  exact List.mem_takeWhile_imp (List.mem_reverse.1 hc)

@[simp] lemma closeUp_trim (u : List Char) : closeUp token (trim u) = closeUp token u := by
  rw [trim, closeUp_trimEnd, closeUp_trimStart]

/-- A space between two parts that are apart separates nothing. -/
lemma Apart.closeUp_eq (h : Apart token u v) :
    closeUp token (u ++ ' ' :: v) = closeUp token (u ++ v) := by
  induction u with
  | nil => exact closeUp_cons_blank (by decide) v
  | cons c u ih =>
    cases u with
    | nil =>
      have hspace : closeUp token (' ' :: v) = closeUp token v := closeUp_cons_blank (by decide) v
      -- only a blank can come before a character of the class behind another one
      have hblank : token c = true → (closeUp token v).head?.any token = true →
          v.head?.any isBlank = true := by
        intro hc hany
        cases v with
        | nil => simp [closeUp] at hany
        | cons d v =>
          cases hd : isBlank d with
          | true => simpa using hd
          | false =>
            have htoken : token d = false := h c rfl d rfl hc
            rw [head?_closeUp_cons hd] at hany
            simp [htoken] at hany
      rw [List.singleton_append, List.singleton_append, closeUp_cons c (' ' :: v), hspace,
        closeUp_cons c v]
      cases hc : token c with
      | false => simp
      | true =>
        cases hany : (closeUp token v).head?.any token with
        | false => simp
        | true => simp [hblank hc hany, show isBlank ' ' = true by decide]
    | cons d u =>
      have hrest := ih fun c hc d hd => h c (by simpa using hc) d hd
      change closeUp token (c :: (d :: u ++ ' ' :: v)) = closeUp token (c :: (d :: u ++ v))
      rw [closeUp_cons c (d :: u ++ ' ' :: v), hrest, closeUp_cons c (d :: u ++ v)]
      rfl

/-! ### Parts that are apart -/

lemma Apart.of_parts {u' v' : List Char} (h : Apart token u v) (hu : u' <:+ u)
    (hv : v' <+: v) : Apart token u' v' := by
  obtain ⟨x, rfl⟩ := hu
  obtain ⟨y, rfl⟩ := hv
  intro c hc d hd
  refine h c ?_ d ?_
  · rw [Option.mem_def] at hc ⊢
    rw [List.getLast?_append, hc, Option.some_or]
  · rw [Option.mem_def] at hd ⊢
    rw [List.head?_append, hd, Option.some_or]

/-- A word goes over no place between parts that are apart. -/
lemma Apart.infix_append_iff (h : Apart token u v) (hw : ∀ c ∈ w, token c = true) :
    w <:+: u ++ v ↔ w <:+: u ∨ w <:+: v := by
  rw [List.infix_append_iff_ne_nil]
  refine ⟨?_, fun h => h.imp_right Or.inl⟩
  rintro (hu | hv | ⟨w₁, w₂, hne₁, hne₂, rfl, hsuffix, hprefix⟩)
  · exact Or.inl hu
  · exact Or.inr hv
  · obtain ⟨w₁, c, rfl⟩ := (List.eq_nil_or_concat w₁).resolve_left hne₁
    obtain ⟨d, w₂, rfl⟩ := List.exists_cons_of_ne_nil hne₂
    have hd : token d = false :=
      h.of_parts hsuffix hprefix c (by simp) d rfl (hw c (by simp))
    simp [hw d (by simp)] at hd

lemma Apart.infix_space_iff (h : Apart token u v) (hspace : token ' ' = false)
    (hw : ∀ c ∈ w, token c = true) : w <:+: u ++ ' ' :: v ↔ w <:+: u ++ v := by
  have hfront : Apart token u (' ' :: v) := by
    rintro c - d ⟨rfl⟩ -
    exact hspace
  have hback : Apart token [' '] v := by
    rintro c ⟨rfl⟩ d - hc
    simp [hspace] at hc
  have hblank : w <:+: [' '] → w <:+: v := by
    intro hinfix
    cases w with
    | nil => exact List.nil_infix
    | cons c w =>
      obtain rfl : c = ' ' := by simpa using hinfix.subset List.mem_cons_self
      simp [hspace] at hw
  have hone : ' ' :: v = [' '] ++ v := rfl
  rw [hfront.infix_append_iff hw, hone, hback.infix_append_iff hw, h.infix_append_iff hw]
  exact ⟨fun h => h.imp_right fun h => h.elim hblank id, fun h => h.imp_right Or.inr⟩

/-! ### Texts up to spacing -/

namespace Respaced

lemma closeUp_eq (h : Respaced token u v) : closeUp token u = closeUp token v := by
  cases h with
  | same => rfl
  | parted h => exact h.closeUp_eq.symm

/-- A text without blanks has only one spacing. -/
lemma eq_of_notMem (h : Respaced token u v) (hv : ' ' ∉ v) : u = v := by
  cases h with
  | same => rfl
  | parted => simp at hv

end Respaced

/-! ### Lists in different spacing -/

/-- A piece is dropped when nothing is left of it. -/
lemma map_closeUp_tidy_singleton (u : List Char) :
    (tidy [u]).map (closeUp token) = nonEmpty [closeUp token u] := by
  have hnil : trim u = [] ↔ closeUp token u = [] := by
    refine ⟨fun h => ?_, fun h => trim_eq_nil_of_blank (closeUp_eq_nil_iff.1 h)⟩
    rw [← closeUp_trim u, h]
    rfl
  by_cases hu : closeUp token u = []
  · simp [tidy, nonEmpty, hnil.2 hu, hu]
  · simp [tidy, nonEmpty, mt hnil.1 hu, hu]

/-- The items of a list do not depend on its spacing. -/
lemma Respaced.map_closeUp_splitCommas (h : Respaced token u v) :
    (splitCommas u).map (closeUp token) = (splitCommas v).map (closeUp token) := by
  cases h with
  | same => rfl
  | @parted u v h =>
    -- only the item around the seam is spaced differently
    obtain ⟨done, last, hlast, happend⟩ := exists_cutAt_append ',' u
    obtain ⟨piece, more, hcut, hpiece⟩ := exists_cutAt_eq_cons (· == ',') v
    have hspace : cutAt (· == ',') (' ' :: v) = (' ' :: piece) :: more := by
      rw [cutAt, if_neg (by decide), hcut, consHead_cons]
    have hitem : closeUp token (last ++ ' ' :: piece) = closeUp token (last ++ piece) :=
      (h.of_parts hlast hpiece).closeUp_eq
    have hitems (item : List Char) : (tidy (done ++ item :: more)).map (closeUp token) =
        (tidy done).map (closeUp token) ++ (nonEmpty [closeUp token item] ++
          (tidy more).map (closeUp token)) := by
      rw [← map_closeUp_tidy_singleton, ← List.map_append, ← tidy_append, List.singleton_append,
        ← List.map_append, ← tidy_append]
    rw [splitCommas, splitCommas, happend, happend, hcut, hspace, prependHead_cons, prependHead_cons,
      hitems, hitems, hitem]

end Survey.Text
