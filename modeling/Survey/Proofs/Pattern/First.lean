/-
# The first way of a pattern

Where the text after a place is known, the ways of a pattern from there are computed piece by piece:
a word is there or not, a class takes the longest stretch, and rounds come one after the other.  The
first way is the one that a match takes.  `First p s t` says that it leads from `s` to `t`; for a
sequence it is put together from the first ways of the parts as long as none of them has to be
taken back.
-/
import Survey.Proofs.Pattern.Ways

namespace Survey.Pattern

open Survey.Text

/-- The first way of a pattern from one state leads to another. -/
def First (p : Pattern) (s t : Progress) : Prop := (p.ways s).head? = some t

lemma matchAt?_of_first {p : Pattern} {place : Cursor} {t : Progress} (h : p.First ⟨place, []⟩ t) :
    p.matchAt? place = some ⟨⟨place, t.place⟩, t.groups⟩ := by
  rw [First] at h
  rw [matchAt?_eq, h]
  rfl

lemma matchAt?_of_ways_eq_nil {p : Pattern} {place : Cursor} (h : p.ways ⟨place, []⟩ = []) :
    p.matchAt? place = none := by
  rw [matchAt?_eq, h]
  rfl

lemma first_of_ways_eq {p : Pattern} {s t : Progress} (h : p.ways s = [t]) : p.First s t := by
  rw [First, h]
  rfl

lemma First.mem {p : Pattern} {s t : Progress} (h : p.First s t) : t ∈ p.ways s :=
  List.mem_of_mem_head? h

lemma exists_first {p : Pattern} {s : Progress} (h : p.ways s ≠ []) : ∃ t, p.First s t := by
  obtain ⟨t, more, hways⟩ := List.exists_cons_of_ne_nil h
  exact ⟨t, List.head?_eq_some_iff.2 ⟨more, hways⟩⟩

/-! ### Sequences and choices -/

section

variable {p q r : Pattern} {s t u : Progress}

lemma ways_append (p q : Pattern) (s : Progress) :
    (p ++ q).ways s = (p.ways s).flatMap fun t => q.ways t := rfl

lemma ways_append_assoc (p q r : Pattern) (s : Progress) :
    (p ++ q ++ r).ways s = (p ++ (q ++ r)).ways s := by
  simp only [ways_append, List.flatMap_assoc]

lemma ways_append_of_eq (h : p.ways s = [t]) : (p ++ q).ways s = q.ways t := by
  rw [ways_append, h, List.flatMap_singleton]

lemma ways_append_of_nil (h : p.ways s = []) : (p ++ q).ways s = [] := by
  rw [ways_append, h, List.flatMap_nil]

lemma ways_append_eq_nil_iff : (p ++ q).ways s = [] ↔ ∀ t ∈ p.ways s, q.ways t = [] := by
  rw [ways_append, List.flatMap_eq_nil_iff]

lemma First.append (hp : p.First s t) (hq : q.First t u) : (p ++ q).First s u := by
  rw [First] at hp hq ⊢
  obtain ⟨rest, hrest⟩ := List.head?_eq_some_iff.1 hp
  obtain ⟨rest', hrest'⟩ := List.head?_eq_some_iff.1 hq
  rw [ways_append, hrest, List.flatMap_cons, hrest']
  rfl

lemma First.group (n : Nat) (h : p.First s t) :
    (group n p).First s { t with groups := (n, ⟨s.place, t.place⟩) :: t.groups } := by
  rw [First] at h ⊢
  rw [ways_group, List.head?_map, h]
  rfl

lemma First.either_left (h : p.First s t) : (either p q).First s t := by
  rw [First] at h ⊢
  obtain ⟨rest, hrest⟩ := List.head?_eq_some_iff.1 h
  rw [ways_either, hrest]
  rfl

lemma First.optional (h : p.First s t) : (optional p).First s t := by
  rw [First] at h ⊢
  obtain ⟨rest, hrest⟩ := List.head?_eq_some_iff.1 h
  rw [ways_optional, hrest]
  rfl

/-- Leaving a part out is always a way. -/
lemma exists_first_optional (p : Pattern) (s : Progress) : ∃ t, (optional p).First s t := by
  have hsome : ((optional p).ways s).head?.isSome = true := by
    rw [ways_optional]
    simp
  exact Option.isSome_iff_exists.1 hsome

end

/-! ### In front of a known text -/

/-- A pattern matches nowhere in front of a text, whatever stands before the text. -/
def SilentAt (p : Pattern) (back : List Char) : Prop :=
  ∀ front groups, p.ways ⟨.between front back, groups⟩ = []

/-- The only way of a pattern goes over a stretch in front of a text. -/
def Takes (p : Pattern) (u back : List Char) : Prop :=
  ∀ front groups, p.ways ⟨.between front (u ++ back), groups⟩ =
    [⟨.between (front ++ u) back, groups⟩]

section

variable {p q : Pattern} {front u v back rest : List Char} {groups : List (Nat × Span)}

lemma SilentAt.append (h : p.SilentAt back) (q : Pattern) : (p ++ q).SilentAt back :=
  fun front groups => ways_append_of_nil (h front groups)

lemma SilentAt.group (h : p.SilentAt back) (n : Nat) : (Pattern.group n p).SilentAt back := by
  intro front groups
  rw [ways_group, h]
  rfl

lemma SilentAt.either (hp : p.SilentAt back) (hq : q.SilentAt back) :
    (Pattern.either p q).SilentAt back := by
  intro front groups
  rw [ways_either, hp, hq, List.append_nil]

lemma SilentAt.optional (h : p.SilentAt back) : (Pattern.optional p).Takes [] back := by
  intro front groups
  rw [ways_optional, List.nil_append, h, List.append_nil, List.nil_append]

lemma Takes.append (hp : p.Takes u (v ++ back)) (hq : q.Takes v back) :
    (p ++ q).Takes (u ++ v) back := by
  intro front groups
  rw [List.append_assoc, ways_append_of_eq (hp front groups), hq, List.append_assoc]

lemma Takes.silentAt_append (hp : p.Takes u back) (hq : q.SilentAt back) :
    (p ++ q).SilentAt (u ++ back) := by
  intro front groups
  rw [ways_append_of_eq (hp front groups), hq]

lemma Takes.ways_append (h : p.Takes u back) (q : Pattern) (front : List Char)
    (groups : List (Nat × Span)) :
    (p ++ q).ways ⟨.between front (u ++ back), groups⟩ =
      q.ways ⟨.between (front ++ u) back, groups⟩ :=
  ways_append_of_eq (h front groups)

lemma Takes.ways_group (h : p.Takes u back) (n : Nat) (front : List Char)
    (groups : List (Nat × Span)) :
    (Pattern.group n p).ways ⟨.between front (u ++ back), groups⟩ =
      [⟨.between (front ++ u) back, (n, .between front u back) :: groups⟩] := by
  rw [Pattern.ways_group, h]
  rfl

lemma Takes.silentAt_group_append (h : p.Takes u back) (hq : q.SilentAt back) (n : Nat) :
    (Pattern.group n p ++ q).SilentAt (u ++ back) := by
  intro front groups
  rw [ways_append_of_eq (h.ways_group n front groups), hq]

lemma Takes.first (h : p.Takes u back) (front : List Char) (groups : List (Nat × Span)) :
    p.First ⟨.between front (u ++ back), groups⟩ ⟨.between (front ++ u) back, groups⟩ :=
  first_of_ways_eq (h front groups)

lemma Takes.first_group (h : p.Takes u back) (n : Nat) (front : List Char)
    (groups : List (Nat × Span)) :
    (Pattern.group n p).First ⟨.between front (u ++ back), groups⟩
      ⟨.between (front ++ u) back, (n, .between front u back) :: groups⟩ :=
  first_of_ways_eq (h.ways_group n front groups)

/-! ### Words and classes -/

lemma takes_lit (text : String) (back : List Char) : (lit text).Takes text.toList back := by
  intro front groups
  rw [lit, ways_word, Cursor.skip?_between]
  rfl

lemma silentAt_lit {text : String} (h : ¬ text.toList <+: back) : (lit text).SilentAt back := by
  intro front groups
  rw [List.eq_nil_iff_forall_not_mem]
  intro t ht
  obtain ⟨⟨front', back', hplace, -⟩, -⟩ := mem_ways_word.1 ht
  have hafter : back = text.toList ++ back' := congrArg Cursor.after hplace
  exact h ⟨back', hafter.symm⟩

/-- A word is not there when another character comes next than its first one. -/
lemma silentAt_lit_of_ne {text : String} {c d : Char} {more : List Char}
    (htext : text.toList = d :: more) (hne : d ≠ c) : (lit text).SilentAt (c :: rest) := by
  refine silentAt_lit fun hprefix => ?_
  rw [htext, List.cons_prefix_cons] at hprefix
  exact hne hprefix.1

lemma ways_oneOf (words : List String) (s : Progress) :
    (oneOf words).ways s = words.flatMap fun word => (lit word).ways s := by
  induction words with
  | nil =>
    rw [oneOf, ways_one, List.flatMap_nil]
    split <;> rfl
  | cons word words ih =>
    cases words with
    | nil => rw [oneOf, List.flatMap_singleton]
    | cons next more =>
      have hcons : oneOf (word :: next :: more) = Pattern.either (lit word) (oneOf (next :: more)) :=
        rfl
      rw [hcons, ways_either, ih]
      rfl

/-- All characters of a class are taken if there are enough of them. -/
lemma ways_all_of_stop {cls : Char → Bool} {least : Nat} (hu : ∀ c ∈ u, cls c = true)
    (hstop : ∀ c ∈ back.head?, cls c = false) (front : List Char) (groups : List (Nat × Span)) :
    (all cls least).ways ⟨.between front (u ++ back), groups⟩ =
      if least ≤ u.length then [⟨.between (front ++ u) back, groups⟩] else [] := by
  obtain ⟨htake, hdrop⟩ := Cursor.takeWhile_append_stop hu hstop
  rw [ways_all]
  simp only [Cursor.passAll?_between, htake, hdrop]
  split <;> rfl

lemma takes_all {cls : Char → Bool} {least : Nat} (hu : ∀ c ∈ u, cls c = true)
    (hleast : least ≤ u.length) (hstop : ∀ c ∈ back.head?, cls c = false) :
    (all cls least).Takes u back :=
  fun front groups => (ways_all_of_stop hu hstop front groups).trans (if_pos hleast)

/-- One space is all blanks that come next. -/
lemma takes_blanks (hback : ∀ c ∈ back.head?, isBlank c = false) : blanks.Takes [' '] back :=
  takes_all (List.forall_mem_singleton.2 rfl) (by decide) hback

lemma takes_anyBlanks_space (hback : ∀ c ∈ back.head?, isBlank c = false) :
    anyBlanks.Takes [' '] back :=
  takes_all (List.forall_mem_singleton.2 rfl) (Nat.zero_le _) hback

/-- No blank comes next. -/
lemma takes_anyBlanks_nil (hback : ∀ c ∈ back.head?, isBlank c = false) :
    anyBlanks.Takes [] back :=
  takes_all (by simp) (Nat.zero_le _) hback

/-- At least one character of a class is asked for, and none comes next. -/
lemma silentAt_all {cls : Char → Bool} {least : Nat} (h : ∀ c ∈ back.head?, cls c = false) :
    (all cls (least + 1)).SilentAt back :=
  fun front groups => (ways_all_of_stop (u := []) (by simp) h front groups).trans
    (if_neg (Nat.not_succ_le_zero least))

/-- Remembering a part makes no difference to the stretch behind it. -/
lemma SilentAt.group_append_all {cls : Char → Bool} {least : Nat}
    (h : (p ++ all cls least).SilentAt back) (n : Nat) :
    (Pattern.group n p ++ all cls least).SilentAt back := by
  intro front groups
  rw [ways_append_eq_nil_iff]
  intro t ht
  obtain ⟨r, hr, rfl⟩ := mem_ways_group.1 ht
  have hnone := ways_append_eq_nil_iff.1 (h front groups) r hr
  rw [ways_all] at hnone ⊢
  simpa using hnone

lemma first_run {cls : Char → Bool} {least : Nat} (hu : ∀ c ∈ u, cls c = true)
    (hleast : least ≤ u.length) (hstop : ∀ c ∈ back.head?, cls c = false) (front : List Char)
    (groups : List (Nat × Span)) :
    (run cls least).First ⟨.between front (u ++ back), groups⟩
      ⟨.between (front ++ u) back, groups⟩ := by
  obtain ⟨htake, -⟩ := Cursor.takeWhile_append_stop hu hstop
  have hlen : least ≤ ((List.range u.length).map fun i =>
      Cursor.between (front ++ (u ++ back).take i) ((u ++ back).drop i)).length := by
    simpa using hleast
  rw [First, ways_run, List.head?_map, List.head?_reverse, Cursor.stops_between, htake,
    List.range_succ, List.map_append, List.drop_append_of_le_length hlen, List.map_singleton,
    List.getLast?_concat]
  simp

end

/-! ### Conditions on a place -/

lemma first_textStart (text : List Char) (groups : List (Nat × Span)) :
    textStart.First ⟨.between [] text, groups⟩ ⟨.between [] text, groups⟩ :=
  first_of_ways_eq (by simp)

lemma first_wordBoundary {front back : List Char}
    (hfront : touchesWord front.reverse = false) (hback : touchesWord back = true)
    (groups : List (Nat × Span)) :
    wordBoundary.First ⟨.between front back, groups⟩ ⟨.between front back, groups⟩ := by
  refine first_of_ways_eq ?_
  rw [ways_wordBoundary, if_pos]
  rw [Cursor.isWordBoundary, Cursor.before_between, Cursor.after_between, hfront, hback]
  rfl

/-! ### Ways that are taken back -/

/-- The first way of a pattern that lets another one match behind it leads from one state to
another: in front of every earlier way that other pattern matches nowhere. -/
def FirstInFrontOf (q p : Pattern) (s t : Progress) : Prop :=
  ∃ before after, p.ways s = before ++ t :: after ∧ ∀ r ∈ before, q.SilentAt r.place.after

section

variable {p q r : Pattern} {s t u : Progress}

lemma SilentAt.ways_eq_nil (h : p.SilentAt s.place.after) : p.ways s = [] := by
  obtain ⟨place, groups⟩ := s
  rw [place.eq_between]
  exact h _ _

lemma FirstInFrontOf.append (hp : q.FirstInFrontOf p s t) (hq : q.First t u) :
    (p ++ q).First s u := by
  obtain ⟨before, after, hways, hsilent⟩ := hp
  -- the earlier ways all fail at the other pattern and leave nothing behind
  have hnone : before.flatMap (fun r => q.ways r) = [] :=
    List.flatMap_eq_nil_iff.2 fun r hr => (hsilent r hr).ways_eq_nil
  rw [First] at hq ⊢
  obtain ⟨rest, hrest⟩ := List.head?_eq_some_iff.1 hq
  rw [ways_append, hways, List.flatMap_append, hnone, List.nil_append, List.flatMap_cons, hrest]
  rfl

lemma FirstInFrontOf.group (n : Nat) (h : q.FirstInFrontOf p s t) :
    q.FirstInFrontOf (group n p) s { t with groups := (n, ⟨s.place, t.place⟩) :: t.groups } := by
  obtain ⟨before, after, hways, hsilent⟩ := h
  refine ⟨_, _, by rw [ways_group, hways, List.map_append, List.map_cons], fun r hr => ?_⟩
  obtain ⟨r', hr', rfl⟩ := List.mem_map.1 hr
  exact hsilent r' hr'

lemma FirstInFrontOf.of_ways_eq (hr : r.ways s = [t]) (h : q.FirstInFrontOf p t u) :
    q.FirstInFrontOf (r ++ p) s u := by
  obtain ⟨before, after, hways, hsilent⟩ := h
  exact ⟨before, after, by rw [ways_append_of_eq hr, hways], hsilent⟩

end

/-! ### Remembering along the way -/

/-- The first way of a pattern goes over a stretch from one text to the rest of it and remembers
spans, which depend on what stands before the text. -/
structure Reads (p : Pattern) (u text back : List Char) (spans : List Char → List (Nat × Span)) :
    Prop where
  text_eq : text = u ++ back
  first : ∀ front groups, p.First ⟨.between front text, groups⟩
    ⟨.between (front ++ u) back, spans front ++ groups⟩

section

variable {p q : Pattern} {u v text middle back : List Char}
  {spans spans' : List Char → List (Nat × Span)}

lemma Takes.reads (h : p.Takes u back) : p.Reads u (u ++ back) back fun _ => [] := ⟨rfl, h.first⟩

lemma reads_run {cls : Char → Bool} {least : Nat} (hu : ∀ c ∈ u, cls c = true)
    (hleast : least ≤ u.length) (hstop : ∀ c ∈ back.head?, cls c = false) :
    (run cls least).Reads u (u ++ back) back fun _ => [] := ⟨rfl, first_run hu hleast hstop⟩

lemma Reads.append (hp : p.Reads u text middle spans) (hq : q.Reads v middle back spans') :
    (p ++ q).Reads (u ++ v) text back fun front => spans' (front ++ u) ++ spans front where
  text_eq := by rw [hp.text_eq, hq.text_eq, List.append_assoc]
  first front groups := by
    have hboth := (hp.first front groups).append (hq.first (front ++ u) (spans front ++ groups))
    rwa [← List.append_assoc (spans' _), List.append_assoc front] at hboth

lemma Reads.group (n : Nat) (h : p.Reads u text back spans) :
    (Pattern.group n p).Reads u text back fun front => (n, .between front u back) :: spans front where
  text_eq := h.text_eq
  first front groups := by
    have hgroup := (h.first front groups).group n
    rw [h.text_eq] at hgroup ⊢
    exact hgroup

lemma Reads.optional (h : p.Reads u text back spans) :
    (Pattern.optional p).Reads u text back spans :=
  ⟨h.text_eq, fun front groups => (h.first front groups).optional⟩

lemma Reads.either_left (h : p.Reads u text back spans) :
    (Pattern.either p q).Reads u text back spans :=
  ⟨h.text_eq, fun front groups => (h.first front groups).either_left⟩

/-- What is read behind a way that others are taken back for. -/
lemma Reads.append_of_firstInFrontOf (htext : text = u ++ middle)
    (hp : ∀ front groups, q.FirstInFrontOf p ⟨.between front text, groups⟩
      ⟨.between (front ++ u) middle, spans front ++ groups⟩)
    (hq : q.Reads v middle back spans') :
    (p ++ q).Reads (u ++ v) text back fun front => spans' (front ++ u) ++ spans front where
  text_eq := by rw [htext, hq.text_eq, List.append_assoc]
  first front groups := by
    have hboth := (hp front groups).append (hq.first (front ++ u) (spans front ++ groups))
    rwa [← List.append_assoc (spans' _), List.append_assoc front] at hboth

lemma Reads.first_nil (h : p.Reads u text back spans) (front : List Char) :
    p.First ⟨.between front text, []⟩ ⟨.between (front ++ u) back, spans front⟩ := by
  have hfirst := h.first front []
  rwa [List.append_nil] at hfirst

lemma Reads.matchAt? (h : p.Reads u text back spans) (front : List Char) :
    p.matchAt? (.between front text) = some ⟨.between front u back, spans front⟩ := by
  rw [matchAt?_of_first (h.first_nil front), Span.between, h.text_eq]

end

/-! ### Rounds -/

section

/-! Both orders of preference collect the same ways: those of a first round that moves on, with
further rounds behind it, and no round.  They differ in how they join the two. -/

variable {step : Progress → List Progress} {collect : List Char → Progress → List Progress}
  {join : List Progress → Progress → List Progress}
  (hstep : ∀ s, ∀ t ∈ step s, ∃ u, s.place.Passes u t.place)
  (hnil : ∀ s, collect [] s = join [] s)
  (hcons : ∀ c text s, collect (c :: text) s =
    join ((step s).flatMap fun t =>
      if s.place.offset < t.place.offset then collect text t else []) s)

include hstep hnil hcons

/-- At the end of the text no step moves on. -/
lemma collect_at_end (text : List Char) {s : Progress} (h : s.place.after = []) :
    collect text s = join [] s := by
  cases text with
  | nil => exact hnil s
  | cons c text =>
    rw [hcons, List.flatMap_eq_nil_iff.2]
    intro t ht
    obtain ⟨u, hu⟩ := hstep s t ht
    have happend := hu.after_eq
    rw [h] at happend
    have hempty : u = [] := (List.append_eq_nil_iff.1 happend.symm).1
    exact if_neg (by rw [hu.offset_lt_iff, hempty]; simp)

/-- Every round moves on, so more rounds than there are characters left make no difference. -/
lemma collect_congr {text text' : List Char} {s : Progress}
    (h : s.place.after.length ≤ text.length) (h' : s.place.after.length ≤ text'.length) :
    collect text s = collect text' s := by
  induction text generalizing text' s with
  | nil =>
    have hempty : s.place.after = [] := by simpa using h
    rw [collect_at_end hstep hnil hcons [] hempty, collect_at_end hstep hnil hcons text' hempty]
  | cons c text ih =>
    cases text' with
    | nil =>
      have hempty : s.place.after = [] := by simpa using h'
      rw [collect_at_end hstep hnil hcons [] hempty, collect_at_end hstep hnil hcons _ hempty]
    | cons c' text' =>
      rw [hcons, hcons]
      congr 1
      refine List.flatMap_congr fun t ht => ?_
      -- only steps that move on are followed, and they leave fewer characters than rounds
      split
      · next hlt =>
        obtain ⟨u, hu⟩ := hstep s t ht
        have hpos : 0 < u.length := List.length_pos_of_ne_nil (hu.offset_lt_iff.1 hlt)
        have hlength : s.place.after.length = u.length + t.place.after.length := by
          rw [hu.after_eq, List.length_append]
        simp only [List.length_cons] at h h'
        exact ih (by omega) (by omega)
      · rfl

/-- One more round than there are characters left makes the first round visible. -/
lemma collect_eq (s : Progress) :
    collect s.place.after s =
      join ((step s).flatMap fun t =>
        if s.place.offset < t.place.offset then collect t.place.after t else []) s := by
  have hmore : collect s.place.after s = collect (' ' :: s.place.after) s :=
    collect_congr hstep hnil hcons (Nat.le_refl _) (by simp)
  rw [hmore, hcons]
  congr 1
  refine List.flatMap_congr fun t ht => ?_
  split
  · obtain ⟨u, hu⟩ := hstep s t ht
    have hlength : s.place.after.length = u.length + t.place.after.length := by
      rw [hu.after_eq, List.length_append]
    exact collect_congr hstep hnil hcons (by omega) (Nat.le_refl _)
  · rfl

end

/-- Rounds are one round and further rounds, or none. -/
lemma ways_rounds (p : Pattern) (s : Progress) :
    (rounds p .most).ways s =
      (p.ways s).flatMap (fun t =>
        if s.place.offset < t.place.offset then (rounds p .most).ways t else []) ++ [s] :=
  @collect_eq (fun t => p.ways t) (mostWays fun t => p.ways t) (fun more s => more ++ [s])
    (fun _ _ ht => passes_of_mem_ways ht) (fun _ => rfl) (fun _ _ _ => rfl) s

/-- The same with the preferences exchanged. -/
lemma ways_rounds_fewest (p : Pattern) (s : Progress) :
    (rounds p .fewest).ways s =
      s :: (p.ways s).flatMap fun t =>
        if s.place.offset < t.place.offset then (rounds p .fewest).ways t else [] :=
  @collect_eq (fun t => p.ways t) (fewestWays fun t => p.ways t) (fun more s => s :: more)
    (fun _ _ ht => passes_of_mem_ways ht) (fun _ => rfl) (fun _ _ _ => rfl) s

lemma ways_rounds_of_nil {p : Pattern} {s : Progress} (h : p.ways s = []) :
    (rounds p .most).ways s = [s] := by
  rw [ways_rounds, h]
  rfl

/-- With as few rounds as possible, none is the first choice. -/
lemma firstInFrontOf_rounds_none (p q : Pattern) (s : Progress) :
    q.FirstInFrontOf (rounds p .fewest) s s :=
  ⟨[], _, by rw [ways_rounds_fewest]; rfl, by simp⟩

/-- A round is added where the other pattern matches nowhere. -/
lemma FirstInFrontOf.rounds {p q : Pattern} {s t u : Progress} (hp : p.ways s = [t])
    (hlt : s.place.offset < t.place.offset) (hsilent : q.SilentAt s.place.after)
    (h : q.FirstInFrontOf (rounds p .fewest) t u) :
    q.FirstInFrontOf (rounds p .fewest) s u := by
  obtain ⟨before, after, hways, hbefore⟩ := h
  refine ⟨s :: before, after, ?_, List.forall_mem_cons.2 ⟨hsilent, hbefore⟩⟩
  rw [ways_rounds_fewest, hp, List.flatMap_singleton, if_pos hlt, hways]
  rfl

/-- No round is always a way. -/
lemma exists_first_rounds (p : Pattern) (s : Progress) : ∃ t, (rounds p .most).First s t := by
  have hsome : ((rounds p .most).ways s).head?.isSome = true := by
    rw [ways_rounds]
    simp
  exact Option.isSome_iff_exists.1 hsome

lemma First.rounds {p : Pattern} {s t u : Progress} (hp : p.First s t)
    (hlt : s.place.offset < t.place.offset) (h : (rounds p .most).First t u) :
    (rounds p .most).First s u := by
  rw [First] at hp h ⊢
  obtain ⟨more, hmore⟩ := List.head?_eq_some_iff.1 hp
  obtain ⟨rest, hrest⟩ := List.head?_eq_some_iff.1 h
  rw [ways_rounds, hmore, List.flatMap_cons, if_pos hlt, hrest]
  rfl

/-- Rounds end where they begin, or behind a first round and further ones. -/
lemma mem_ways_rounds {p : Pattern} {s t : Progress} (h : t ∈ (rounds p .most).ways s) :
    t = s ∨ ∃ r ∈ p.ways s, t ∈ (rounds p .most).ways r := by
  rw [ways_rounds, List.mem_append, List.mem_flatMap, List.mem_singleton] at h
  rcases h with ⟨r, hr, ht⟩ | rfl
  · split at ht
    · exact Or.inr ⟨r, hr, ht⟩
    · simp at ht
  · exact Or.inl rfl

end Survey.Pattern
