/-
# The ways of a pattern

Matching tries the ways in which a pattern can match one after the other and hands each of them to
what follows.  Here the ways are listed: `p.ways s` are the states that `p` can reach from `s`, the
preferred ones first.  `tryFrom_eq_findSome?_ways` says that matching with a continuation is nothing
but going through that list, so the match at a place is the head of the list, and a pattern fails at
a place exactly when the list is empty.

Two views of the list serve the rest of the development.  Its members say what any match looks
like.  Its head says which match is the preferred one; `First` builds that head along the pattern.
-/
import Survey.Pattern.Search
import Survey.Proofs.Pattern.Cursor

namespace Survey

namespace Pattern

/-! ### Listing the ways -/

/-- The ways of rounds of a step, as many as possible first. -/
def mostWays (step : Progress → List Progress) : List Char → Progress → List Progress
  | [], s => [s]
  | _ :: text, s =>
    (step s).flatMap (fun t =>
      if s.place.offset < t.place.offset then mostWays step text t else []) ++ [s]

/-- The ways of rounds of a step, as few as possible first. -/
def fewestWays (step : Progress → List Progress) : List Char → Progress → List Progress
  | [], s => [s]
  | _ :: text, s =>
    s :: (step s).flatMap (fun t =>
      if s.place.offset < t.place.offset then fewestWays step text t else [])

/-- The states that a pattern can reach from a state, in order of preference. -/
def ways : Pattern → Progress → List Progress
  | word text, s => (s.place.skip? text).toList.map fun place => { s with place }
  | one cls, s =>
    match s.place.after with
    | c :: _ => if cls c then [{ s with place := s.place.next }] else []
    | [] => []
  | all cls least, s => (s.place.passAll? cls least).toList.map fun place => { s with place }
  | run cls least, s => ((s.place.stops cls).drop least).reverse.map fun place => { s with place }
  | seq first second, s => (first.ways s).flatMap fun t => second.ways t
  | either first second, s => first.ways s ++ second.ways s
  | optional part, s => part.ways s ++ [s]
  | rounds part preference, s =>
    match preference with
    | .most => mostWays (fun t => part.ways t) s.place.after s
    | .fewest => fewestWays (fun t => part.ways t) s.place.after s
  | group number part, s =>
    (part.ways s).map fun t => { t with groups := (number, ⟨s.place, t.place⟩) :: t.groups }
  | wordBoundary, s => if s.place.isWordBoundary then [s] else []
  | textStart, s => if s.place.before.isEmpty then [s] else []
  | textEnd, s => if s.place.after.isEmpty then [s] else []

section

variable (s : Progress)

@[simp] lemma ways_word (text : List Char) :
    (word text).ways s = (s.place.skip? text).toList.map fun place => { s with place } := rfl

lemma ways_one (cls : Char → Bool) :
    (one cls).ways s =
      match s.place.after with
      | c :: _ => if cls c then [{ s with place := s.place.next }] else []
      | [] => [] := rfl

@[simp] lemma ways_all (cls : Char → Bool) (least : Nat) :
    (all cls least).ways s =
      (s.place.passAll? cls least).toList.map fun place => { s with place } := rfl

@[simp] lemma ways_run (cls : Char → Bool) (least : Nat) :
    (run cls least).ways s =
      ((s.place.stops cls).drop least).reverse.map fun place => { s with place } := rfl

@[simp] lemma ways_seq (p q : Pattern) :
    (seq p q).ways s = (p.ways s).flatMap fun t => q.ways t := rfl

@[simp] lemma ways_either (p q : Pattern) : (either p q).ways s = p.ways s ++ q.ways s := rfl

@[simp] lemma ways_optional (p : Pattern) : (optional p).ways s = p.ways s ++ [s] := rfl

@[simp] lemma ways_group (number : Nat) (p : Pattern) :
    (group number p).ways s =
      (p.ways s).map fun t => { t with groups := (number, ⟨s.place, t.place⟩) :: t.groups } := rfl

@[simp] lemma ways_wordBoundary :
    wordBoundary.ways s = if s.place.isWordBoundary then [s] else [] := rfl

@[simp] lemma ways_textStart : textStart.ways s = if s.place.before.isEmpty then [s] else [] := rfl

@[simp] lemma ways_textEnd : textEnd.ways s = if s.place.after.isEmpty then [s] else [] := rfl

end

lemma orElse_eq {α : Type} (first : Option α) (second : Unit → Option α) :
    orElse first second = first.or (second ()) := by
  cases first <;> rfl

lemma findSome?_flatMap {α β γ : Type} (l : List α) (f : α → List β) (k : β → Option γ) :
    (l.flatMap f).findSome? k = l.findSome? fun a => (f a).findSome? k := by
  induction l with
  | nil => rfl
  | cons a l ih =>
    rw [List.flatMap_cons, List.findSome?_append, ih, List.findSome?_cons]
    cases (f a).findSome? k <;> rfl

section

variable {α : Type} {step : Progress → (Progress → Option α) → Option α}
  {steps : Progress → List Progress} (k : Progress → Option α)

lemma mostRounds_eq (h : ∀ s k, step s k = (steps s).findSome? k) (text : List Char) (s : Progress) :
    mostRounds step k text s = (mostWays steps text s).findSome? k := by
  induction text generalizing s with
  | nil => simp [mostRounds, mostWays]
  | cons c text ih =>
    simp only [mostRounds, mostWays, orElse_eq, h, List.findSome?_append, findSome?_flatMap,
      List.findSome?_singleton]
    congr 2
    funext t
    split
    · exact ih t
    · rfl

lemma fewestRounds_eq (h : ∀ s k, step s k = (steps s).findSome? k) (text : List Char)
    (s : Progress) : fewestRounds step k text s = (fewestWays steps text s).findSome? k := by
  induction text generalizing s with
  | nil => simp [fewestRounds, fewestWays]
  | cons c text ih =>
    simp only [fewestRounds, fewestWays, orElse_eq, h, List.findSome?_cons, findSome?_flatMap]
    have hrest : (steps s).findSome? (fun t =>
        if s.place.offset < t.place.offset then fewestRounds step k text t else none) =
        (steps s).findSome? fun t =>
          (if s.place.offset < t.place.offset then fewestWays steps text t else []).findSome? k := by
      congr 1
      funext t
      split
      · exact ih t
      · rfl
    rw [hrest]
    cases k s <;> rfl

end

/-- **Matching goes through the ways.**  The answer of a pattern with a continuation is the first
answer that the continuation gives to one of the ways. -/
theorem tryFrom_eq_findSome?_ways {α : Type} (p : Pattern) (s : Progress)
    (k : Progress → Option α) : p.tryFrom s k = (p.ways s).findSome? k := by
  induction p generalizing s k with
  | word text =>
    simp only [tryFrom, ways_word]
    cases s.place.skip? text <;> simp
  | one cls =>
    cases h : s.place.after with
    | nil => simp [tryFrom, ways_one, h]
    | cons c rest => by_cases hc : cls c <;> simp [tryFrom, ways_one, h, hc]
  | all cls least =>
    simp only [tryFrom, ways_all]
    cases s.place.passAll? cls least <;> simp
  | run cls least => simp only [tryFrom, ways_run, List.findSome?_map, Function.comp_def]
  | seq first second ih₁ ih₂ =>
    simp only [tryFrom, ways_seq, ih₁, findSome?_flatMap]
    congr 1
    funext t
    exact ih₂ t k
  | either first second ih₁ ih₂ =>
    simp only [tryFrom, ways_either, orElse_eq, ih₁, ih₂, List.findSome?_append]
  | optional part ih =>
    simp only [tryFrom, ways_optional, orElse_eq, ih, List.findSome?_append, List.findSome?_singleton]
  | rounds part preference ih =>
    cases preference with
    | most => exact mostRounds_eq k (fun s k => ih s k) _ s
    | fewest => exact fewestRounds_eq k (fun s k => ih s k) _ s
  | group number part ih =>
    simp only [tryFrom, ways_group, ih, List.findSome?_map, Function.comp_def]
  | wordBoundary =>
    simp only [tryFrom, ways_wordBoundary]
    split <;> simp
  | textStart =>
    simp only [tryFrom, ways_textStart]
    split <;> simp
  | textEnd =>
    simp only [tryFrom, ways_textEnd]
    split <;> simp

/-- The match at a place is the preferred way from there. -/
theorem matchAt?_eq (p : Pattern) (place : Cursor) :
    p.matchAt? place =
      (p.ways ⟨place, []⟩).head?.map fun s => ⟨⟨place, s.place⟩, s.groups⟩ := by
  rw [matchAt?, tryFrom_eq_findSome?_ways]
  cases p.ways ⟨place, []⟩ <;> simp

/-! ### The ways by the stretch they go over -/

/-- A state is its place and what it remembers. -/
lemma eq_progress {t : Progress} {place : Cursor} {groups : List (Nat × Span)}
    (hplace : t.place = place) (hgroups : t.groups = groups) : t = ⟨place, groups⟩ := by
  subst hplace hgroups
  rfl

section

variable {s t : Progress}

lemma mem_ways_word {text : List Char} :
    t ∈ (word text).ways s ↔ s.place.Passes text t.place ∧ t.groups = s.groups := by
  obtain ⟨place, groups⟩ := s
  obtain ⟨place', groups'⟩ := t
  simp only [ways_word, List.mem_map, Option.mem_toList, Progress.mk.injEq]
  constructor
  · rintro ⟨d, hd, rfl, rfl⟩
    rw [place.eq_between] at hd
    obtain ⟨rest, hafter, rfl⟩ := Cursor.skip?_eq_some_iff.1 hd
    exact ⟨⟨_, rest, hafter ▸ place.eq_between, rfl⟩, rfl⟩
  · rintro ⟨⟨front, back, rfl, rfl⟩, rfl⟩
    exact ⟨_, Cursor.skip?_between text front back, rfl, rfl⟩

lemma mem_ways_one {cls : Char → Bool} :
    t ∈ (one cls).ways s ↔
      ∃ c, cls c = true ∧ s.place.Passes [c] t.place ∧ t.groups = s.groups := by
  obtain ⟨place, groups⟩ := s
  obtain ⟨place', groups'⟩ := t
  constructor
  · intro h
    cases hafter : place.after with
    | nil => simp [ways_one, hafter] at h
    | cons c rest =>
      have hplace : place = .between place.before.reverse (c :: rest) := hafter ▸ place.eq_between
      by_cases hc : cls c
      · simp only [ways_one, hafter, hc, if_true, List.mem_singleton, Progress.mk.injEq] at h
        obtain ⟨rfl, rfl⟩ := h
        refine ⟨c, hc, ⟨_, rest, hplace, ?_⟩, rfl⟩
        rw [hplace]
        simp
      · simp [ways_one, hafter, hc] at h
  · rintro ⟨c, hc, ⟨front, back, rfl, rfl⟩, rfl⟩
    simp [ways_one, hc]

lemma mem_ways_all {cls : Char → Bool} {least : Nat} :
    t ∈ (all cls least).ways s ↔
      ∃ u, s.place.Passes u t.place ∧ (∀ c ∈ u, cls c = true) ∧ least ≤ u.length ∧
        (∀ c ∈ t.place.after.head?, cls c = false) ∧ t.groups = s.groups := by
  obtain ⟨place, groups⟩ := s
  obtain ⟨place', groups'⟩ := t
  simp only [ways_all, List.mem_map, Option.mem_toList, Option.mem_def, Progress.mk.injEq]
  constructor
  · rintro ⟨d, hd, rfl, rfl⟩
    obtain ⟨u, rest, hafter, hu, hstop⟩ := Cursor.exists_stop cls place.after
    obtain ⟨htake, hdrop⟩ := Cursor.takeWhile_append_stop hu hstop
    have hplace : place = .between place.before.reverse (u ++ rest) := hafter ▸ place.eq_between
    rw [hplace, Cursor.passAll?_between, htake, hdrop] at hd
    split at hd
    · next hleast =>
      obtain rfl := Option.some.inj hd
      exact ⟨u, ⟨_, rest, hplace, rfl⟩, hu, hleast, hstop, rfl⟩
    · simp at hd
  · rintro ⟨u, ⟨front, back, rfl, rfl⟩, hu, hleast, hstop, rfl⟩
    obtain ⟨htake, hdrop⟩ := Cursor.takeWhile_append_stop hu hstop
    refine ⟨_, ?_, rfl, rfl⟩
    rw [Cursor.after_between] at htake hdrop
    rw [Cursor.passAll?_between, htake, hdrop, if_pos hleast]

lemma mem_ways_run {cls : Char → Bool} {least : Nat} :
    t ∈ (run cls least).ways s ↔
      ∃ u, s.place.Passes u t.place ∧ (∀ c ∈ u, cls c = true) ∧ least ≤ u.length ∧
        t.groups = s.groups := by
  obtain ⟨place, groups⟩ := s
  obtain ⟨place', groups'⟩ := t
  simp only [ways_run, List.mem_map, List.mem_reverse, Progress.mk.injEq]
  constructor
  · rintro ⟨d, hd, rfl, rfl⟩
    rw [place.eq_between, Cursor.stops_between, ← List.map_drop, List.mem_map] at hd
    obtain ⟨i, hi, rfl⟩ := hd
    rw [List.range_eq_range', List.drop_range', List.mem_range'_1] at hi
    have hlen : i ≤ (place.after.takeWhile cls).length := by omega
    have htake : place.after.take i = (place.after.takeWhile cls).take i := by
      conv_lhs => rw [← List.takeWhile_append_dropWhile (p := cls) (l := place.after)]
      rw [List.take_append_of_le_length hlen]
    refine ⟨place.after.take i, ⟨_, place.after.drop i, ?_, rfl⟩, fun c hc => ?_, ?_, rfl⟩
    · rw [List.take_append_drop]
      exact place.eq_between
    · rw [htake] at hc
      exact List.mem_takeWhile_imp (List.mem_of_mem_take hc)
    · rw [htake, List.length_take]
      omega
  · rintro ⟨u, ⟨front, back, rfl, rfl⟩, hu, hleast, rfl⟩
    refine ⟨_, ?_, rfl, rfl⟩
    rw [Cursor.stops_between, ← List.map_drop, List.mem_map]
    refine ⟨u.length, ?_, by simp⟩
    rw [List.range_eq_range', List.drop_range', List.mem_range'_1,
      List.takeWhile_append_of_pos hu, List.length_append]
    omega

lemma mem_ways_seq {p q : Pattern} : t ∈ (seq p q).ways s ↔ ∃ r ∈ p.ways s, t ∈ q.ways r := by
  simp

lemma mem_ways_either {p q : Pattern} :
    t ∈ (either p q).ways s ↔ t ∈ p.ways s ∨ t ∈ q.ways s := by
  simp

lemma mem_ways_optional {p : Pattern} : t ∈ (optional p).ways s ↔ t ∈ p.ways s ∨ t = s := by
  simp

lemma mem_ways_group {n : Nat} {p : Pattern} :
    t ∈ (group n p).ways s ↔
      ∃ r ∈ p.ways s, t = { r with groups := (n, ⟨s.place, r.place⟩) :: r.groups } := by
  simp [eq_comm]

lemma mem_ways_wordBoundary :
    t ∈ wordBoundary.ways s ↔ s.place.isWordBoundary = true ∧ t = s := by
  rw [ways_wordBoundary]
  split <;> simp_all

lemma mem_ways_textStart : t ∈ textStart.ways s ↔ s.place.before = [] ∧ t = s := by
  rw [ways_textStart]
  split <;> simp_all

lemma mem_ways_textEnd : t ∈ textEnd.ways s ↔ s.place.after = [] ∧ t = s := by
  rw [ways_textEnd]
  split <;> simp_all

end

/-! ### What every way keeps -/

/-- What holds at the start and is kept by every step holds after all rounds. -/
lemma holds_of_mem_mostWays {step : Progress → List Progress} {P : Progress → Prop}
    (hstep : ∀ s, P s → ∀ t ∈ step s, P t) {text : List Char} {s t : Progress} (hs : P s)
    (ht : t ∈ mostWays step text s) : P t := by
  induction text generalizing s with
  | nil =>
    simp only [mostWays, List.mem_singleton] at ht
    exact ht ▸ hs
  | cons c text ih =>
    simp only [mostWays, List.mem_append, List.mem_flatMap, List.mem_singleton] at ht
    rcases ht with ⟨r, hr, ht⟩ | rfl
    · split at ht
      · exact ih (hstep s hs r hr) ht
      · simp at ht
    · exact hs

lemma holds_of_mem_fewestWays {step : Progress → List Progress} {P : Progress → Prop}
    (hstep : ∀ s, P s → ∀ t ∈ step s, P t) {text : List Char} {s t : Progress} (hs : P s)
    (ht : t ∈ fewestWays step text s) : P t := by
  induction text generalizing s with
  | nil =>
    simp only [fewestWays, List.mem_singleton] at ht
    exact ht ▸ hs
  | cons c text ih =>
    simp only [fewestWays, List.mem_cons, List.mem_flatMap] at ht
    rcases ht with rfl | ⟨r, hr, ht⟩
    · exact hs
    · split at ht
      · exact ih (hstep s hs r hr) ht
      · simp at ht

/-- What holds at the start of some rounds and is kept by each of them holds after them. -/
lemma holds_of_mem_rounds {part : Pattern} {preference : Preference} {P : Progress → Prop}
    (hstep : ∀ s, P s → ∀ t ∈ part.ways s, P t) {s t : Progress} (hs : P s)
    (ht : t ∈ (rounds part preference).ways s) : P t := by
  cases preference with
  | most => exact holds_of_mem_mostWays hstep hs ht
  | fewest => exact holds_of_mem_fewestWays hstep hs ht

/-- A way goes forward over a stretch of the text. -/
theorem passes_of_mem_ways {p : Pattern} {s t : Progress} (h : t ∈ p.ways s) :
    ∃ u, s.place.Passes u t.place := by
  induction p generalizing s t with
  | word text => exact ⟨text, (mem_ways_word.1 h).1⟩
  | one cls =>
    obtain ⟨c, -, hpasses, -⟩ := mem_ways_one.1 h
    exact ⟨[c], hpasses⟩
  | all cls least =>
    obtain ⟨u, hpasses, -⟩ := mem_ways_all.1 h
    exact ⟨u, hpasses⟩
  | run cls least =>
    obtain ⟨u, hpasses, -⟩ := mem_ways_run.1 h
    exact ⟨u, hpasses⟩
  | seq first second ih₁ ih₂ =>
    obtain ⟨r, hr, ht⟩ := mem_ways_seq.1 h
    obtain ⟨u, hu⟩ := ih₁ hr
    obtain ⟨v, hv⟩ := ih₂ ht
    exact ⟨u ++ v, hu.trans hv⟩
  | either first second ih₁ ih₂ => exact (mem_ways_either.1 h).elim (fun h => ih₁ h) fun h => ih₂ h
  | optional part ih =>
    rcases mem_ways_optional.1 h with h | rfl
    · exact ih h
    · exact ⟨[], t.place.passes_nil⟩
  | rounds part preference ih =>
    refine holds_of_mem_rounds (P := fun r => ∃ u, s.place.Passes u r.place) ?_
      ⟨[], s.place.passes_nil⟩ h
    rintro r ⟨u, hu⟩ r' hr'
    obtain ⟨v, hv⟩ := ih hr'
    exact ⟨u ++ v, hu.trans hv⟩
  | group number part ih =>
    obtain ⟨r, hr, rfl⟩ := mem_ways_group.1 h
    exact ih (t := r) hr
  | wordBoundary => exact ⟨[], (mem_ways_wordBoundary.1 h).2 ▸ s.place.passes_nil⟩
  | textStart => exact ⟨[], (mem_ways_textStart.1 h).2 ▸ s.place.passes_nil⟩
  | textEnd => exact ⟨[], (mem_ways_textEnd.1 h).2 ▸ s.place.passes_nil⟩

/-! ### The places of the ways -/

/-- The preference has no influence on what rounds reach. -/
lemma mem_fewestWays_iff {step : Progress → List Progress} {text : List Char} {s t : Progress} :
    t ∈ fewestWays step text s ↔ t ∈ mostWays step text s := by
  induction text generalizing s with
  | nil => rfl
  | cons c text ih =>
    simp only [fewestWays, mostWays, List.mem_cons, List.mem_append, List.mem_flatMap,
      List.not_mem_nil, false_or, or_comm (a := t = s)]
    refine or_congr_left (exists_congr fun r => and_congr_right fun _ => ?_)
    split
    · exact ih
    · rfl

/-- From a place a pattern reaches the same places, whatever is remembered. -/
lemma exists_mem_ways_of_place {p : Pattern} {s t : Progress} (h : t ∈ p.ways s) (s' : Progress)
    (hplace : s'.place = s.place) : ∃ t' ∈ p.ways s', t'.place = t.place := by
  induction p generalizing s s' t with
  | word text =>
    obtain ⟨hpasses, -⟩ := mem_ways_word.1 h
    exact ⟨⟨t.place, s'.groups⟩, mem_ways_word.2 ⟨hplace ▸ hpasses, rfl⟩, rfl⟩
  | one cls =>
    obtain ⟨c, hc, hpasses, -⟩ := mem_ways_one.1 h
    exact ⟨⟨t.place, s'.groups⟩, mem_ways_one.2 ⟨c, hc, hplace ▸ hpasses, rfl⟩, rfl⟩
  | all cls least =>
    obtain ⟨u, hpasses, hu, hleast, hstop, -⟩ := mem_ways_all.1 h
    exact ⟨⟨t.place, s'.groups⟩,
      mem_ways_all.2 ⟨u, hplace ▸ hpasses, hu, hleast, hstop, rfl⟩, rfl⟩
  | run cls least =>
    obtain ⟨u, hpasses, hu, hleast, -⟩ := mem_ways_run.1 h
    exact ⟨⟨t.place, s'.groups⟩, mem_ways_run.2 ⟨u, hplace ▸ hpasses, hu, hleast, rfl⟩, rfl⟩
  | seq first second ih₁ ih₂ =>
    obtain ⟨r, hr, ht⟩ := mem_ways_seq.1 h
    obtain ⟨r', hr', hplace'⟩ := ih₁ hr s' hplace
    obtain ⟨t', ht', htplace⟩ := ih₂ ht r' hplace'
    exact ⟨t', mem_ways_seq.2 ⟨r', hr', ht'⟩, htplace⟩
  | either first second ih₁ ih₂ =>
    rcases mem_ways_either.1 h with h | h
    · exact (ih₁ h s' hplace).imp fun t' ht' => ⟨mem_ways_either.2 (Or.inl ht'.1), ht'.2⟩
    · exact (ih₂ h s' hplace).imp fun t' ht' => ⟨mem_ways_either.2 (Or.inr ht'.1), ht'.2⟩
  | optional part ih =>
    rcases mem_ways_optional.1 h with h | rfl
    · exact (ih h s' hplace).imp fun t' ht' => ⟨mem_ways_optional.2 (Or.inl ht'.1), ht'.2⟩
    · exact ⟨s', mem_ways_optional.2 (Or.inr rfl), hplace⟩
  | rounds part preference ih =>
    -- the rounds are followed along the characters that bound their number
    have hmost : ∀ text (s s' : Progress), s'.place = s.place →
        t ∈ mostWays (fun r => part.ways r) text s →
        ∃ t' ∈ mostWays (fun r => part.ways r) text s', t'.place = t.place := by
      intro text
      induction text with
      | nil =>
        intro s s' hplace h
        obtain rfl := List.mem_singleton.1 h
        exact ⟨s', List.mem_singleton_self s', hplace⟩
      | cons c text ihtext =>
        intro s s' hplace h
        simp only [mostWays, List.mem_append, List.mem_flatMap, List.mem_singleton] at h ⊢
        rcases h with ⟨r, hr, ht⟩ | rfl
        · split at ht
          · rename_i hlt
            obtain ⟨r', hr', hplace'⟩ := ih hr s' hplace
            obtain ⟨t', ht', htplace⟩ := ihtext r r' hplace' ht
            refine ⟨t', Or.inl ⟨r', hr', ?_⟩, htplace⟩
            rwa [if_pos (by rwa [hplace, hplace'])]
          · cases ht
        · exact ⟨s', Or.inr rfl, hplace⟩
    cases preference with
    | most =>
      have hways := hmost s.place.after s s' hplace h
      rwa [← hplace] at hways
    | fewest =>
      obtain ⟨t', ht', htplace⟩ := hmost s.place.after s s' hplace (mem_fewestWays_iff.1 h)
      rw [← hplace] at ht'
      exact ⟨t', mem_fewestWays_iff.2 ht', htplace⟩
  | group number part ih =>
    obtain ⟨r, hr, rfl⟩ := mem_ways_group.1 h
    obtain ⟨r', hr', hplace'⟩ := ih hr s' hplace
    exact ⟨_, mem_ways_group.2 ⟨r', hr', rfl⟩, hplace'⟩
  | wordBoundary =>
    obtain ⟨hboundary, rfl⟩ := mem_ways_wordBoundary.1 h
    exact ⟨s', mem_ways_wordBoundary.2 ⟨hplace ▸ hboundary, rfl⟩, hplace⟩
  | textStart =>
    obtain ⟨hbefore, rfl⟩ := mem_ways_textStart.1 h
    exact ⟨s', mem_ways_textStart.2 ⟨hplace ▸ hbefore, rfl⟩, hplace⟩
  | textEnd =>
    obtain ⟨hafter, rfl⟩ := mem_ways_textEnd.1 h
    exact ⟨s', mem_ways_textEnd.2 ⟨hplace ▸ hafter, rfl⟩, hplace⟩

end Pattern

end Survey
