/-
# What a search finds

A search for all matches goes over the text once: it passes over places where the pattern does not
match, and jumps behind every match.  `Finds p front back ms` follows these moves from the place
between two parts of a text, without a bound on their number.  A stretch of text over which a
pattern is silent is passed over, whatever stands before it.
-/
import Survey.Proofs.Pattern.First
import Survey.Proofs.Pattern.Groups

namespace Survey.Pattern

/-! ### Places that are passed over -/

/-- A pattern matches at no place of a stretch in front of a text. -/
def Silent (p : Pattern) : List Char → List Char → Prop
  | [], _ => True
  | c :: u, back => p.SilentAt (c :: (u ++ back)) ∧ p.Silent u back

/-- A pattern matches at no place of a stretch between two parts of a text. -/
def Skips (p : Pattern) : List Char → List Char → List Char → Prop
  | _, [], _ => True
  | front, c :: u, back =>
    p.ways ⟨.between front (c :: (u ++ back)), []⟩ = [] ∧ p.Skips (front ++ [c]) u back

section

variable {p : Pattern} {front u v back : List Char}

lemma Silent.append (hu : p.Silent u (v ++ back)) (hv : p.Silent v back) :
    p.Silent (u ++ v) back := by
  induction u with
  | nil => exact hv
  | cons c u ih =>
    obtain ⟨hc, hu⟩ := hu
    rw [List.cons_append]
    refine ⟨?_, ih hu⟩
    rwa [List.append_assoc]

lemma silent_of_suffixes (h : ∀ v, v <:+ u → v ≠ [] → p.SilentAt (v ++ back)) :
    p.Silent u back := by
  induction u with
  | nil => trivial
  | cons c u ih =>
    exact ⟨h (c :: u) List.suffix_rfl (by simp),
      ih fun v hv hne => h v (hv.trans (List.suffix_cons c u)) hne⟩

/-- Only the ways of a pattern count. -/
lemma Silent.congr {q : Pattern} (hways : ∀ s, q.ways s = p.ways s) (h : p.Silent u back) :
    q.Silent u back := by
  induction u with
  | nil => trivial
  | cons c u ih => exact ⟨fun front groups => (hways _).trans (h.1 front groups), ih h.2⟩

lemma Silent.skips (h : p.Silent u back) (front : List Char) : p.Skips front u back := by
  induction u generalizing front with
  | nil => trivial
  | cons c u ih => exact ⟨h.1 front [], ih h.2 _⟩

lemma skips_of_forall (h : ∀ v w, u = v ++ w → w ≠ [] →
    p.ways ⟨.between (front ++ v) (w ++ back), []⟩ = []) : p.Skips front u back := by
  induction u generalizing front with
  | nil => trivial
  | cons c u ih =>
    refine ⟨by simpa using h [] (c :: u) rfl (by simp), ih fun v w hu hne => ?_⟩
    simpa using h (c :: v) w (by rw [hu]; rfl) hne

lemma Skips.ways_eq_nil (h : p.Skips front (u ++ v) back) (hv : v ≠ []) :
    p.ways ⟨.between (front ++ u) (v ++ back), []⟩ = [] := by
  induction u generalizing front with
  | nil =>
    obtain ⟨c, v, rfl⟩ := List.exists_cons_of_ne_nil hv
    rw [List.append_nil]
    exact h.1
  | cons c u ih =>
    have hrest := ih h.2
    rwa [List.append_assoc] at hrest

/-- A search passes over a text to its end, or up to the first place where the pattern matches. -/
lemma exists_skips (p : Pattern) (front back : List Char) :
    (p.Skips front back [] ∧ p.ways ⟨.between (front ++ back) [], []⟩ = []) ∨
      ∃ u v, back = u ++ v ∧ p.Skips front u v ∧ p.ways ⟨.between (front ++ u) v, []⟩ ≠ [] := by
  induction back generalizing front with
  | nil =>
    by_cases hnil : p.ways ⟨.between (front ++ []) [], []⟩ = []
    · exact Or.inl ⟨trivial, hnil⟩
    · exact Or.inr ⟨[], [], rfl, trivial, hnil⟩
  | cons c back ih =>
    by_cases hnil : p.ways ⟨.between front (c :: back), []⟩ = []
    · rcases ih (front ++ [c]) with ⟨hskips, hend⟩ | ⟨u, v, rfl, hskips, hmatch⟩
      · rw [List.append_assoc] at hend
        exact Or.inl ⟨⟨by rwa [List.append_nil], hskips⟩, hend⟩
      · rw [List.append_assoc] at hmatch
        exact Or.inr ⟨c :: u, v, rfl, ⟨hnil, hskips⟩, hmatch⟩
    · exact Or.inr ⟨[], c :: back, rfl, trivial, by rwa [List.append_nil]⟩

/-- A search begins behind what it passes over. -/
lemma findFrom?_of_skips (h : p.Skips front u back) :
    p.findFrom? (.between front (u ++ back)) = p.findFrom? (.between (front ++ u) back) := by
  induction u generalizing front with
  | nil => simp
  | cons c u ih =>
    obtain ⟨hc, hu⟩ := h
    have hnone := matchAt?_of_ways_eq_nil hc
    have hstep : p.findFrom? (.between front (c :: (u ++ back))) =
        p.findFrom? (.between (front ++ [c]) (u ++ back)) := by
      rw [findFrom?, Cursor.after_between, findBefore?, orElse_eq, hnone, Option.none_or,
        Cursor.pass_between]
      rfl
    rw [List.cons_append, hstep, ih hu]
    simp

lemma findFrom?_of_matchAt? {place : Cursor} {m : Match} (h : p.matchAt? place = some m) :
    p.findFrom? place = some m := by
  rw [findFrom?]
  cases place.after with
  | nil => exact h
  | cons c rest => rw [findBefore?, orElse_eq, h, Option.some_or]

end

/-! ### Matches at the start of a text -/

/-- A pattern matches at the start of a text only. -/
def OnlyAtStart (p : Pattern) : Prop := ∀ s, s.place.before ≠ [] → p.ways s = []

lemma onlyAtStart_textStart : textStart.OnlyAtStart := by
  intro s h
  rw [ways_textStart]
  exact if_neg (by simpa using h)

lemma OnlyAtStart.append {p : Pattern} (h : p.OnlyAtStart) (q : Pattern) : (p ++ q).OnlyAtStart :=
  fun s hs => ways_append_of_nil (h s hs)

/-- What is silent is silent at the start. -/
lemma SilentAt.textStart_append {p : Pattern} (h : p.SilentAt back) :
    (textStart ++ p).SilentAt back := by
  intro front groups
  rw [ways_append_eq_nil_iff]
  intro t ht
  obtain ⟨-, rfl⟩ := mem_ways_textStart.1 ht
  exact h front groups

/-- Such a pattern need not be searched for. -/
lemma OnlyAtStart.find?_eq_matchAt? {p : Pattern} (h : p.OnlyAtStart) (text : List Char) :
    p.find? text = p.matchAt? (.ofText text) := by
  have hnone : ∀ back front, front ≠ [] → p.findBefore? (.between front back) back = none := by
    intro back
    induction back with
    | nil => exact fun front hne => matchAt?_of_ways_eq_nil (h _ (by simpa using hne))
    | cons c back ih =>
      intro front hne
      rw [findBefore?, orElse_eq, matchAt?_of_ways_eq_nil (h _ (by simpa using hne)),
        Option.none_or, Cursor.pass_between, ih _ (by simp)]
  rw [find?, findFrom?, Cursor.ofText_eq_between, Cursor.after_between]
  cases text with
  | nil => rfl
  | cons c text =>
    rw [findBefore?, orElse_eq, Cursor.pass_between, hnone text _ (by simp), Option.or_none]

/-- What a pattern reads is found behind a condition that holds at the start of the text. -/
lemma Reads.find?_behind {g p q : Pattern} {text : List Char}
    {spans : List Char → List (Nat × Span)}
    (hg : g.First ⟨.between [] text, []⟩ ⟨.between [] text, []⟩)
    (hways : ∀ s, q.ways s = (g ++ p).ways s) (h : p.Reads u text back spans) :
    q.find? text = some ⟨.between [] u back, spans []⟩ := by
  have hfirst : q.First ⟨.between [] text, []⟩ ⟨.between ([] ++ u) back, spans []⟩ := by
    rw [First, hways]
    exact hg.append (h.first_nil [])
  refine findFrom?_of_matchAt? ?_
  rw [Cursor.ofText_eq_between, matchAt?_of_first hfirst, Span.between, h.text_eq]

/-! ### All matches -/

/-- The matches that a search finds from the place between two parts of a text on. -/
inductive Finds (p : Pattern) : List Char → List Char → List Match → Prop
  | done {front : List Char} : p.ways ⟨.between front [], []⟩ = [] → Finds p front [] []
  | skip {front u back : List Char} {ms : List Match} : p.Skips front u back →
      Finds p (front ++ u) back ms → Finds p front (u ++ back) ms
  | found {front u back : List Char} {m : Match} {ms : List Match} : u ≠ [] →
      p.matchAt? (.between front (u ++ back)) = some m →
      m.whole.stop = .between (front ++ u) back → Finds p (front ++ u) back ms →
      Finds p front (u ++ back) (m :: ms)

variable {p : Pattern} {front back text : List Char} {ms : List Match}

/-- A search finds the matches, if it may look for more of them than there are characters left. -/
lemma findAllFrom_of_finds (h : Finds p front back ms) {bound : Nat}
    (hbound : back.length < bound) : p.findAllFrom bound (.between front back) = ms := by
  induction h generalizing bound with
  | @done front hnil =>
    obtain ⟨bound, rfl⟩ : ∃ b, bound = b + 1 := ⟨bound - 1, by omega⟩
    have hnone : p.findFrom? (.between front []) = none := matchAt?_of_ways_eq_nil hnil
    rw [findAllFrom, hnone]
  | @skip front u back ms hskips hfinds ih =>
    obtain ⟨bound, rfl⟩ : ∃ b, bound = b + 1 := ⟨bound - 1, by omega⟩
    rw [List.length_append] at hbound
    have hsame : p.findAllFrom (bound + 1) (.between front (u ++ back)) =
        p.findAllFrom (bound + 1) (.between (front ++ u) back) := by
      rw [findAllFrom, findAllFrom, findFrom?_of_skips hskips]
    rw [hsame]
    exact ih (by omega)
  | @found front u back m ms hu hmatch hstop hfinds ih =>
    obtain ⟨bound, rfl⟩ : ∃ b, bound = b + 1 := ⟨bound - 1, by omega⟩
    have hpos := List.length_pos_of_ne_nil hu
    rw [List.length_append] at hbound
    have hstart := (passes_of_matchAt? hmatch).1
    -- the match is not empty, so the search resumes at its end
    have hresume : resumeAfter m = .between (front ++ u) back := by
      have hlt := (Cursor.passes_between front u back).offset_lt_iff.2 hu
      rw [resumeAfter, hstart, hstop, if_pos hlt]
    rw [findAllFrom, findFrom?_of_matchAt? hmatch]
    simp only [hresume]
    rw [ih (by omega)]

theorem findAll_of_finds (h : Finds p [] text ms) : p.findAll text = ms :=
  findAllFrom_of_finds h (Nat.lt_succ_self _)

/-- A pattern that is silent in a text and at its end is not found. -/
lemma findAll_eq_nil (h : p.Silent text []) (hend : p.SilentAt []) : p.findAll text = [] := by
  have hskips := h.skips []
  have hfinds : Finds p [] (text ++ []) [] := .skip hskips (.done (hend _ _))
  rw [List.append_nil] at hfinds
  exact findAll_of_finds hfinds

/-! ### The order of matches -/

lemma start_le_stop {place : Cursor} {m : Match} (h : p.matchAt? place = some m) :
    m.start ≤ m.stop := by
  obtain ⟨hstart, u, hpasses⟩ := passes_of_matchAt? h
  rw [Match.start, hstart, Match.stop, hpasses.offset_eq]
  omega

/-- The search never goes back behind the end of a match. -/
lemma stop_le_resumeAfter (m : Match) : m.stop ≤ (resumeAfter m).offset := by
  rw [resumeAfter]
  split
  · exact Nat.le_refl _
  · have hnext : ∀ c : Cursor, c.offset ≤ c.next.offset := by
      intro c
      rw [Cursor.next]
      split
      · exact Nat.le_refl _
      · exact Nat.le_add_left _ _
    exact hnext _

/-- Every match is found behind the ones that were found before. -/
lemma pairwise_findAllFrom (p : Pattern) (bound : Nat) (place : Cursor) :
    (∀ m ∈ p.findAllFrom bound place, place.offset ≤ m.start) ∧
      (p.findAllFrom bound place).Pairwise fun m m' => m.stop ≤ m'.start := by
  induction bound generalizing place with
  | zero => exact ⟨by simp [findAllFrom], .nil⟩
  | succ bound ih =>
    rw [findAllFrom]
    split
    · exact ⟨by simp, .nil⟩
    · rename_i m hfound
      obtain ⟨hrest, hpairwise⟩ := ih (resumeAfter m)
      obtain ⟨u, d, hpasses, hmatch⟩ := matchAt?_of_findFrom? hfound
      have hstart : m.start = d.offset := by rw [Match.start, (passes_of_matchAt? hmatch).1]
      have hbehind : ∀ m' ∈ p.findAllFrom bound (resumeAfter m), m.stop ≤ m'.start :=
        fun m' hm' => (stop_le_resumeAfter m).trans (hrest m' hm')
      have hplace : place.offset ≤ m.start := by
        rw [hstart, hpasses.offset_eq]
        omega
      refine ⟨List.forall_mem_cons.2 ⟨hplace, fun m' hm' => ?_⟩, .cons hbehind hpairwise⟩
      exact hplace.trans ((start_le_stop hmatch).trans (hbehind m' hm'))

theorem pairwise_findAll (p : Pattern) (text : List Char) :
    (p.findAll text).Pairwise fun m m' => m.stop ≤ m'.start :=
  (pairwise_findAllFrom p _ _).2

/-! ### Where matches begin -/

/-- What a search finds behind a place is the match at the end of what it passes over. -/
lemma exists_skips_of_findFrom? {m : Match} (h : p.findFrom? (.between front back) = some m) :
    ∃ u v, back = u ++ v ∧ p.Skips front u v ∧ p.matchAt? (.between (front ++ u) v) = some m := by
  rcases exists_skips p front back with ⟨hskips, hend⟩ | ⟨u, v, rfl, hskips, hne⟩
  · have hnone := findFrom?_of_skips hskips
    rw [List.append_nil, h] at hnone
    exact absurd (hnone.trans (matchAt?_of_ways_eq_nil hend)) (Option.some_ne_none m)
  · obtain ⟨t, hfirst⟩ := exists_first hne
    have hmatch := matchAt?_of_first hfirst
    rw [findFrom?_of_skips hskips, findFrom?_of_matchAt? hmatch] at h
    exact ⟨u, v, rfl, hskips, h ▸ hmatch⟩

/-- A pattern that goes over some character has no empty match. -/
lemma start_lt_stop (hleast : 1 ≤ p.leastLength) {place : Cursor} {m : Match}
    (h : p.matchAt? place = some m) : m.start < m.stop := by
  obtain ⟨t, ht, rfl⟩ := mem_ways_of_matchAt? h
  obtain ⟨u, hpasses⟩ := passes_of_mem_ways ht
  have hlength := leastLength_add_le_of_mem_ways ht
  refine hpasses.offset_lt_iff.2 ?_
  rintro rfl
  rw [hpasses.after_eq, List.nil_append] at hlength
  omega

/-- A search sets out from the start of a text or from the end of a match. -/
def SetsOut (p : Pattern) (front back : List Char) : Prop :=
  front = [] ∨ ∃ place m, p.matchAt? place = some m ∧ m.whole.stop = .between front back

/-- Every match that a search finds begins behind what the search passes over from where it sets
out. -/
lemma exists_skips_of_mem_findAll (hleast : 1 ≤ p.leastLength) {m : Match} (h : m ∈ p.findAll text) :
    ∃ front u v, text = front ++ (u ++ v) ∧ p.Skips front u v ∧
      p.matchAt? (.between (front ++ u) v) = some m ∧ p.SetsOut front (u ++ v) := by
  suffices hsuff : ∀ bound front back, m ∈ p.findAllFrom bound (.between front back) →
      p.SetsOut front back → ∃ front' u v, front ++ back = front' ++ (u ++ v) ∧
        p.Skips front' u v ∧ p.matchAt? (.between (front' ++ u) v) = some m ∧
        p.SetsOut front' (u ++ v) from hsuff _ [] text h (Or.inl rfl)
  intro bound
  induction bound with
  | zero => exact fun front back h _ => absurd h List.not_mem_nil
  | succ bound ih =>
    intro front back h hfront
    rw [findAllFrom] at h
    split at h
    · cases h
    · rename_i m' hfound
      obtain ⟨u, v, rfl, hskips, hmatch⟩ := exists_skips_of_findFrom? hfound
      rcases List.mem_cons.1 h with rfl | h
      · exact ⟨front, u, v, rfl, hskips, hmatch, hfront⟩
      · obtain ⟨-, w, hpasses⟩ := passes_of_matchAt? hmatch
        obtain ⟨rest, rfl, hstop⟩ := hpasses.exists_rest
        have hresume : resumeAfter m' = .between (front ++ u ++ w) rest :=
          (if_pos (start_lt_stop hleast hmatch)).trans hstop
        rw [hresume] at h
        obtain ⟨front', u', v', htext, hrest⟩ := ih _ _ h (Or.inr ⟨_, m', hmatch, hstop⟩)
        exact ⟨front', u', v', by rw [← htext]; simp, hrest⟩

/-! ### One stretch after the other -/

/-- A search finds the given matches in a stretch between two parts of a text, and goes on behind
the stretch. -/
def FindsIn (p : Pattern) (front u back : List Char) (ms : List Match) : Prop :=
  ∀ more, Finds p (front ++ u) back more → Finds p front (u ++ back) (ms ++ more)

section

variable {u v : List Char} {ms' : List Match} {m : Match}

lemma Skips.findsIn (h : p.Skips front u back) : p.FindsIn front u back [] :=
  fun _ hmore => .skip h hmore

lemma Silent.findsIn (h : p.Silent u back) (front : List Char) : p.FindsIn front u back [] :=
  (h.skips front).findsIn

lemma findsIn_of_matchAt? (hu : u ≠ []) (hmatch : p.matchAt? (.between front (u ++ back)) = some m)
    (hstop : m.whole.stop = .between (front ++ u) back) : p.FindsIn front u back [m] :=
  fun _ hmore => .found hu hmatch hstop hmore

lemma FindsIn.append (h : p.FindsIn front u (v ++ back) ms)
    (h' : p.FindsIn (front ++ u) v back ms') : p.FindsIn front (u ++ v) back (ms ++ ms') := by
  intro more hmore
  rw [← List.append_assoc] at hmore
  rw [List.append_assoc, List.append_assoc]
  exact h _ (h' _ hmore)

/-- What is found in a whole text, when nothing is found at its end. -/
lemma FindsIn.finds (h : p.FindsIn front u [] ms) (hend : p.SilentAt []) : Finds p front u ms := by
  have hfinds := h [] (.done (hend _ _))
  rwa [List.append_nil, List.append_nil] at hfinds

end

end Survey.Pattern
