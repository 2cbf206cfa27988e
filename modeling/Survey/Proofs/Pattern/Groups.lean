/-
# What groups remember

A group of a match remembers a stretch that its own part of the pattern went over.  Hence what is
known of every way of that part holds of the text of the group, whatever stands around it.  For a
group that takes all characters of a class this says that its text is made of such characters
(`forall_mem_groupText`), for every match that a search finds.
-/
import Survey.Proofs.Pattern.Ways

namespace Survey

namespace Pattern

/-! ### Found matches -/

/-- A match at a place comes from a way of the pattern from there. -/
lemma mem_ways_of_matchAt? {p : Pattern} {place : Cursor} {m : Match}
    (h : p.matchAt? place = some m) :
    ∃ s ∈ p.ways ⟨place, []⟩, m = ⟨⟨place, s.place⟩, s.groups⟩ := by
  rw [matchAt?_eq, Option.map_eq_some_iff] at h
  obtain ⟨s, hs, rfl⟩ := h
  exact ⟨s, List.mem_of_mem_head? hs, rfl⟩

lemma passes_of_matchAt? {p : Pattern} {place : Cursor} {m : Match}
    (h : p.matchAt? place = some m) :
    m.whole.start = place ∧ ∃ u, place.Passes u m.whole.stop := by
  obtain ⟨s, hs, rfl⟩ := mem_ways_of_matchAt? h
  exact ⟨rfl, passes_of_mem_ways hs⟩

/-- What a search finds is the match at some place of the text. -/
lemma matchAt?_of_findFrom? {p : Pattern} {place : Cursor} {m : Match}
    (h : p.findFrom? place = some m) :
    ∃ u d, place.Passes u d ∧ p.matchAt? d = some m := by
  suffices hsuff : ∀ back front, p.findBefore? (.between front back) back = some m →
      ∃ u d, (Cursor.between front back).Passes u d ∧ p.matchAt? d = some m by
    rw [findFrom?, place.eq_between] at h
    rw [place.eq_between]
    exact hsuff _ _ h
  intro back
  induction back with
  | nil => exact fun front h => ⟨[], _, Cursor.passes_nil _, h⟩
  | cons c back ih =>
    intro front h
    rw [findBefore?, orElse_eq, Option.or_eq_some_iff, Cursor.pass_between] at h
    rcases h with h | ⟨-, h⟩
    · exact ⟨[], _, Cursor.passes_nil _, h⟩
    · obtain ⟨u, d, hpasses, hmatch⟩ := ih _ h
      have hstep : (Cursor.between front ([c] ++ back)).Passes [c] _ :=
        Cursor.passes_between front [c] back
      exact ⟨[c] ++ u, d, hstep.trans hpasses, hmatch⟩

lemma text_resumeAfter {p : Pattern} {place : Cursor} {m : Match}
    (h : p.matchAt? place = some m) : (resumeAfter m).text = place.text := by
  obtain ⟨-, u, hpasses⟩ := passes_of_matchAt? h
  rw [resumeAfter]
  split
  · exact hpasses.text_eq
  · rw [Cursor.text_next, hpasses.text_eq]

/-- Every match of a search for all matches is the match at some place of the text. -/
lemma matchAt?_of_mem_findAll {p : Pattern} {text : List Char} {m : Match}
    (h : m ∈ p.findAll text) : ∃ place, place.text = text ∧ p.matchAt? place = some m := by
  suffices hsuff : ∀ bound place, m ∈ p.findAllFrom bound place →
      ∃ d, d.text = place.text ∧ p.matchAt? d = some m from hsuff _ _ h
  intro bound
  induction bound with
  | zero => simp [findAllFrom]
  | succ bound ih =>
    intro place h
    rw [findAllFrom] at h
    split at h
    · simp at h
    · rename_i m' hfound
      obtain ⟨u, d, hpasses, hmatch⟩ := matchAt?_of_findFrom? hfound
      rcases List.mem_cons.1 h with rfl | h
      · exact ⟨d, hpasses.text_eq, hmatch⟩
      · obtain ⟨e, htext, he⟩ := ih _ h
        exact ⟨e, by rw [htext, text_resumeAfter hmatch, hpasses.text_eq], he⟩

lemma matchAt?_of_find? {p : Pattern} {text : List Char} {m : Match}
    (h : p.find? text = some m) : ∃ place, place.text = text ∧ p.matchAt? place = some m := by
  obtain ⟨u, d, hpasses, hmatch⟩ := matchAt?_of_findFrom? h
  exact ⟨d, hpasses.text_eq, hmatch⟩

/-! ### The parts that groups remember -/

/-- The parts of a pattern that are remembered under a number. -/
def parts (n : Nat) : Pattern → List Pattern
  | seq first second => first.parts n ++ second.parts n
  | either first second => first.parts n ++ second.parts n
  | optional part => part.parts n
  | rounds part _ => part.parts n
  | group number part => if number = n then part :: part.parts n else part.parts n
  | _ => []

/-- A stretch that a way of some pattern goes over. -/
def GoesOver (p : Pattern) (u : List Char) : Prop :=
  ∃ s t, t ∈ p.ways s ∧ s.place.Passes u t.place

/-- A way adds spans to those that are remembered, and one of the parts with its number went over
each of them. -/
lemma exists_groups_eq_append {p : Pattern} {s t : Progress} (h : t ∈ p.ways s) :
    ∃ added, t.groups = added ++ s.groups ∧
      ∀ g ∈ added, ∃ q ∈ p.parts g.1, q.GoesOver g.2.text := by
  induction p generalizing s t with
  | word text => exact ⟨[], (mem_ways_word.1 h).2, by simp⟩
  | one cls =>
    obtain ⟨c, -, -, hgroups⟩ := mem_ways_one.1 h
    exact ⟨[], hgroups, by simp⟩
  | all cls least =>
    obtain ⟨u, -, -, -, -, hgroups⟩ := mem_ways_all.1 h
    exact ⟨[], hgroups, by simp⟩
  | run cls least =>
    obtain ⟨u, -, -, -, hgroups⟩ := mem_ways_run.1 h
    exact ⟨[], hgroups, by simp⟩
  | seq first second ih₁ ih₂ =>
    obtain ⟨r, hr, ht⟩ := mem_ways_seq.1 h
    obtain ⟨added, hadded, hover⟩ := ih₁ hr
    obtain ⟨added', hadded', hover'⟩ := ih₂ ht
    refine ⟨added' ++ added, by rw [hadded', hadded, List.append_assoc], fun g hg => ?_⟩
    rcases List.mem_append.1 hg with hg | hg
    · exact (hover' g hg).imp fun q hq => ⟨List.mem_append_right _ hq.1, hq.2⟩
    · exact (hover g hg).imp fun q hq => ⟨List.mem_append_left _ hq.1, hq.2⟩
  | either first second ih₁ ih₂ =>
    rcases mem_ways_either.1 h with h | h
    · obtain ⟨added, hadded, hover⟩ := ih₁ h
      exact ⟨added, hadded, fun g hg =>
        (hover g hg).imp fun q hq => ⟨List.mem_append_left _ hq.1, hq.2⟩⟩
    · obtain ⟨added, hadded, hover⟩ := ih₂ h
      exact ⟨added, hadded, fun g hg =>
        (hover g hg).imp fun q hq => ⟨List.mem_append_right _ hq.1, hq.2⟩⟩
  | optional part ih =>
    rcases mem_ways_optional.1 h with h | rfl
    · exact ih h
    · exact ⟨[], rfl, by simp⟩
  | rounds part preference ih =>
    refine holds_of_mem_rounds (P := fun r => ∃ added, r.groups = added ++ s.groups ∧
      ∀ g ∈ added, ∃ q ∈ part.parts g.1, q.GoesOver g.2.text) ?_ ⟨[], rfl, by simp⟩ h
    rintro r ⟨added, hadded, hover⟩ r' hr'
    obtain ⟨added', hadded', hover'⟩ := ih hr'
    exact ⟨added' ++ added, by rw [hadded', hadded, List.append_assoc], fun g hg =>
      (List.mem_append.1 hg).elim (hover' g) (hover g)⟩
  | group number part ih =>
    obtain ⟨r, hr, rfl⟩ := mem_ways_group.1 h
    obtain ⟨added, hadded, hover⟩ := ih hr
    obtain ⟨u, hpasses⟩ := passes_of_mem_ways hr
    refine ⟨(number, ⟨s.place, r.place⟩) :: added, by rw [List.cons_append, hadded], ?_⟩
    refine List.forall_mem_cons.2 ⟨⟨part, by simp [parts], s, r, hr, ?_⟩, fun g hg => ?_⟩
    · rwa [Span.text_of_passes hpasses]
    · refine (hover g hg).imp fun q hq => ⟨?_, hq.2⟩
      rw [parts]
      split
      · exact List.mem_cons_of_mem _ hq.1
      · exact hq.1
  | wordBoundary => exact ⟨[], by rw [(mem_ways_wordBoundary.1 h).2, List.nil_append], by simp⟩
  | textStart => exact ⟨[], by rw [(mem_ways_textStart.1 h).2, List.nil_append], by simp⟩
  | textEnd => exact ⟨[], by rw [(mem_ways_textEnd.1 h).2, List.nil_append], by simp⟩

/-- A span that a state remembers comes from the state before, or one of the parts with its number
went over it. -/
lemma groups_of_mem_ways {p : Pattern} {s t : Progress} (h : t ∈ p.ways s) {n : Nat} {span : Span}
    (hmem : (n, span) ∈ t.groups) :
    (n, span) ∈ s.groups ∨ ∃ q ∈ p.parts n, q.GoesOver span.text := by
  obtain ⟨added, hadded, hover⟩ := exists_groups_eq_append h
  rw [hadded, List.mem_append] at hmem
  exact hmem.symm.imp_right (hover _)

/-- What is remembered once stays remembered. -/
lemma mem_groups_of_mem_ways {p : Pattern} {s t : Progress} (h : t ∈ p.ways s) {g : Nat × Span}
    (hmem : g ∈ s.groups) : g ∈ t.groups := by
  obtain ⟨added, hadded, -⟩ := exists_groups_eq_append h
  rw [hadded]
  exact List.mem_append_right _ hmem

/-- A pattern without parts of a number leaves what is found under it. -/
lemma lookup_groups_of_mem_ways {p : Pattern} {s t : Progress} (h : t ∈ p.ways s) {n : Nat}
    (hparts : p.parts n = []) : t.groups.lookup n = s.groups.lookup n := by
  obtain ⟨added, hadded, hover⟩ := exists_groups_eq_append h
  have hnone : added.lookup n = none := by
    refine List.lookup_eq_none_iff.2 fun g hg => ?_
    rw [bne_iff_ne]
    rintro rfl
    obtain ⟨q, hq, -⟩ := hover g hg
    simp [hparts] at hq
  rw [hadded, List.lookup_append, hnone, Option.none_or]

/-- The text of a group of a match is empty, or one of the parts with its number went over it. -/
lemma goesOver_groupText {p : Pattern} {place : Cursor} {m : Match}
    (h : p.matchAt? place = some m) (n : Nat) :
    m.groupText n = [] ∨ ∃ q ∈ p.parts n, q.GoesOver (m.groupText n) := by
  obtain ⟨s, hs, rfl⟩ := mem_ways_of_matchAt? h
  rw [Match.groupText, Match.group?]
  cases hlookup : s.groups.lookup n with
  | none => exact Or.inl rfl
  | some span =>
    have hmem : (n, span) ∈ s.groups := by
      obtain ⟨l₁, l₂, hgroups, -⟩ := List.lookup_eq_some_iff.1 hlookup
      simp [hgroups]
    rcases groups_of_mem_ways hs hmem with hmem | hover
    · simp at hmem
    · exact Or.inr hover

/-- A part that takes all characters of a class goes over such characters only. -/
lemma forall_mem_of_goesOver_all {cls : Char → Bool} {least : Nat} {u : List Char}
    (h : (all cls least).GoesOver u) : ∀ c ∈ u, cls c = true := by
  obtain ⟨s, t, ht, hpasses⟩ := h
  obtain ⟨v, hpasses', hv, -⟩ := mem_ways_all.1 ht
  have huv : u = v := by
    have := hpasses.after_eq
    rw [hpasses'.after_eq] at this
    exact (List.append_cancel_right this).symm
  exact huv ▸ hv

/-- When every part with a number takes all characters of a class, the text of the group is made of
such characters. -/
theorem forall_mem_groupText {p : Pattern} {place : Cursor} {m : Match} {n : Nat}
    {cls : Char → Bool} {least : Nat} (hparts : p.parts n = [all cls least])
    (h : p.matchAt? place = some m) : ∀ c ∈ m.groupText n, cls c = true := by
  rcases goesOver_groupText h n with hnil | ⟨q, hq, hover⟩
  · simp [hnil]
  · rw [hparts, List.mem_singleton] at hq
    subst hq
    exact forall_mem_of_goesOver_all hover

/-! ### Groups that always take part -/

/-- A lower bound on the number of characters that a pattern goes over. -/
def leastLength : Pattern → Nat
  | word text => text.length
  | one _ => 1
  | all _ least => least
  | run _ least => least
  | seq first second => first.leastLength + second.leastLength
  | either first second => min first.leastLength second.leastLength
  | group _ part => part.leastLength
  | _ => 0

/-- Whether a group with a number takes part in every way of a pattern. -/
def requires (n : Nat) : Pattern → Bool
  | seq first second => first.requires n || second.requires n
  | either first second => first.requires n && second.requires n
  | group number part => number == n || part.requires n
  | _ => false

/-- Every way leaves at least that many characters fewer behind it. -/
lemma leastLength_add_le_of_mem_ways {p : Pattern} {s t : Progress} (h : t ∈ p.ways s) :
    p.leastLength + t.place.after.length ≤ s.place.after.length := by
  induction p generalizing s t with
  | word text =>
    rw [(mem_ways_word.1 h).1.after_eq, List.length_append, leastLength]
  | one cls =>
    obtain ⟨c, -, hpasses, -⟩ := mem_ways_one.1 h
    rw [hpasses.after_eq, List.length_append, leastLength, List.length_singleton]
  | all cls least =>
    obtain ⟨u, hpasses, -, hleast, -⟩ := mem_ways_all.1 h
    rw [hpasses.after_eq, List.length_append, leastLength]
    omega
  | run cls least =>
    obtain ⟨u, hpasses, -, hleast, -⟩ := mem_ways_run.1 h
    rw [hpasses.after_eq, List.length_append, leastLength]
    omega
  | seq first second ih₁ ih₂ =>
    obtain ⟨r, hr, ht⟩ := mem_ways_seq.1 h
    have hfirst := ih₁ hr
    have hsecond := ih₂ ht
    rw [leastLength]
    omega
  | either first second ih₁ ih₂ =>
    rw [leastLength]
    rcases mem_ways_either.1 h with h | h
    · have := ih₁ h
      omega
    · have := ih₂ h
      omega
  | group number part ih =>
    obtain ⟨r, hr, rfl⟩ := mem_ways_group.1 h
    exact ih (t := r) hr
  | optional part _ | rounds part preference _ | wordBoundary | textStart | textEnd =>
    obtain ⟨u, hpasses⟩ := passes_of_mem_ways h
    change 0 + t.place.after.length ≤ s.place.after.length
    rw [hpasses.after_eq, List.length_append]
    omega

lemma leastLength_le_of_goesOver {p : Pattern} {u : List Char} (h : p.GoesOver u) :
    p.leastLength ≤ u.length := by
  obtain ⟨s, t, ht, hpasses⟩ := h
  have hleast := leastLength_add_le_of_mem_ways ht
  rw [hpasses.after_eq, List.length_append] at hleast
  omega

lemma exists_mem_groups_of_requires {p : Pattern} {s t : Progress} (h : t ∈ p.ways s) {n : Nat}
    (hreq : p.requires n = true) : ∃ span, (n, span) ∈ t.groups := by
  induction p generalizing s t with
  | seq first second ih₁ ih₂ =>
    obtain ⟨r, hr, ht⟩ := mem_ways_seq.1 h
    rw [requires, Bool.or_eq_true] at hreq
    rcases hreq with hreq | hreq
    · obtain ⟨span, hspan⟩ := ih₁ hr hreq
      exact ⟨span, mem_groups_of_mem_ways ht hspan⟩
    · exact ih₂ ht hreq
  | either first second ih₁ ih₂ =>
    rw [requires, Bool.and_eq_true] at hreq
    exact (mem_ways_either.1 h).elim (fun h => ih₁ h hreq.1) fun h => ih₂ h hreq.2
  | group number part ih =>
    obtain ⟨r, hr, rfl⟩ := mem_ways_group.1 h
    rw [requires, Bool.or_eq_true, beq_iff_eq] at hreq
    rcases hreq with rfl | hreq
    · exact ⟨_, List.mem_cons_self⟩
    · obtain ⟨span, hspan⟩ := ih hr hreq
      exact ⟨span, List.mem_cons_of_mem _ hspan⟩
  | word _ | one _ | all _ _ | run _ _ | optional _ _ | rounds _ _ _ | wordBoundary | textStart
  | textEnd => exact absurd hreq Bool.false_ne_true

/-- A group that always takes part has the text of one of its parts. -/
theorem goesOver_groupText_of_requires {p : Pattern} {place : Cursor} {m : Match}
    (h : p.matchAt? place = some m) {n : Nat} (hreq : p.requires n = true) :
    ∃ q ∈ p.parts n, q.GoesOver (m.groupText n) := by
  obtain ⟨s, hs, rfl⟩ := mem_ways_of_matchAt? h
  obtain ⟨span, hspan⟩ := exists_mem_groups_of_requires hs hreq
  rw [Match.groupText, Match.group?]
  cases hlookup : s.groups.lookup n with
  | none =>
    have hnone := List.lookup_eq_none_iff.1 hlookup (n, span) hspan
    simp at hnone
  | some found =>
    have hmem : (n, found) ∈ s.groups := by
      obtain ⟨l₁, l₂, hgroups, -⟩ := List.lookup_eq_some_iff.1 hlookup
      simp [hgroups]
    exact (groups_of_mem_ways hs hmem).resolve_left (by simp)

end Pattern

end Survey
