/-
# Where names are called

A call shows as a whole word that begins with a letter or an underscore and faces an opening
parenthesis, unless it names a created object or is a control keyword.  The shape of calls finds
exactly these words, from left to right.  That is not clear from the shape alone: in front of the
name it may go over the creation of an object, and then it gives characters back until a word is left
for the name.  Two facts settle it.  What the shape goes over holds a single parenthesis, at its end,
so a match never reaches the next word that faces one; and a search resumes behind a parenthesis, so
no creation is cut in two (`exists_finds_call`).
-/
import Survey.Declaration.Calls
import Survey.Proofs.Declaration.TypeKeyword
import Survey.Proofs.Declaration.WordPlaces

namespace Survey

open Survey.Text Survey.Pattern

/-! ### Calls by their surroundings -/

/-- A word begins like a name. -/
def BeginsName (w : List Char) : Prop := ∀ c ∈ w.head?, (isLetter c || c == '_') = true

/-- An opening parenthesis comes next, with blanks in front of it at most. -/
def FacesParenthesis (back : List Char) : Prop :=
  ∃ gap rest, back = gap ++ '(' :: rest ∧ ∀ c ∈ gap, isBlank c = true

/-- Behind the first part of a text a text creates an object: the word `new`, blanks, and then
nothing but characters of dotted names. -/
structure IsCreation (front created : List Char) : Prop where
  front_stops : touchesWord front.reverse = false
  exists_parts : ∃ gap dotted, created = "new".toList ++ (gap ++ dotted) ∧ IsGap gap ∧
    ∀ c ∈ dotted, Shape.isDottedChar c = true

/-- A text ends with the creation of an object, up to the name that stands behind it. -/
def EndsInCreation (front : List Char) : Prop :=
  ∃ before created, front = before ++ created ∧ IsCreation before created

lemma IsCreation.ne_nil {front created : List Char} (h : IsCreation front created) :
    created ≠ [] := by
  obtain ⟨gap, dotted, rfl, -⟩ := h.exists_parts
  simp

namespace WordPlace

/-- A word is a call. -/
def IsCall (p : WordPlace) : Prop :=
  BeginsName p.word ∧ FacesParenthesis p.back ∧ ¬ EndsInCreation p.front ∧
    p.name ∉ Shape.nonCallKeywords

end WordPlace

variable {front back created word gap rest u v : List Char} {c : Char} {t : Progress}

/-! ### Calls can be told by computation -/

lemma isBlank_of_isDottedChar (h : Shape.isDottedChar c = true) : isBlank c = false := by
  rw [Shape.isDottedChar, Bool.or_eq_true, beq_iff_eq] at h
  rcases h with h | rfl
  · exact isBlank_of_isWordChar h
  · decide

lemma facesParenthesis_iff :
    FacesParenthesis back ↔ (back.dropWhile isBlank).head? = some '(' := by
  constructor
  · rintro ⟨gap, rest, rfl, hgap⟩
    rw [(Cursor.takeWhile_append_stop hgap (by simp; decide)).2]
    rfl
  · intro h
    obtain ⟨rest, hrest⟩ := List.head?_eq_some_iff.1 h
    refine ⟨back.takeWhile isBlank, rest, ?_, fun c hc => List.mem_takeWhile_imp hc⟩
    rw [← hrest, List.takeWhile_append_dropWhile]

lemma isWordChar_of_beginsName (h : (isLetter c || c == '_') = true) : isWordChar c = true := by
  refine Canonical.isWordChar_of_identifierChar ?_
  rw [Canonical.isIdentifierChar, Bool.or_right_comm, h, Bool.true_or]

/-- Whether a text ends with the creation of an object, read from its end. -/
def endsInCreation (front : List Char) : Bool :=
  let beforeDotted := front.reverse.dropWhile Shape.isDottedChar
  let beforeGap := beforeDotted.dropWhile isBlank
  beforeDotted.head?.any isBlank && "wen".toList.isPrefixOf beforeGap &&
    !touchesWord (beforeGap.drop 3)

lemma endsInCreation_iff : EndsInCreation front ↔ endsInCreation front = true := by
  constructor
  · rintro ⟨before, created, rfl, hbefore, gap, dotted, rfl, hgap, hdotted⟩
    have hreverse : (before ++ ("new".toList ++ (gap ++ dotted))).reverse =
        dotted.reverse ++ (gap.reverse ++ ("wen".toList ++ before.reverse)) := by
      simp
    obtain ⟨d, more, hlast, hd⟩ : ∃ d more, gap.reverse = d :: more ∧ isBlank d = true := by
      obtain ⟨d, more, hlast⟩ :=
        List.exists_cons_of_ne_nil (l := gap.reverse) (by simp [hgap.ne_nil])
      exact ⟨d, more, hlast, hgap.all_blank d (by rw [← List.mem_reverse, hlast]; simp)⟩
    have hdot : Shape.isDottedChar d = false := by
      by_contra hdot
      rw [isBlank_of_isDottedChar (by simpa using hdot)] at hd
      cases hd
    have hfirst : (dotted.reverse ++ (gap.reverse ++ ("wen".toList ++ before.reverse))).dropWhile
        Shape.isDottedChar = gap.reverse ++ ("wen".toList ++ before.reverse) :=
      (Cursor.takeWhile_append_stop (fun c hc => hdotted c (List.mem_reverse.1 hc))
        (by simpa [hlast] using hdot)).2
    have hsecond : (gap.reverse ++ ("wen".toList ++ before.reverse)).dropWhile isBlank =
        "wen".toList ++ before.reverse :=
      (Cursor.takeWhile_append_stop (fun c hc => hgap.all_blank c (List.mem_reverse.1 hc))
        (by simp; decide)).2
    simp only [endsInCreation, hreverse, hfirst, hsecond]
    simp [hlast, hd, hbefore]
  · intro h
    simp only [endsInCreation, Bool.and_eq_true, Bool.not_eq_true'] at h
    obtain ⟨⟨hblank, hnew⟩, hstops⟩ := h
    obtain ⟨before, hbefore⟩ := List.isPrefixOf_iff_prefix.1 hnew
    rw [← hbefore] at hstops
    generalize hdotted : front.reverse.takeWhile Shape.isDottedChar = dotted
    generalize hafter : front.reverse.dropWhile Shape.isDottedChar = after at *
    have hfront : front.reverse =
        dotted ++ (after.takeWhile isBlank ++ ("wen".toList ++ before)) := by
      rw [hbefore, List.takeWhile_append_dropWhile, ← hdotted, ← hafter,
        List.takeWhile_append_dropWhile]
    refine ⟨before.reverse,
      "new".toList ++ ((after.takeWhile isBlank).reverse ++ dotted.reverse), ?_,
      by simpa using hstops, _, _, rfl, ⟨?_, ?_⟩, ?_⟩
    · rw [← List.reverse_reverse front, hfront]
      simp
    · cases after with
      | nil => simp at hblank
      | cons d after =>
        have hd : isBlank d = true := by simpa using hblank
        simp [hd]
    · intro c hc
      exact List.mem_takeWhile_imp (List.mem_reverse.1 hc)
    · intro c hc
      rw [← hdotted] at hc
      exact List.mem_takeWhile_imp (List.mem_reverse.1 hc)

lemma beginsName_iff :
    BeginsName word ↔ word.head?.all (fun c => isLetter c || c == '_') = true := by
  rw [Option.all_eq_true]
  rfl

instance (w : List Char) : Decidable (BeginsName w) := decidable_of_iff _ beginsName_iff.symm

instance (back : List Char) : Decidable (FacesParenthesis back) :=
  decidable_of_iff _ facesParenthesis_iff.symm

instance (front : List Char) : Decidable (EndsInCreation front) :=
  decidable_of_iff _ endsInCreation_iff.symm

instance (p : WordPlace) : Decidable p.IsCall :=
  inferInstanceAs (Decidable (_ ∧ _ ∧ ¬ _ ∧ _ ∉ _))

/-! ### What the shape of calls goes over -/

/-- The part of the shape of calls that goes over the creation of an object. -/
def creationShape : Pattern :=
  wordBoundary ++ lit "new" ++ blanks ++ run Shape.isDottedChar 0

/-- The part of the shape of calls that goes over a name. -/
def calledShape : Pattern := one (fun c => isLetter c || c == '_') ++ all isWordChar 0

lemma call_eq : Shape.call =
    optional (group 1 creationShape) ++ wordBoundary ++ group 2 calledShape ++ anyBlanks ++
      lit "(" := rfl

/-- From a place on, a text is the creation of an object, if there is one, then a word that begins
like a name, and then blanks, if any. -/
structure CallText (front created word gap : List Char) : Prop where
  created_cases : created = [] ∨ IsCreation front created
  boundary : touchesWord (front ++ created).reverse = false
  isWord : WordText word
  begins : BeginsName word
  blank : ∀ c ∈ gap, isBlank c = true

lemma paren_notMem_of_isCreation (h : IsCreation front created) : '(' ∉ created := by
  obtain ⟨gap, dotted, rfl, hgap, hdotted⟩ := h.exists_parts
  simp only [List.mem_append, not_or]
  refine ⟨by decide, fun hmem => ?_, fun hmem => ?_⟩
  · exact absurd (hgap.all_blank _ hmem) (by decide)
  · exact absurd (hdotted _ hmem) (by decide)

namespace CallText

variable (h : CallText front created word gap)
include h

lemma paren_notMem : '(' ∉ created := by
  rcases h.created_cases with rfl | hcreation
  · exact List.not_mem_nil
  · exact paren_notMem_of_isCreation hcreation

lemma touchesWord_of_suffix {w : List Char} (hsuffix : w <:+ created) (hw : w ≠ []) :
    touchesWord w.reverse = false := by
  obtain ⟨v, rfl⟩ := hsuffix
  have hboundary := h.boundary
  obtain ⟨w, d, rfl⟩ := (List.eq_nil_or_concat w).resolve_left hw
  simpa using hboundary

/-- No word begins between the name and the end of the parenthesis. -/
lemma touchesWord_of_gap {v w : List Char} (hsplit : gap ++ ['('] = v ++ w) (hw : w ≠ [])
    (rest : List Char) : touchesWord (w ++ rest) = false := by
  obtain ⟨c, w, rfl⟩ := List.exists_cons_of_ne_nil hw
  have hc : c ∈ gap ++ ['('] := by simp [hsplit]
  rcases List.mem_append.1 hc with hc | hc
  · exact isWordChar_of_isBlank (h.blank c hc)
  · rw [List.mem_singleton] at hc
    subst hc
    exact (by decide : isWordChar '(' = false)

lemma touchesWord_gap (rest : List Char) : touchesWord (gap ++ '(' :: rest) = false := by
  have hstops := h.touchesWord_of_gap (List.nil_append _).symm (by simp) rest
  rwa [List.append_assoc] at hstops

end CallText

/-- What a match of the shape of calls remembers of a creation. -/
def creationGroup (front created back : List Char) : List (Nat × Span) :=
  if created = [] then [] else [(1, .between front created back)]

lemma isCreation_of_mem_ways {groups : List (Nat × Span)}
    (h : t ∈ creationShape.ways ⟨.between front back, groups⟩) :
    ∃ created rest, back = created ++ rest ∧ IsCreation front created ∧
      t = ⟨.between (front ++ created) rest, groups⟩ := by
  obtain ⟨r₁, h₁, hdotted⟩ := mem_ways_seq.1 h
  obtain ⟨r₂, h₂, hblanks⟩ := mem_ways_seq.1 h₁
  obtain ⟨r₃, hstart, hnew⟩ := mem_ways_seq.1 h₂
  obtain ⟨hboundary, rfl⟩ := mem_ways_wordBoundary.1 hstart
  obtain ⟨hnew, hgroups₂⟩ := mem_ways_word.1 hnew
  obtain ⟨gap, hgap, hblank, hleast, -, hgroups₁⟩ := mem_ways_all.1 hblanks
  obtain ⟨dotted, hpasses, hdots, -, hgroups⟩ := mem_ways_run.1 hdotted
  obtain ⟨rest, hback, hplace⟩ := (hnew.trans (hgap.trans hpasses)).exists_rest
  have hblanks : IsGap gap := ⟨List.ne_nil_of_length_pos hleast, hblank⟩
  refine ⟨_, rest, hback, ⟨?_, gap, dotted, rfl, hblanks, hdots⟩, ?_⟩
  · have hword : touchesWord back = true := by
      rw [hback]
      rfl
    exact (isWordBoundary_of_touchesWord hword).1 hboundary
  · exact eq_progress hplace (by rw [hgroups, hgroups₁, hgroups₂])

lemma mem_ways_creationShape (h : IsCreation front created)
    (hrest : ∀ c ∈ rest.head?, isBlank c = false) (groups : List (Nat × Span)) :
    (⟨.between (front ++ created) rest, groups⟩ : Progress) ∈
      creationShape.ways ⟨.between front (created ++ rest), groups⟩ := by
  obtain ⟨hfront, gap, dotted, rfl, hgap, hdotted⟩ := h
  have hstart : (Cursor.between front ("new".toList ++ (gap ++ (dotted ++ rest)))).isWordBoundary =
      true := (isWordBoundary_of_touchesWord rfl).2 hfront
  have hnext : ∀ c ∈ (dotted ++ rest).head?, isBlank c = false := by
    cases dotted with
    | nil => exact hrest
    | cons d dotted => simpa using isBlank_of_isDottedChar (hdotted d (by simp))
  have hnew := ((takes_lit "new" (gap ++ (dotted ++ rest))).first front groups).mem
  have hblanks := ((hgap.takes_blanks hnext).first (front ++ "new".toList) groups).mem
  have hdots : (⟨.between (front ++ "new".toList ++ gap ++ dotted) rest, groups⟩ : Progress) ∈
      (run Shape.isDottedChar 0).ways
        ⟨.between (front ++ "new".toList ++ gap) (dotted ++ rest), groups⟩ :=
    mem_ways_run.2 ⟨dotted, Cursor.passes_between _ _ _, hdotted, Nat.zero_le _, rfl⟩
  simp only [List.append_assoc] at hnew hblanks hdots ⊢
  exact mem_ways_seq.2 ⟨_, mem_ways_seq.2 ⟨_, mem_ways_seq.2 ⟨_,
    mem_ways_wordBoundary.2 ⟨hstart, rfl⟩, hnew⟩, hblanks⟩, hdots⟩

/-- A word that begins like a name is gone over as a whole. -/
lemma takes_calledShape (hword : WordText word) (hbegins : BeginsName word)
    (hback : touchesWord back = false) : calledShape.Takes word back := by
  obtain ⟨c, w, rfl, -⟩ := hword.exists_cons
  have hc := hbegins c rfl
  have hfirst : (one fun c => isLetter c || c == '_').Takes [c] (w ++ back) := by
    intro front groups
    rw [ways_one]
    simp only [Cursor.after_between, List.singleton_append]
    rw [if_pos hc, Cursor.next_between]
  have hmore : (all isWordChar 0).Takes w back :=
    takes_all (fun d hd => hword.all_wordChar d (List.mem_cons_of_mem _ hd)) (Nat.zero_le _)
      (head_not_wordChar_of_touchesWord hback)
  exact hfirst.append hmore

lemma word_of_mem_ways_calledShape {groups : List (Nat × Span)}
    (h : t ∈ calledShape.ways ⟨.between front back, groups⟩) :
    ∃ word rest, back = word ++ rest ∧ BeginsName word ∧ WordText word ∧
      t = ⟨.between (front ++ word) rest, groups⟩ := by
  obtain ⟨r, hone, hmore⟩ := mem_ways_seq.1 h
  obtain ⟨c, hc, hpasses, hgroups₁⟩ := mem_ways_one.1 hone
  obtain ⟨w, hpasses', hw, -, -, hgroups⟩ := mem_ways_all.1 hmore
  obtain ⟨rest, hback, hplace⟩ := (hpasses.trans hpasses').exists_rest
  have hletter : isWordChar c = true := isWordChar_of_beginsName hc
  refine ⟨[c] ++ w, rest, hback, by simpa [BeginsName] using hc, ⟨by simp, ?_⟩, ?_⟩
  · exact List.forall_mem_cons.2 ⟨hletter, hw⟩
  · exact eq_progress hplace (by rw [hgroups, hgroups₁])

/-- A match of the shape of calls goes over a call text and the parenthesis behind it, and it
remembers the name and the creation. -/
lemma exists_callText_of_mem_ways (h : t ∈ Shape.call.ways ⟨.between front back, []⟩) :
    ∃ created word gap rest, back = created ++ (word ++ (gap ++ '(' :: rest)) ∧
      CallText front created word gap ∧
      t = ⟨.between (front ++ (created ++ (word ++ (gap ++ ['('])))) rest,
        (2, .between (front ++ created) word (gap ++ '(' :: rest)) ::
          creationGroup front created (word ++ (gap ++ '(' :: rest))⟩ := by
  rw [call_eq] at h
  obtain ⟨r₁, h₁, hparen⟩ := mem_ways_seq.1 h
  obtain ⟨r₂, h₂, hblanks⟩ := mem_ways_seq.1 h₁
  obtain ⟨r₃, h₃, hname⟩ := mem_ways_seq.1 h₂
  obtain ⟨r₄, hcreation, hstart⟩ := mem_ways_seq.1 h₃
  obtain ⟨hboundary, rfl⟩ := mem_ways_wordBoundary.1 hstart
  have hcreated : ∃ created behind, back = created ++ behind ∧
      (created = [] ∨ IsCreation front created) ∧
      r₃ = ⟨.between (front ++ created) behind, creationGroup front created behind⟩ := by
    rcases mem_ways_optional.1 hcreation with hcreation | rfl
    · obtain ⟨r, hr, rfl⟩ := mem_ways_group.1 hcreation
      obtain ⟨created, behind, rfl, hcreated, rfl⟩ := isCreation_of_mem_ways hr
      refine ⟨created, behind, rfl, Or.inr hcreated, ?_⟩
      rw [creationGroup, if_neg hcreated.ne_nil]
      rfl
    · exact ⟨[], back, rfl, Or.inl rfl, by simp [creationGroup]⟩
  obtain ⟨created, behind, rfl, hcases, rfl⟩ := hcreated
  obtain ⟨r, hr, rfl⟩ := mem_ways_group.1 hname
  obtain ⟨word, behind, rfl, hbegins, hword, rfl⟩ := word_of_mem_ways_calledShape hr
  obtain ⟨gap, hgap, hblank, -, -, hgroups₁⟩ := mem_ways_all.1 hblanks
  obtain ⟨hparen, hgroups⟩ := mem_ways_word.1 hparen
  obtain ⟨rest, rfl, hplace⟩ := (hgap.trans hparen).exists_rest
  refine ⟨created, word, gap, rest, by simp, ⟨hcases, ?_, hword, hbegins, hblank⟩, ?_⟩
  · exact (isWordBoundary_of_touchesWord (hword.touchesWord_append _)).1 hboundary
  · exact eq_progress (by simpa using hplace) (by rw [hgroups, hgroups₁]; simp [Span.between])

/-- Where a call text stands in front of a parenthesis the shape of calls matches. -/
lemma ways_call_ne_nil (h : CallText front created word gap) (rest : List Char) :
    Shape.call.ways ⟨.between front (created ++ (word ++ (gap ++ '(' :: rest))), []⟩ ≠ [] := by
  have hstops := h.touchesWord_gap rest
  have htouches := h.isWord.touchesWord_append (gap ++ '(' :: rest)
  obtain ⟨groups, hcreated⟩ : ∃ groups,
      (⟨.between (front ++ created) (word ++ (gap ++ '(' :: rest)), groups⟩ : Progress) ∈
        (optional (group 1 creationShape)).ways
          ⟨.between front (created ++ (word ++ (gap ++ '(' :: rest))), []⟩ := by
    rcases h.created_cases with rfl | hcreation
    · exact ⟨[], mem_ways_optional.2 (Or.inr (by simp))⟩
    · have hmem := mem_ways_creationShape hcreation (head_not_blank_of_touchesWord htouches) []
      exact ⟨_, mem_ways_optional.2 (Or.inl (mem_ways_group.2 ⟨_, hmem, rfl⟩))⟩
  have hboundary := (isWordBoundary_of_touchesWord htouches).2 h.boundary
  have hname :=
    ((takes_calledShape h.isWord h.begins hstops).first (front ++ created) groups).mem
  have hblanks : anyBlanks.Takes gap ('(' :: rest) :=
    takes_all h.blank (Nat.zero_le _) (by simp; decide)
  rw [call_eq]
  exact List.ne_nil_of_mem <| mem_ways_seq.2 ⟨_, mem_ways_seq.2 ⟨_, mem_ways_seq.2 ⟨_,
    mem_ways_seq.2 ⟨_, hcreated, mem_ways_wordBoundary.2 ⟨hboundary, rfl⟩⟩,
    mem_ways_group.2 ⟨_, hname, rfl⟩⟩, (hblanks.first _ _).mem⟩,
    ((takes_lit "(" rest).first _ _).mem⟩

/-- A match that goes over a call text names its word, unless that is created or a keyword. -/
lemma calledName?_eq {m : Match} {behind : List Char}
    (h : m.groups = (2, .between (front ++ created) word back) ::
      creationGroup front created behind) :
    calledName? m = if created = [] ∧ String.ofList word ∉ Shape.nonCallKeywords then
      some (String.ofList word) else none := by
  have hname : m.groupText 2 = word := by
    rw [Match.groupText, Match.group?, h]
    exact Span.text_between _ _ _
  have hcreation : (m.group? 1).isSome = !decide (created = []) := by
    rw [Match.group?, h, creationGroup]
    by_cases hnil : created = [] <;> simp [hnil, List.lookup_cons]
  rw [calledName?, hname, hcreation]
  by_cases hnil : created = [] <;> by_cases hmem : String.ofList word ∈ Shape.nonCallKeywords <;>
    simp [hnil, hmem]

/-! ### Where no call begins -/

variable {p : WordPlace}

/-- Two texts without a mark in front of the mark are one text. -/
lemma append_cancel_of_notMem {mark : Char} {w w' : List Char} (h : mark ∉ w) (h' : mark ∉ w')
    (heq : w ++ mark :: u = w' ++ mark :: v) : w = w' := by
  have hcut := splitFirst?_eq_some_iff.2 ⟨heq, h'⟩
  rw [splitFirst?_eq_some_iff.2 ⟨rfl, h⟩] at hcut
  exact congrArg Prod.fst (Option.some.inj hcut)

/-- Where the shape of calls does not match, no call begins. -/
lemma not_isCall_of_ways_eq_nil (hways : Shape.call.ways ⟨.between front back, []⟩ = [])
    (hp : WordPlace.between? front back = some p) : decide p.IsCall = false := by
  obtain ⟨rfl, rfl, hwhole⟩ := WordPlace.between?_eq_some_iff.1 hp
  refine decide_eq_false fun hcall => ?_
  obtain ⟨hbegins, ⟨gap, rest, hback, hgap⟩, -⟩ := hcall
  have htext : CallText p.front [] p.word gap :=
    ⟨Or.inl rfl, by rw [List.append_nil]; exact hwhole.front_stops, hwhole.isWord, hbegins, hgap⟩
  rw [hback] at hways
  exact ways_call_ne_nil htext rest hways

/-- In front of a word that faces a parenthesis no other word faces it. -/
lemma not_isCall_in_front (hu : u ≠ []) (hparen : '(' ∉ u) (hstops : touchesWord u.reverse = false)
    (hword : WordText word) (hgap : ∀ c ∈ gap, isBlank c = true)
    (hp : WordPlace.between? front (u ++ (word ++ (gap ++ '(' :: rest))) = some p) :
    decide p.IsCall = false := by
  obtain ⟨-, htext, hwhole⟩ := WordPlace.between?_eq_some_iff.1 hp
  refine decide_eq_false fun hcall => ?_
  obtain ⟨-, ⟨gap', rest', hback, hgap'⟩, -⟩ := hcall
  have hnone : ∀ {w g : List Char}, WordText w → (∀ c ∈ g, isBlank c = true) → '(' ∉ w ++ g := by
    intro w g hw hg hmem
    rcases List.mem_append.1 hmem with hmem | hmem
    · exact absurd (hw.all_wordChar _ hmem) (by decide)
    · exact absurd (hg _ hmem) (by decide)
  -- both texts reach to the same parenthesis
  have hsame : u ++ (word ++ gap) = p.word ++ gap' := by
    have htext' : (u ++ (word ++ gap)) ++ '(' :: rest = (p.word ++ gap') ++ '(' :: rest' := by
      rw [hback] at htext
      simpa using htext
    refine append_cancel_of_notMem ?_ (hnone hwhole.isWord hgap') htext'
    rw [List.mem_append, not_or]
    exact ⟨hparen, hnone hword hgap⟩
  -- so the other word ends in front of this one, and blanks would have to reach over it
  obtain ⟨u, d, rfl⟩ := (List.eq_nil_or_concat u).resolve_left hu
  obtain ⟨c, w, rfl, hc⟩ := hword.exists_cons
  rcases List.append_eq_append_iff.1 hsame with ⟨a, hfirst, -⟩ | ⟨a, -, hsecond⟩
  · have hd : isWordChar d = true := hwhole.isWord.all_wordChar d (by simp [hfirst])
    rw [List.concat_eq_append, List.reverse_concat, touchesWord_cons, hd] at hstops
    cases hstops
  · have hblank := hgap' c (by simp [hsecond])
    rw [isBlank_of_isWordChar hc] at hblank
    cases hblank

/-- A creation lies behind the parenthesis at which the search resumed. -/
lemma exists_creation_behind {before : List Char} (hfront : front = [] ∨ front.getLast? = some '(')
    (hsplit : front ++ u = before ++ created) (h : IsCreation before created) :
    ∃ a, u = a ++ created ∧ before = front ++ a := by
  rcases List.append_eq_append_iff.1 hsplit with ⟨a, hbefore, hu⟩ | ⟨a, rfl, hcreated⟩
  · exact ⟨a, hu, hbefore⟩
  · rcases List.eq_nil_or_concat a with rfl | ⟨a, c, rfl⟩
    · exact ⟨[], hcreated.symm, by simp⟩
    · rw [List.concat_eq_append, ← List.append_assoc, List.getLast?_concat] at hfront
      have hc : c = '(' := by simpa using hfront
      refine absurd ?_ (paren_notMem_of_isCreation h)
      simp [hcreated, hc]

/-! ### The calls of a text -/

/-- At the first place where the shape of calls matches, its match names the word that it goes over
exactly if that word is a call. -/
lemma isCall_iff (hfront : front = [] ∨ front.getLast? = some '(')
    (hskips : Shape.call.Skips front u (created ++ (word ++ (gap ++ '(' :: rest))))
    (h : CallText (front ++ u) created word gap) :
    (WordPlace.mk (front ++ u ++ created) word (gap ++ '(' :: rest)).IsCall ↔
      created = [] ∧ String.ofList word ∉ Shape.nonCallKeywords := by
  have hfaces : FacesParenthesis (gap ++ '(' :: rest) := ⟨gap, rest, rfl, h.blank⟩
  have hcreation : EndsInCreation (front ++ u ++ created) ↔ created ≠ [] := by
    constructor
    · rintro ⟨before, created', hsplit, hcreation⟩ rfl
      rw [List.append_nil] at hsplit
      obtain ⟨a, rfl, rfl⟩ := exists_creation_behind hfront hsplit hcreation
      -- a match would begin at the creation, in front of the first one
      refine ways_call_ne_nil ⟨Or.inr hcreation, ?_, h.isWord, h.begins, h.blank⟩ rest
        (hskips.ways_eq_nil hcreation.ne_nil)
      have hboundary := h.boundary
      rwa [List.append_nil, ← List.append_assoc] at hboundary
    · intro hne
      exact ⟨front ++ u, created, rfl, h.created_cases.resolve_left hne⟩
  rw [WordPlace.IsCall, hcreation]
  simp [h.begins, hfaces, WordPlace.name]

/-- Up to the end of the first match of the shape of calls no call begins but the word that the match
goes over. -/
lemma filter_listFrom_callText (hfront : front = [] ∨ front.getLast? = some '(')
    (hskips : Shape.call.Skips front u (created ++ (word ++ (gap ++ '(' :: rest))))
    (h : CallText (front ++ u) created word gap) :
    (WordPlace.listFrom front (u ++ (created ++ (word ++ (gap ++ '(' :: rest))))).filter (·.IsCall) =
      (if created = [] ∧ String.ofList word ∉ Shape.nonCallKeywords then
        [.mk (front ++ u ++ created) word (gap ++ '(' :: rest)] else []) ++
      (WordPlace.listFrom (front ++ u ++ (created ++ (word ++ (gap ++ ['('])))) rest).filter
        (·.IsCall) := by
  -- the parts of the stretch: what is passed over, the creation, the word, and its parenthesis
  have hskipped := WordPlace.filter_listFrom_append (·.IsCall) front u
    (created ++ (word ++ (gap ++ '(' :: rest)))
    fun v w hsplit hw q hq => not_isCall_of_ways_eq_nil ((hsplit ▸ hskips).ways_eq_nil hw) hq
  have hcreated := WordPlace.filter_listFrom_append (·.IsCall) (front ++ u) created
    (word ++ (gap ++ '(' :: rest)) fun v w hsplit hw q hq => by
      have hsuffix : w <:+ created := ⟨v, hsplit.symm⟩
      exact not_isCall_in_front hw (fun hmem => h.paren_notMem (hsuffix.subset hmem))
        (h.touchesWord_of_suffix hsuffix hw) h.isWord h.blank hq
  have hword := WordPlace.listFrom_append_of_isWhole
    (p := ⟨front ++ u ++ created, word, gap ++ '(' :: rest⟩)
    ⟨h.isWord, h.boundary, h.touchesWord_gap rest⟩
  have hgap := WordPlace.filter_listFrom_append (·.IsCall) (front ++ u ++ created ++ word)
    (gap ++ ['(']) rest fun v w hsplit hw q hq => by
      rw [WordPlace.between?_of_not_touchesWord (h.touchesWord_of_gap hsplit hw rest)] at hq
      cases hq
  have hcall := isCall_iff hfront hskips h
  have hbehind : front ++ u ++ created ++ word ++ (gap ++ ['(']) =
      front ++ u ++ (created ++ (word ++ (gap ++ ['(']))) := by simp
  rw [hbehind, List.append_assoc gap, List.singleton_append] at hgap
  rw [hskipped, hcreated, hword, List.filter_cons, hgap]
  by_cases hcalled : created = [] ∧ String.ofList word ∉ Shape.nonCallKeywords
  · rw [if_pos (decide_eq_true (hcall.2 hcalled)), if_pos hcalled, List.singleton_append]
  · rw [if_neg (by simpa using mt hcall.1 hcalled), if_neg hcalled, List.nil_append]

/-- **The shape of calls finds the calls.**  Behind a parenthesis, or from the start of the text on,
its matches name exactly the words that are calls, from left to right. -/
lemma exists_finds_call (front back : List Char)
    (hfront : front = [] ∨ front.getLast? = some '(') :
    ∃ ms, Finds Shape.call front back ms ∧ ms.filterMap calledName? =
      ((WordPlace.listFrom front back).filter (·.IsCall)).map WordPlace.name := by
  induction hlength : back.length using Nat.strong_induction_on generalizing front back with
  | h n ih =>
    rcases exists_skips Shape.call front back with ⟨hskips, hend⟩ | ⟨u, v, rfl, hskips, hne⟩
    · -- nothing is found up to the end of the text
      have hfinds : Finds Shape.call front (back ++ []) [] := .skip hskips (.done hend)
      have hnone := WordPlace.filter_listFrom_append (·.IsCall) front back []
        fun u v hback hv p hp => not_isCall_of_ways_eq_nil ((hback ▸ hskips).ways_eq_nil hv) hp
      rw [List.append_nil] at hfinds hnone
      exact ⟨[], hfinds, by rw [hnone]; rfl⟩
    · -- the search resumes behind the parenthesis of the match, so the claim holds from there on
      obtain ⟨t, hfirst⟩ := exists_first hne
      obtain ⟨created, word, gap, rest, rfl, htext, rfl⟩ := exists_callText_of_mem_ways hfirst.mem
      obtain ⟨ms, hfinds, hnames⟩ := ih rest.length (by simp at hlength; omega)
        (front ++ u ++ (created ++ (word ++ (gap ++ ['('])))) rest (Or.inr (by simp)) rfl
      have hstretch : created ++ (word ++ (gap ++ '(' :: rest)) =
          created ++ (word ++ (gap ++ ['('])) ++ rest := by simp
      obtain ⟨m, hmatch, hstop, hgroups⟩ : ∃ m, Shape.call.matchAt? (.between (front ++ u)
          (created ++ (word ++ (gap ++ ['('])) ++ rest)) = some m ∧
          m.whole.stop = .between (front ++ u ++ (created ++ (word ++ (gap ++ ['('])))) rest ∧
          m.groups = (2, .between (front ++ u ++ created) word (gap ++ '(' :: rest)) ::
            creationGroup (front ++ u) created (word ++ (gap ++ '(' :: rest)) :=
        ⟨_, hstretch ▸ matchAt?_of_first hfirst, rfl, rfl⟩
      refine ⟨m :: ms, .skip hskips ?_, ?_⟩
      · rw [hstretch]
        exact .found (by simp) hmatch hstop hfinds
      · rw [filter_listFrom_callText hfront hskips htext, List.map_append, ← hnames,
          List.filterMap_cons, calledName?_eq hgroups]
        by_cases hcalled : created = [] ∧ String.ofList word ∉ Shape.nonCallKeywords
        · rw [if_pos hcalled, if_pos hcalled]
          rfl
        · rw [if_neg hcalled, if_neg hcalled]
          rfl

/-- The calls of a text, from left to right. -/
def callPlaces (text : List Char) : List WordPlace := (WordPlace.listAll text).filter (·.IsCall)

lemma mem_callPlaces {text : List Char} :
    p ∈ callPlaces text ↔ p ∈ WordPlace.listAll text ∧ p.IsCall := by
  rw [callPlaces, List.mem_filter, decide_eq_true_iff]

/-- The called names are the names of the calls, without repetitions. -/
lemma calledNames_eq (text : List Char) :
    calledNames text = distinct ((callPlaces text).map WordPlace.name) := by
  obtain ⟨ms, hfinds, hnames⟩ := exists_finds_call [] text (Or.inl rfl)
  rw [calledNames, findAll_of_finds hfinds, hnames]
  rfl

/-- **The called names of a text.**  The words of a text are all listed, from left to right.  Of
these the called names keep the words that begin like a name and face a parenthesis, that no creation
ends in front of, and that are no control keyword; they keep their order, and every name stands where
it is called first, and only there. -/
theorem calledNames_eq_words (text : List Char) :
    (∀ p, p ∈ WordPlace.listAll text ↔ text = p.front ++ (p.word ++ p.back) ∧ p.IsWhole) ∧
    ((WordPlace.listAll text).Pairwise fun p q => p.front.length < q.front.length) ∧
    calledNames text = (((WordPlace.listAll text).filter (·.IsCall)).map WordPlace.name).eraseDups ∧
    (calledNames text).Nodup := by
  refine ⟨fun p => WordPlace.mem_listAll, WordPlace.pairwise_listAll text, ?_, ?_⟩
  · rw [calledNames_eq, distinct_eq_eraseDups]
    rfl
  · rw [calledNames_eq]
    exact nodup_distinct _

example : (callPlaces "new a.B(c(), new D()).c (if (e))".toList).map WordPlace.name = ["c", "c"] := by
  decide +kernel

end Survey
