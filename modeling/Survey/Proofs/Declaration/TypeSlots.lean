/-
# Words in the place of a type

The shapes of fields and of methods take the word in front of a name for a type.  They do not ask
where a word begins.  But a search sees a member as soon as it can, and what it found before does not
end inside a word, so the word in the place of the type is a whole word of the text
(`HeadShape.exists_slot_of_mem_findAll`).

A guard refuses words that are no types.  Four keywords that cannot begin a type are not among them,
and each of these is taken for a type wherever it stands in front of a name like one.  The guard is
asked before the name of a constructor becomes its return type, so behind a keyword of visibility
every word can be a return type.
-/
import Survey.Proofs.Declaration.CallPlaces
import Survey.Proofs.Declaration.FieldPlaces
import Survey.Proofs.Declaration.Names

namespace Survey

open Survey.Text Survey.Pattern

variable {front back u v text : List Char} {c : Char} {groups : List (Nat × Span)} {s t : Progress}

/-! ### Where tails end -/

/-- A tail never ends inside a word. -/
def EndsApart (tail : Pattern) : Prop :=
  ∀ s, ∀ t ∈ tail.ways s,
    touchesWord t.place.before = false ∨ touchesWord t.place.after = false

lemma touchesWord_before_of_passes {place place' : Cursor} (h : place.Passes (u ++ [c]) place')
    (hc : isWordChar c = false) : touchesWord place'.before = false := by
  have hfront := h.front_eq
  rw [← List.append_assoc] at hfront
  rw [← List.reverse_reverse place'.before, hfront, List.reverse_concat]
  exact hc

lemma endsApart_fieldTail : EndsApart fieldTail := by
  intro s t ht
  obtain ⟨r, -, hend⟩ := mem_ways_seq.1 ht
  exact Or.inl (touchesWord_before_of_passes (u := []) (mem_ways_word.1 hend).1 (by decide))

/-- The parameters of a method end with their parenthesis, and its thrown types where no word goes
on. -/
lemma endsApart_methodTail : EndsApart methodTail := by
  intro s t ht
  obtain ⟨r₁, -, h₁⟩ := mem_ways_seq.1 ht
  obtain ⟨r₂, -, h₂⟩ := mem_ways_seq.1 h₁
  obtain ⟨r₃, -, h₃⟩ := mem_ways_seq.1 h₂
  obtain ⟨r₄, hclose, hthrows⟩ := mem_ways_seq.1 h₃
  rcases mem_ways_optional.1 hthrows with hthrows | rfl
  · obtain ⟨r₅, -, hgroup⟩ := mem_ways_seq.1 hthrows
    obtain ⟨q, hthrown, rfl⟩ := mem_ways_group.1 hgroup
    obtain ⟨thrown, -, -, -, hstop, -⟩ := mem_ways_all.1 hthrown
    refine Or.inr ?_
    cases hafter : q.place.after with
    | nil => rfl
    | cons c rest =>
      have hc : Shape.isThrowsChar c = false := hstop c (by simp [hafter])
      simp only [Shape.isThrowsChar, Bool.or_eq_false_iff] at hc
      exact hc.1.1.1.1.1
  · exact Or.inl (touchesWord_before_of_passes (u := []) (mem_ways_word.1 hclose).1 (by decide))

lemma facesParenthesis_of_mem_ways (h : t ∈ methodTail.ways s) : FacesParenthesis s.place.after := by
  obtain ⟨r₁, hblanks, h₁⟩ := mem_ways_seq.1 h
  obtain ⟨r₂, hopen, -⟩ := mem_ways_seq.1 h₁
  obtain ⟨gap, hgap, hblank, -⟩ := mem_ways_all.1 hblanks
  refine ⟨gap, r₂.place.after, ?_, hblank⟩
  rw [hgap.after_eq, (mem_ways_word.1 hopen).1.after_eq]
  rfl

/-! ### The word in the place of a type -/

namespace HeadShape

variable {h : HeadShape} {p : Pattern}

/-- A type can be read from a word character in front of it as well. -/
lemma typed_ne_nil_of_cons (hc : isWordChar c = true)
    (ht : t ∈ h.typed.ways ⟨.between (front ++ [c]) back, groups⟩) (groups' : List (Nat × Span)) :
    h.typed.ways ⟨.between front (c :: back), groups'⟩ ≠ [] := by
  obtain ⟨r, htype, hrest⟩ := mem_ways_seq.1 ht
  obtain ⟨q, htyped, rfl⟩ := mem_ways_group.1 htype
  obtain ⟨q₁, hword, hbrackets⟩ := mem_ways_seq.1 htyped
  obtain ⟨w, hpasses, hw, -, hstop, -⟩ := mem_ways_all.1 hword
  have hstep : (Cursor.between front ([c] ++ back)).Passes [c] (.between (front ++ [c]) back) :=
    Cursor.passes_between front [c] back
  have hlonger : (⟨q₁.place, groups'⟩ : Progress) ∈
      name.ways ⟨.between front (c :: back), groups'⟩ :=
    mem_ways_all.2 ⟨[c] ++ w, hstep.trans hpasses, List.forall_mem_cons.2 ⟨hc, hw⟩, by simp,
      hstop, rfl⟩
  -- behind the word the same places are reached
  obtain ⟨q', hbrackets', hplace⟩ := exists_mem_ways_of_place hbrackets ⟨q₁.place, groups'⟩ rfl
  obtain ⟨t', ht', -⟩ := exists_mem_ways_of_place hrest
    ⟨q'.place, (2, ⟨.between front (c :: back), q'.place⟩) :: q'.groups⟩ hplace
  exact List.ne_nil_of_mem (mem_ways_seq.2 ⟨_, mem_ways_group.2
    ⟨q', mem_ways_seq.2 ⟨_, hlonger, hbrackets'⟩, rfl⟩, ht'⟩)

/-- A head needs no keywords. -/
lemma pattern_ne_nil_of_typed (ht : ∀ groups, h.typed.ways ⟨.between front back, groups⟩ ≠ [])
    (groups : List (Nat × Span)) : h.pattern.ways ⟨.between front back, groups⟩ ≠ [] := by
  have hnone : (⟨.between front back, groups⟩ : Progress) ∈
      (Shape.keywords h.keywords).ways ⟨.between front back, groups⟩ := by
    rw [Shape.keywords, ways_rounds]
    exact List.mem_append_right _ (List.mem_singleton_self _)
  obtain ⟨t, ht⟩ := List.exists_mem_of_ne_nil _
    (ht ((1, ⟨.between front back, .between front back⟩) :: groups))
  exact List.ne_nil_of_mem (mem_ways_seq.2 ⟨_, mem_ways_group.2 ⟨_, hnone, rfl⟩, ht⟩)

lemma exists_tail_of_mem_ways (ht : t ∈ h.pattern.ways s) : ∃ r, t ∈ h.tail.ways r := by
  obtain ⟨r₁, -, h₁⟩ := mem_ways_seq.1 ht
  obtain ⟨r₂, -, h₂⟩ := mem_ways_seq.1 h₁
  obtain ⟨r₃, -, h₃⟩ := mem_ways_seq.1 h₂
  obtain ⟨r₄, -, htail⟩ := mem_ways_seq.1 h₃
  exact ⟨r₄, htail⟩

/-- Where a search first sees a head, its type does not begin inside a word. -/
lemma touchesWord_front_of_skips (hways : ∀ s, p.ways s = h.pattern.ways s)
    (hends : EndsApart h.tail) {words : List String} {chain rest : List Char}
    (hskips : p.Skips front u (chain ++ rest)) (hstart : p.SetsOut front (u ++ (chain ++ rest)))
    (hchain : KeywordChain h.keywords words chain) (hrest : touchesWord rest = true)
    (ht : t ∈ h.typed.ways ⟨.between (front ++ u ++ chain) rest, groups⟩) :
    touchesWord (front ++ u ++ chain).reverse = false := by
  by_cases hnil : chain = []
  · subst hnil
    rw [List.append_nil] at ht ⊢
    rcases List.eq_nil_or_concat u with rfl | ⟨u, c, rfl⟩
    · -- the search sets out here, at the start of the text or behind another head
      rw [List.append_nil]
      rcases hstart with rfl | ⟨place, m, hmatch, hstop⟩
      · rfl
      · obtain ⟨t', ht', rfl⟩ := mem_ways_of_matchAt? hmatch
        rw [hways] at ht'
        obtain ⟨r, htail⟩ := exists_tail_of_mem_ways ht'
        have hapart := hends r t' htail
        simp only at hstop
        rw [hstop] at hapart
        exact hapart.resolve_right (by simpa using hrest)
    · -- a head would have been seen from the character in front as well
      by_contra hword
      rw [List.concat_eq_append, ← List.append_assoc] at ht hword
      have hc : isWordChar c = true := by simpa using hword
      rw [List.concat_eq_append] at hskips
      have hnone := hskips.ways_eq_nil (List.cons_ne_nil c [])
      rw [hways] at hnone
      exact pattern_ne_nil_of_typed (typed_ne_nil_of_cons hc ht) [] hnone
  · exact hchain.touchesWord_reverse hnil _

/-- **The place of a type holds a whole word.**  Every head that a search finds has a whole word of
the text for its type, with brackets or without, and behind a gap its name and its tail. -/
lemma exists_slot_of_mem_findAll (hways : ∀ s, p.ways s = h.pattern.ways s)
    (hleast : 1 ≤ p.leastLength) (hends : EndsApart h.tail)
    (hparts : h.tail.parts 2 = [] ∧ h.tail.parts 3 = []) {m : Match} (hm : m ∈ p.findAll text) :
    ∃ q ∈ WordPlace.listAll text, ∃ brackets gap r t,
      m.groupText 2 = q.word ++ brackets ∧ (∀ d ∈ brackets.head?, d = '[' ∨ d = '<') ∧
      q.back = brackets ++ (gap ++ (m.groupText 3 ++ r.place.after)) ∧ IsGap gap ∧
      WordText (m.groupText 3) ∧ t ∈ h.tail.ways r := by
  obtain ⟨front, u, v, rfl, hskips, hmatch, hstart⟩ := exists_skips_of_mem_findAll hleast hm
  obtain ⟨t, ht, hread⟩ := mem_ways_of_matchAt? hmatch
  rw [hways] at ht
  obtain ⟨words, chain, rest, groups, rfl, hchain, htyped⟩ := exists_chain_of_mem_ways ht
  obtain ⟨w, brackets, gap, name, more, r, groups', rfl, hw, hbrackets, hgap, hname, hmore, hgroups,
    htail⟩ := exists_typed_of_mem_ways htyped
  have hfront := touchesWord_front_of_skips hways hends hskips hstart hchain
    (hw.touchesWord_append _) htyped
  have hback : touchesWord (brackets ++ (gap ++ (name ++ more))) = false := by
    cases brackets with
    | nil =>
      obtain ⟨d, gap, rfl, -, hd⟩ := hgap.exists_cons
      exact hd
    | cons d brackets => rcases hbrackets d rfl with rfl | rfl <;> rfl
  have htype : m.groupText 2 = w ++ brackets := by
    rw [hread, Match.groupText, Match.group?, lookup_groups_of_mem_ways htail hparts.1, hgroups]
    exact Span.text_between _ _ _
  have hnamed : m.groupText 3 = name := by
    rw [hread, Match.groupText, Match.group?, lookup_groups_of_mem_ways htail hparts.2, hgroups]
    exact Span.text_between _ _ _
  refine ⟨⟨front ++ u ++ chain, w, brackets ++ (gap ++ (name ++ more))⟩,
    WordPlace.mem_listAll.2 ⟨by simp, hw, hfront, hback⟩, brackets, gap, r, t, htype,
    hbrackets, ?_, hgap, hnamed ▸ hname, htail⟩
  rw [hnamed, hmore]

end HeadShape

/-! ### Members by their slots -/

/-- Behind a word there are a gap and a name, and what is behind the name is of some kind. -/
def StandsBefore (name : List Char) (kind : List Char → Prop) (back : List Char) : Prop :=
  ∃ gap more, back = gap ++ (name ++ more) ∧ IsGap gap ∧ WordText name ∧ kind more

/-- A word in the place of a type stands in front of the name. -/
lemma HeadShape.exists_place_of_slot {h : HeadShape} {p : Pattern}
    (hways : ∀ s, p.ways s = h.pattern.ways s) (hleast : 1 ≤ p.leastLength)
    (hends : EndsApart h.tail) (hparts : h.tail.parts 2 = [] ∧ h.tail.parts 3 = [])
    {kind : List Char → Prop} (hkind : ∀ r, ∀ t ∈ h.tail.ways r, kind r.place.after) {m : Match}
    (hm : m ∈ p.findAll text) (hword : ∀ c ∈ m.groupText 2, isWordChar c = true) :
    ∃ q ∈ WordPlace.listAll text, q.name = String.ofList (m.groupText 2) ∧
      StandsBefore (m.groupText 3) kind q.back := by
  obtain ⟨q, hq, brackets, gap, r, t, htype, hbrackets, hback, hgap, hname, htail⟩ :=
    exists_slot_of_mem_findAll hways hleast hends hparts hm
  have hnil : brackets = [] := by
    cases brackets with
    | nil => rfl
    | cons d brackets =>
      have hd := hword d (by simp [htype])
      rcases hbrackets d rfl with rfl | rfl <;> exact absurd hd (by decide)
  rw [hnil, List.append_nil] at htype
  rw [hnil, List.nil_append] at hback
  exact ⟨q, hq, by rw [htype, WordPlace.name], gap, r.place.after, hback, hgap, hname,
    hkind r t htail⟩

/-- The word of a field's type stands in front of its name, and that in front of its tail. -/
lemma exists_place_of_field {m : Match} (hm : m ∈ Shape.field.findAll text)
    (hword : ∀ c ∈ m.groupText 2, isWordChar c = true) :
    ∃ q ∈ WordPlace.listAll text, q.name = String.ofList (m.groupText 2) ∧
      StandsBefore (m.groupText 3) TailOpens q.back :=
  HeadShape.exists_place_of_slot ways_field (by decide) endsApart_fieldTail ⟨rfl, rfl⟩
    (fun _ _ ht => tailOpens_of_mem_ways ht) hm hword

/-- The word of a method's type stands in front of its name, and that in front of a parenthesis. -/
lemma exists_place_of_method {m : Match} (hm : m ∈ Shape.method.findAll text)
    (hword : ∀ c ∈ m.groupText 2, isWordChar c = true) :
    ∃ q ∈ WordPlace.listAll text, q.name = String.ofList (m.groupText 2) ∧
      StandsBefore (m.groupText 3) FacesParenthesis q.back :=
  HeadShape.exists_place_of_slot ways_method (by decide) endsApart_methodTail ⟨rfl, rfl⟩
    (fun _ _ ht => facesParenthesis_of_mem_ways ht) hm hword

section

variable {type name : String}

/-- The fields of a unit are the matches of their shape whose type is not refused. -/
lemma Field.exists_mem_parseAll_iff :
    (∃ f ∈ parseAll (.ofText text), f.declaredType = type ∧ f.name = name) ↔
      ∃ m ∈ Shape.field.findAll text, Shape.isRejectedType type = false ∧
        String.ofList (m.groupText 2) = type ∧ String.ofList (m.groupText 3) = name := by
  constructor
  · rintro ⟨f, hf, rfl, rfl⟩
    obtain ⟨m, hm, hread⟩ := List.mem_filterMap.1 hf
    rw [ofMatch?] at hread
    split at hread
    · cases hread
    · rename_i hguard
      obtain rfl := Option.some.inj hread
      exact ⟨m, hm, by simpa using hguard, rfl, rfl⟩
  · rintro ⟨m, hm, hguard, rfl, rfl⟩
    obtain ⟨f, hread, htype, hname⟩ : ∃ f, ofMatch? (.ofText text) m = some f ∧
        f.declaredType = String.ofList (m.groupText 2) ∧ f.name = String.ofList (m.groupText 3) :=
      ⟨_, if_neg (by simpa using hguard), rfl, rfl⟩
    exact ⟨f, List.mem_filterMap.2 ⟨m, hm, hread⟩, htype, hname⟩

/-- The methods of a unit are the matches of their shape whose type is not refused; behind a keyword
of visibility the name is the type. -/
lemma Method.exists_mem_parseAll_iff :
    (∃ m ∈ parseAll (.ofText text), m.returnType = type ∧ m.name = name) ↔
      ∃ m ∈ Shape.method.findAll text, String.ofList (m.groupText 3) = name ∧
        (Shape.isRejectedType type = false ∧ type ∉ Shape.visibilityKeywords ∧
            String.ofList (m.groupText 2) = type ∨
          String.ofList (m.groupText 2) ∈ Shape.visibilityKeywords ∧ name = type) := by
  constructor
  · rintro ⟨method, hmethod, rfl, rfl⟩
    obtain ⟨m, hm, hread⟩ := List.mem_filterMap.1 hmethod
    rw [ofMatch?] at hread
    split at hread
    · cases hread
    · rename_i hguard
      obtain rfl := Option.some.inj hread
      refine ⟨m, hm, rfl, ?_⟩
      by_cases hslot : String.ofList (m.groupText 2) ∈ Shape.visibilityKeywords
      · exact Or.inr ⟨hslot, by simp [hslot]⟩
      · exact Or.inl ⟨by simpa [hslot] using hguard, by simp [hslot], by simp [hslot]⟩
  · have hread : ∀ m, Shape.isRejectedType (String.ofList (m.groupText 2)) = false →
        ∃ method, ofMatch? (.ofText text) m = some method ∧
          method.name = String.ofList (m.groupText 3) ∧
          method.returnType = if Shape.visibilityKeywords.contains (String.ofList (m.groupText 2))
            then String.ofList (m.groupText 3) else String.ofList (m.groupText 2) :=
      fun m hguard => ⟨_, if_neg (by simpa using hguard), rfl, rfl⟩
    rintro ⟨m, hm, rfl, ⟨hguard, hslot, rfl⟩ | ⟨hslot, rfl⟩⟩
    · obtain ⟨method, hread, hname, htype⟩ := hread m hguard
      refine ⟨method, List.mem_filterMap.2 ⟨m, hm, hread⟩, ?_, hname⟩
      rw [htype, if_neg (by simpa using hslot)]
    · have hguard : ∀ k ∈ Shape.visibilityKeywords, Shape.isRejectedType k = false := by decide
      obtain ⟨method, hread, hname, htype⟩ := hread m (hguard _ hslot)
      refine ⟨method, List.mem_filterMap.2 ⟨m, hm, hread⟩, ?_, hname⟩
      rw [htype, if_pos (by simpa using hslot)]

end

/-! ### Keywords in the place of a type -/

/-- The keywords of statements and clauses, with which no type begins. -/
def nonTypeKeywords : List String :=
  ["class", "interface", "enum", "new", "return", "throw", "throws", "extends", "implements", "else",
   "do", "case", "package", "import", "goto", "assert", "break", "continue", "instanceof"]

/-- Those of them that the guard of the types does not list. -/
def unguardedTypeKeywords : List String := ["throws", "extends", "implements", "do"]

lemma isRejectedType_eq_false_iff : ∀ k ∈ nonTypeKeywords,
    Shape.isRejectedType k = false ↔ k ∈ unguardedTypeKeywords := by
  decide

lemma nonTypeKeyword_notMem_visibility : ∀ k ∈ nonTypeKeywords, k ∉ Shape.visibilityKeywords := by
  decide

lemma plainWord_of_nonTypeKeywords : ∀ k ∈ nonTypeKeywords, Canonical.PlainWord k.toList :=
  Canonical.plainWord_of_all (by decide)

lemma plainWord_of_visibilityKeywords :
    ∀ k ∈ Shape.visibilityKeywords, Canonical.PlainWord k.toList :=
  Canonical.plainWord_of_all (by decide)

namespace TypeDeclaration

/-- How a word that is no type becomes the type of a member of a unit. -/
structure TypedBy (text : List Char) (d : TypeDeclaration) (k : String) : Prop where
  /-- A field has the word for its type exactly if the guard does not list the word and a match of
  the shape has it in the place of the type. -/
  field_iff : (∃ f ∈ d.fields, f.declaredType = k) ↔
    k ∈ unguardedTypeKeywords ∧
      ∃ m ∈ Shape.field.findAll text, String.ofList (m.groupText 2) = k
  /-- A method has the word for its type exactly in the same case, or if a match has it for its name
  and a keyword of visibility in the place of the type. -/
  method_iff : (∃ m ∈ d.methods, m.returnType = k) ↔
    (k ∈ unguardedTypeKeywords ∧
      ∃ m ∈ Shape.method.findAll text, String.ofList (m.groupText 2) = k) ∨
    ∃ m ∈ Shape.method.findAll text,
      String.ofList (m.groupText 2) ∈ Shape.visibilityKeywords ∧ String.ofList (m.groupText 3) = k
  /-- Such a field comes from a place where the word, as a whole word, stands in front of a name, and
  that in front of a semicolon or an equals sign. -/
  field_place : ∀ f ∈ d.fields, f.declaredType = k →
    ∃ p ∈ WordPlace.listAll text, p.name = k ∧ StandsBefore f.name.toList TailOpens p.back
  /-- Such a method comes from a place where the word stands in front of a name, and that in front of
  a parenthesis, or where a keyword of visibility stands in front of the word in this way. -/
  method_place : ∀ m ∈ d.methods, m.returnType = k →
    ∃ p ∈ WordPlace.listAll text, StandsBefore m.name.toList FacesParenthesis p.back ∧
      (k ∈ unguardedTypeKeywords ∧ p.name = k ∨
        p.name ∈ Shape.visibilityKeywords ∧ m.name = k)

section

variable {text : List Char} {k : String}

lemma exists_field_iff (hk : k ∈ nonTypeKeywords) :
    (∃ f ∈ Field.parseAll (.ofText text), f.declaredType = k) ↔
      k ∈ unguardedTypeKeywords ∧
        ∃ m ∈ Shape.field.findAll text, String.ofList (m.groupText 2) = k := by
  constructor
  · rintro ⟨f, hf, rfl⟩
    obtain ⟨m, hm, hguard, htype, -⟩ := Field.exists_mem_parseAll_iff.1 ⟨f, hf, rfl, rfl⟩
    exact ⟨(isRejectedType_eq_false_iff _ hk).1 hguard, m, hm, htype⟩
  · rintro ⟨hunguarded, m, hm, rfl⟩
    have hguard := (isRejectedType_eq_false_iff _ hk).2 hunguarded
    obtain ⟨f, hf, htype, -⟩ := Field.exists_mem_parseAll_iff.2 ⟨m, hm, hguard, rfl, rfl⟩
    exact ⟨f, hf, htype⟩

lemma exists_method_iff (hk : k ∈ nonTypeKeywords) :
    (∃ m ∈ Method.parseAll (.ofText text), m.returnType = k) ↔
      (k ∈ unguardedTypeKeywords ∧
        ∃ m ∈ Shape.method.findAll text, String.ofList (m.groupText 2) = k) ∨
      ∃ m ∈ Shape.method.findAll text,
        String.ofList (m.groupText 2) ∈ Shape.visibilityKeywords ∧
          String.ofList (m.groupText 3) = k := by
  constructor
  · rintro ⟨method, hmethod, rfl⟩
    obtain ⟨m, hm, hname, ⟨hguard, -, htype⟩ | ⟨hslot, htype⟩⟩ :=
      Method.exists_mem_parseAll_iff.1 ⟨method, hmethod, rfl, rfl⟩
    · exact Or.inl ⟨(isRejectedType_eq_false_iff _ hk).1 hguard, m, hm, htype⟩
    · exact Or.inr ⟨m, hm, hslot, hname.trans htype⟩
  · rintro (⟨hunguarded, m, hm, rfl⟩ | ⟨m, hm, hslot, rfl⟩)
    · have hguard := (isRejectedType_eq_false_iff _ hk).2 hunguarded
      obtain ⟨method, hmethod, htype, -⟩ := Method.exists_mem_parseAll_iff.2
        ⟨m, hm, rfl, Or.inl ⟨hguard, nonTypeKeyword_notMem_visibility _ hk, rfl⟩⟩
      exact ⟨method, hmethod, htype⟩
    · obtain ⟨method, hmethod, htype, -⟩ :=
        Method.exists_mem_parseAll_iff.2 ⟨m, hm, rfl, Or.inr ⟨hslot, rfl⟩⟩
      exact ⟨method, hmethod, htype⟩

lemma exists_place_of_field_type (hk : k ∈ nonTypeKeywords) {f : Field}
    (hf : f ∈ Field.parseAll (.ofText text)) (htype : f.declaredType = k) :
    ∃ p ∈ WordPlace.listAll text, p.name = k ∧ StandsBefore f.name.toList TailOpens p.back := by
  obtain ⟨m, hm, -, rfl, hname⟩ := Field.exists_mem_parseAll_iff.1 ⟨f, hf, htype, rfl⟩
  have hword := (plainWord_of_nonTypeKeywords _ hk).isWordChar
  rw [String.toList_ofList] at hword
  rw [← hname, String.toList_ofList]
  exact exists_place_of_field hm hword

lemma exists_place_of_return_type (hk : k ∈ nonTypeKeywords) {method : Method}
    (hmethod : method ∈ Method.parseAll (.ofText text)) (htype : method.returnType = k) :
    ∃ p ∈ WordPlace.listAll text, StandsBefore method.name.toList FacesParenthesis p.back ∧
      (k ∈ unguardedTypeKeywords ∧ p.name = k ∨
        p.name ∈ Shape.visibilityKeywords ∧ method.name = k) := by
  obtain ⟨m, hm, hname, ⟨hguard, -, rfl⟩ | ⟨hslot, hsame⟩⟩ :=
    Method.exists_mem_parseAll_iff.1 ⟨method, hmethod, htype, rfl⟩
  · have hword := (plainWord_of_nonTypeKeywords _ hk).isWordChar
    rw [String.toList_ofList] at hword
    obtain ⟨p, hp, hslot, hstands⟩ := exists_place_of_method hm hword
    rw [← hname, String.toList_ofList]
    exact ⟨p, hp, hstands, Or.inl ⟨(isRejectedType_eq_false_iff _ hk).1 hguard, hslot⟩⟩
  · have hword := (plainWord_of_visibilityKeywords _ hslot).isWordChar
    rw [String.toList_ofList] at hword
    obtain ⟨p, hp, hname', hstands⟩ := exists_place_of_method hm hword
    refine ⟨p, hp, ?_, Or.inr ⟨hname' ▸ hslot, hsame⟩⟩
    rw [← hname, String.toList_ofList]
    exact hstands

end

variable {source path : String} {d : TypeDeclaration}

/-- **Keywords that are taken for types.**  Of the keywords with which no type begins, a field of a
unit has one for its type exactly if it is one of four, which the guard does not list, and stands in
the place of the type in a match of the shape; it then stands as a whole word in front of the name of
the field.  With methods it is the same, but for those behind a keyword of visibility: there any
such keyword in front of a parenthesis becomes the return type. -/
theorem typedBy_keywords (h : parse source path = .ok d) :
    ∀ k ∈ nonTypeKeywords, d.TypedBy source.toList k := by
  obtain ⟨kind, m, -, -, rfl⟩ := eq_ofMatch_of_parse h
  intro k hk
  exact {
    field_iff := exists_field_iff hk
    method_iff := exists_method_iff hk
    field_place := fun f hf htype => exists_place_of_field_type hk hf htype
    method_place := fun method hmethod htype => exists_place_of_return_type hk hmethod htype }

/-- A unit with a method that has no body and may throw something. -/
def throwsUnit : String := "interface I \x7b\n  void f() throws E;\n\x7d\n"

lemma exists_parse_throwsUnit :
    ∃ d, parse throwsUnit "I.java" = .ok d ∧ d.fields.map Field.declaredType = ["throws"] := by
  have hread : (parse? throwsUnit "I.java").map (fun d => d.fields.map Field.declaredType) =
      some ["throws"] := by
    decide +kernel
  obtain ⟨d, hsome, hfields⟩ := Option.map_eq_some_iff.1 hread
  exact ⟨d, parse?_eq_some_iff.1 hsome, hfields⟩

theorem typedBy_throwsUnit :
    ∃ d, parse throwsUnit "I.java" = .ok d ∧ d.fields.map Field.declaredType = ["throws"] ∧
      ∀ k ∈ nonTypeKeywords, d.TypedBy throwsUnit.toList k := by
  obtain ⟨d, hparse, hfields⟩ := exists_parse_throwsUnit
  exact ⟨d, hparse, hfields, typedBy_keywords hparse⟩

/-- The clause of a method without a body is taken for a field. -/
theorem throws_taken_for_type :
    ¬ ∀ source path d, parse source path = .ok d →
      (∀ f ∈ d.fields, f.declaredType ∉ nonTypeKeywords) ∧
        ∀ m ∈ d.methods, m.returnType ∉ nonTypeKeywords := by
  intro hclaim
  obtain ⟨d, hparse, hfields⟩ := exists_parse_throwsUnit
  have htype : "throws" ∈ d.fields.map Field.declaredType := by simp [hfields]
  obtain ⟨f, hf, hthrows⟩ := List.mem_map.1 htype
  exact (hclaim throwsUnit "I.java" d hparse).1 f hf (hthrows ▸ by decide)

end TypeDeclaration

end Survey
