/-
# Where a field is seen

The shape of fields goes over a chain of modifiers, the word of a type with its brackets, a gap and a
name, and a semicolon or an equals sign comes next (`exists_parts_of_mem_ways_field`).  So it is
silent at a word behind which no such text can follow, whatever stands before the word.

The shape does not ask where a word begins.  A field is seen from the middle of a word when the end
of the word is a modifier and a type and a name follow; `endingModifier?` is that modifier.
-/
import Survey.Proofs.Declaration.KeywordChains
import Survey.Proofs.Declaration.Members

namespace Survey

open Survey.Text Survey.Pattern Survey.Canonical

/-- Behind blanks, if any, there is a semicolon or an equals sign. -/
def TailOpens (more : List Char) : Prop :=
  ∃ gap c rest, more = gap ++ c :: rest ∧ (∀ d ∈ gap, isBlank d = true) ∧ (c = ';' ∨ c = '=')

/-- The modifier of fields at the end of a word, if there is one. -/
def endingModifier? (w : List Char) : Option String :=
  fieldKeywords.find? fun k => k.toList.isSuffixOf w

section

variable {front back rest gap more w v : List Char} {c : Char} {groups : List (Nat × Span)}
  {t : Progress}

/-! ### The texts of heads and fields -/

/-- Brackets of a type begin with a character of their own. -/
lemma exists_brackets_of_mem_ways {s t : Progress}
    (h : t ∈ (optional HeadShape.typeBrackets).ways s) :
    ∃ u, s.place.Passes u t.place ∧ ∀ d ∈ u.head?, d = '[' ∨ d = '<' := by
  rcases mem_ways_optional.1 h with h | rfl
  · rcases mem_ways_either.1 h with h | h
    · exact ⟨_, (mem_ways_word.1 h).1, by simp⟩
    · obtain ⟨r₁, h₁, hclose⟩ := mem_ways_seq.1 h
      obtain ⟨r₂, h₂, hinside⟩ := mem_ways_seq.1 h₁
      obtain ⟨u, hu⟩ := passes_of_mem_ways hinside
      obtain ⟨v, hv⟩ := passes_of_mem_ways hclose
      exact ⟨_, ((mem_ways_word.1 h₂).1.trans hu).trans hv, by simp⟩
  · exact ⟨[], t.place.passes_nil, by simp⟩

namespace HeadShape

variable {h : HeadShape}

/-- In front of the type of a head there is a chain of its keywords. -/
lemma exists_chain_of_mem_ways (ht : t ∈ h.pattern.ways ⟨.between front back, groups⟩) :
    ∃ words chain rest groups', back = chain ++ rest ∧ KeywordChain h.keywords words chain ∧
      t ∈ h.typed.ways ⟨.between (front ++ chain) rest, groups'⟩ := by
  obtain ⟨r, hkeywords, htyped⟩ := mem_ways_seq.1 ht
  obtain ⟨⟨place, groups'⟩, hround, rfl⟩ := mem_ways_group.1 hkeywords
  obtain ⟨words, chain, hchain, hpasses⟩ := Survey.exists_chain_of_mem_ways hround
  obtain ⟨rest, rfl, rfl⟩ := hpasses.exists_rest
  exact ⟨words, chain, rest, _, rfl, hchain, htyped⟩

/-- Behind the keywords of a head there are its type, a gap and its name, and both are remembered. -/
lemma exists_typed_of_mem_ways (ht : t ∈ h.typed.ways ⟨.between front back, groups⟩) :
    ∃ w brackets gap v more r groups', back = w ++ (brackets ++ (gap ++ (v ++ more))) ∧
      WordText w ∧ (∀ d ∈ brackets.head?, d = '[' ∨ d = '<') ∧ IsGap gap ∧ WordText v ∧
      r.place.after = more ∧
      r.groups = (3, .between (front ++ (w ++ (brackets ++ gap))) v more) ::
        (2, .between front (w ++ brackets) (gap ++ (v ++ more))) :: groups' ∧
      t ∈ h.tail.ways r := by
  obtain ⟨r₁, htype, h₁⟩ := mem_ways_seq.1 ht
  obtain ⟨⟨place₂, groups₂⟩, hblanks, h₂⟩ := mem_ways_seq.1 h₁
  obtain ⟨r₃, hnamed, htail⟩ := mem_ways_seq.1 h₂
  obtain ⟨⟨place₁, groups₁⟩, htyped, rfl⟩ := mem_ways_group.1 htype
  obtain ⟨q, hword, hbrackets⟩ := mem_ways_seq.1 htyped
  obtain ⟨w, hw, hwchars, hwone, -⟩ := mem_ways_all.1 hword
  obtain ⟨brackets, hbrackets, hhead⟩ := exists_brackets_of_mem_ways hbrackets
  obtain ⟨rest, rfl, rfl⟩ := (hw.trans hbrackets).exists_rest
  obtain ⟨gap, hgap, hblank, hleast, -, rfl⟩ := mem_ways_all.1 hblanks
  obtain ⟨rest, rfl, rfl⟩ := hgap.exists_rest
  obtain ⟨⟨place₃, groups₃⟩, hname, rfl⟩ := mem_ways_group.1 hnamed
  obtain ⟨v, hv, hvchars, hvone, -, rfl⟩ := mem_ways_all.1 hname
  obtain ⟨more, rfl, rfl⟩ := hv.exists_rest
  refine ⟨w, brackets, gap, v, more, _, groups₁, by simp,
    ⟨List.ne_nil_of_length_pos hwone, hwchars⟩, hhead,
    ⟨List.ne_nil_of_length_pos hleast, hblank⟩, ⟨List.ne_nil_of_length_pos hvone, hvchars⟩, rfl,
    ?_, htail⟩
  simp [Span.between]

end HeadShape

lemma tailOpens_of_mem_ways {s t : Progress} (h : t ∈ fieldTail.ways s) :
    TailOpens s.place.after := by
  obtain ⟨r, hvalue, hend⟩ := mem_ways_seq.1 h
  rcases mem_ways_optional.1 hvalue with hvalue | rfl
  · -- blanks and an equals sign stand in front of a value
    obtain ⟨r₁, h₁, -⟩ := mem_ways_seq.1 hvalue
    obtain ⟨r₂, h₂, -⟩ := mem_ways_seq.1 h₁
    obtain ⟨r₃, hblanks, hequals⟩ := mem_ways_seq.1 h₂
    obtain ⟨gap, hgap, hblank, -⟩ := mem_ways_all.1 hblanks
    exact ⟨gap, '=', _, by rw [hgap.after_eq, (mem_ways_word.1 hequals).1.after_eq]; rfl, hblank,
      Or.inr rfl⟩
  · exact ⟨[], ';', _, (mem_ways_word.1 hend).1.after_eq, by simp, Or.inl rfl⟩

/-- The text from a place where a field is seen. -/
lemma exists_parts_of_mem_ways_field (h : t ∈ Shape.field.ways ⟨.between front back, groups⟩) :
    ∃ words chain w brackets gap v more,
      back = chain ++ (w ++ (brackets ++ (gap ++ (v ++ more)))) ∧
      KeywordChain fieldKeywords words chain ∧ WordText w ∧
      (∀ d ∈ brackets.head?, d = '[' ∨ d = '<') ∧ IsGap gap ∧ WordText v ∧ TailOpens more := by
  rw [ways_field] at h
  obtain ⟨words, chain, rest, groups', rfl, hchain, htyped⟩ := HeadShape.exists_chain_of_mem_ways h
  obtain ⟨w, brackets, gap, v, more, r, groups'', rfl, hw, hbrackets, hgap, hv, hmore, -, htail⟩ :=
    HeadShape.exists_typed_of_mem_ways htyped
  exact ⟨words, chain, w, brackets, gap, v, more, rfl, hchain, hw, hbrackets, hgap, hv,
    hmore ▸ tailOpens_of_mem_ways htail⟩

lemma touchesWord_chain {words : List String} {chain : List Char}
    (hchain : KeywordChain fieldKeywords words chain) (hw : WordText w) (back : List Char) :
    touchesWord (chain ++ (w ++ back)) = true := by
  cases hchain with
  | nil => exact hw.touchesWord_append back
  | cons hword _ _ =>
    rw [List.append_assoc]
    exact (WordText.of_plainWord (plainWord_of_fieldKeywords _ hword)).touchesWord_append _

/-- A word at the front of a field is its type, or a modifier with a gap and a word behind it. -/
lemma type_or_modifier_of_mem_ways (hw : WordText w) (hback : touchesWord back = false)
    (h : t ∈ Shape.field.ways ⟨.between front (w ++ back), groups⟩) :
    (∃ brackets gap v more, back = brackets ++ (gap ++ (v ++ more)) ∧
      (∀ d ∈ brackets.head?, d = '[' ∨ d = '<') ∧ IsGap gap ∧ WordText v ∧ TailOpens more) ∨
    (String.ofList w ∈ fieldKeywords ∧ ∃ gap next, back = gap ++ next ∧ IsGap gap ∧
      touchesWord next = true) := by
  have hstop := head_not_wordChar_of_touchesWord hback
  obtain ⟨words, chain, w', brackets, gap, v, more, htext, hchain, hw', hbrackets, hgap, hv, hmore⟩ :=
    exists_parts_of_mem_ways_field h
  cases hchain with
  | nil =>
    have hends : ∀ d ∈ (brackets ++ (gap ++ (v ++ more))).head?, isWordChar d = false := by
      cases brackets with
      | nil => exact hgap.head_not_wordChar _
      | cons d brackets =>
        intro e he
        obtain rfl : d = e := by simpa using he
        rcases hbrackets d rfl with rfl | rfl <;> decide
    obtain ⟨-, hrest⟩ := eq_of_append_stop hw.all_wordChar hw'.all_wordChar hstop hends htext
    exact Or.inl ⟨brackets, gap, v, more, hrest, hbrackets, hgap, hv, hmore⟩
  | @cons word words gap' chain hword hgap' hchain =>
    rw [List.append_assoc, List.append_assoc] at htext
    obtain ⟨rfl, hrest⟩ := eq_of_append_stop hw.all_wordChar
      (WordText.of_plainWord (plainWord_of_fieldKeywords _ hword)).all_wordChar hstop
      (hgap'.head_not_wordChar _) htext
    rw [String.ofList_toList]
    exact Or.inr ⟨hword, gap', _, hrest, hgap', touchesWord_chain hchain hw' _⟩

/-! ### Places without a field -/

/-- No field is seen at a character outside words. -/
lemma silentAt_field_of_touchesWord (h : touchesWord back = false) : Shape.field.SilentAt back := by
  intro front groups
  rw [List.eq_nil_iff_forall_not_mem]
  intro t ht
  obtain ⟨words, chain, w, brackets, gap, v, more, rfl, hchain, hw, -⟩ :=
    exists_parts_of_mem_ways_field ht
  rw [touchesWord_chain hchain hw] at h
  cases h

/-- No field is seen at a word behind which, after blanks or at once, a character stands that belongs
to no word and opens no brackets. -/
lemma silentAt_field_of_stop (hw : WordText w) (hgap : ∀ d ∈ gap, isBlank d = true)
    (hc : HeadShape.isStop c = true) (rest : List Char) :
    Shape.field.SilentAt (w ++ (gap ++ c :: rest)) := by
  obtain ⟨⟨⟨hword, hblank⟩, hsquare⟩, hangle⟩ := HeadShape.isStop_iff.1 hc
  -- what stands behind the gap begins with that character
  have hnext : ∀ {gap' next}, IsGap gap' → touchesWord next = true →
      gap ++ c :: rest ≠ gap' ++ next := by
    intro gap' next hgap' hnext heq
    obtain ⟨-, rfl⟩ := eq_of_append_stop hgap hgap'.all_blank (by simpa using hblank)
      (head_not_blank_of_touchesWord hnext) heq
    rw [touchesWord_cons, hword] at hnext
    cases hnext
  have hback : touchesWord (gap ++ c :: rest) = false := by
    cases gap with
    | nil => exact hword
    | cons d gap => exact isWordChar_of_isBlank (hgap d (by simp))
  intro front groups
  rw [List.eq_nil_iff_forall_not_mem]
  intro t ht
  rcases type_or_modifier_of_mem_ways hw hback ht with
    ⟨brackets, gap', v, more, htext, hbrackets, hgap', hv, -⟩ | ⟨-, gap', next, htext, hgap', hword'⟩
  · cases brackets with
    | nil => exact hnext hgap' (hv.touchesWord_append more) htext
    | cons d brackets =>
      have hd := hbrackets d rfl
      cases gap with
      | nil =>
        obtain ⟨rfl, -⟩ := List.cons.inj htext
        exact hd.elim hsquare hangle
      | cons e gap =>
        obtain ⟨rfl, -⟩ := List.cons.inj htext
        have hspace := hgap e (by simp)
        rcases hd with rfl | rfl <;> revert hspace <;> decide
  · exact hnext hgap' hword' htext

/-- No field is seen at a word that is no modifier, when the word behind it is not the name of a
field. -/
lemma silentAt_field_of_noTail (hw : WordText w) (hmem : String.ofList w ∉ fieldKeywords)
    (hgap : IsGap gap) (hv : WordText v) (hstop : touchesWord more = false)
    (hmore : ¬ TailOpens more) : Shape.field.SilentAt (w ++ (gap ++ (v ++ more))) := by
  have hback : touchesWord (gap ++ (v ++ more)) = false := by
    obtain ⟨d, gap, rfl, -, hd⟩ := hgap.exists_cons
    exact hd
  intro front groups
  rw [List.eq_nil_iff_forall_not_mem]
  intro t ht
  rcases type_or_modifier_of_mem_ways hw hback ht with
    ⟨brackets, gap', v', more', htext, hbrackets, hgap', hv', hmore'⟩ | ⟨hkeyword, -⟩
  · cases brackets with
    | cons d brackets =>
      obtain ⟨e, gap, rfl, hblank, -⟩ := hgap.exists_cons
      obtain ⟨rfl, -⟩ := List.cons.inj htext
      rcases hbrackets e rfl with rfl | rfl <;> revert hblank <;> decide
    | nil =>
      obtain ⟨-, hnames⟩ := eq_of_append_stop hgap.all_blank hgap'.all_blank
        (head_not_blank_of_touchesWord (hv.touchesWord_append more))
        (head_not_blank_of_touchesWord (hv'.touchesWord_append more')) htext
      have hstop' : touchesWord more' = false := by
        obtain ⟨gap'', c, rest, rfl, hblank, hc⟩ := hmore'
        have hword : isWordChar c = false := by rcases hc with rfl | rfl <;> decide
        cases gap'' with
        | nil => exact hword
        | cons d gap'' => exact isWordChar_of_isBlank (hblank d (by simp))
      obtain ⟨-, rfl⟩ := eq_of_append_stop hv.all_wordChar hv'.all_wordChar
        (head_not_wordChar_of_touchesWord hstop) (head_not_wordChar_of_touchesWord hstop') hnames
      exact hmore hmore'
  · exact hmem hkeyword

lemma not_tailOpens (hgap : ∀ d ∈ gap, isBlank d = true) (hblank : isBlank c = false)
    (hsemicolon : c ≠ ';') (hequals : c ≠ '=') (rest : List Char) :
    ¬ TailOpens (gap ++ c :: rest) := by
  rintro ⟨gap', d, more, htext, hgap', hd⟩
  have hdblank : isBlank d = false := by rcases hd with rfl | rfl <;> decide
  obtain ⟨-, hnext⟩ := eq_of_append_stop hgap hgap' (by simpa using hblank)
    (by simpa using hdblank) htext
  obtain ⟨rfl, -⟩ := List.cons.inj hnext
  exact hd.elim hsemicolon hequals

/-- Behind a gap a word comes next, and no tail. -/
lemma not_tailOpens_of_word (hgap : IsGap gap) (hv : WordText v) (rest : List Char) :
    ¬ TailOpens (gap ++ (v ++ rest)) := by
  obtain ⟨c, v, rfl, hc⟩ := hv.exists_cons
  refine not_tailOpens hgap.all_blank (isBlank_of_isWordChar hc) ?_ ?_ (v ++ rest) <;> rintro rfl <;>
    exact absurd hc (by decide)

/-! ### Stretches without a field -/

lemma silent_field_of_not_word (hu : ∀ c ∈ w, isWordChar c = false) (back : List Char) :
    Shape.field.Silent w back := by
  induction w with
  | nil => trivial
  | cons c w ih =>
    exact ⟨silentAt_field_of_touchesWord (hu c (by simp)),
      ih fun d hd => hu d (List.mem_cons_of_mem _ hd)⟩

/-- A word is passed over when each of its ends is. -/
lemma WordText.silent_field (hw : WordText w)
    (h : ∀ v, WordText v → v <:+ w → Shape.field.SilentAt (v ++ back)) :
    Shape.field.Silent w back :=
  silent_of_suffixes fun v hv hne => h v ⟨hne, fun c hc => hw.all_wordChar c (hv.mem hc)⟩ hv

/-! ### Modifiers at the end of a word -/

lemma not_suffix_of_endingModifier?_eq_none (h : endingModifier? w = none) :
    ∀ k ∈ fieldKeywords, ¬ k.toList <:+ w := by
  intro k hk hsuffix
  have hnone := List.find?_eq_none.1 h k hk
  exact hnone (List.isSuffixOf_iff_suffix.2 hsuffix)

lemma of_endingModifier?_eq_some {k : String} (h : endingModifier? w = some k) :
    k ∈ fieldKeywords ∧ k.toList <:+ w := by
  have hsuffix := List.find?_some h
  exact ⟨List.mem_of_find?_eq_some h, List.isSuffixOf_iff_suffix.1 hsuffix⟩

/-- No modifier of fields is the end of another one. -/
lemma eq_of_fieldKeyword_suffix : ∀ k ∈ fieldKeywords, ∀ k' ∈ fieldKeywords,
    k.toList <:+ k'.toList → k = k' := by
  decide

/-- A word is passed over up to the modifier at its end when a type and a name follow. -/
lemma silent_field_before_modifier {k : String} (hk : k ∈ fieldKeywords) {u : List Char}
    (hu : ∀ c ∈ u, isWordChar c = true) (hgap : IsGap gap) (hv : WordText v)
    (hstop : touchesWord more = false) (hmore : ¬ TailOpens more) :
    Shape.field.Silent u (k.toList ++ (gap ++ (v ++ more))) := by
  have hplain := plainWord_of_fieldKeywords k hk
  refine silent_of_suffixes fun u' hu' hne => ?_
  have hword : WordText (u' ++ k.toList) := by
    refine ⟨by simp [hne], fun c hc => ?_⟩
    rcases List.mem_append.1 hc with hc | hc
    · exact hu c (hu'.mem hc)
    · exact hplain.isWordChar c hc
  rw [← List.append_assoc]
  refine silentAt_field_of_noTail hword (fun hmem => hne ?_) hgap hv hstop hmore
  -- a longer end of the word is no modifier, since the modifier is an end of it
  have hsame := eq_of_fieldKeyword_suffix k hk _ hmem
    (by rw [String.toList_ofList]; exact List.suffix_append u' k.toList)
  have hlength := congrArg (fun k => k.toList.length) hsame
  simp only [String.toList_ofList, List.length_append] at hlength
  exact List.eq_nil_of_length_eq_zero (by omega)

/-- A word without a modifier at its end is passed over when a type and a name follow. -/
lemma silent_field_of_no_modifier (hw : WordText w) (hnone : endingModifier? w = none)
    (hgap : IsGap gap) (hv : WordText v) (hstop : touchesWord more = false)
    (hmore : ¬ TailOpens more) : Shape.field.Silent w (gap ++ (v ++ more)) := by
  refine hw.silent_field fun w' hw' hsuffix => ?_
  refine silentAt_field_of_noTail hw' (fun hmem => ?_) hgap hv hstop hmore
  refine not_suffix_of_endingModifier?_eq_none hnone _ hmem ?_
  rwa [String.toList_ofList]

/-! ### Fields that are seen -/

/-- What the shape of fields matches from a chain of modifiers on. -/
def chainMatch (front chain w v rest : List Char) : Match where
  whole := .between front (chain ++ (w ++ ' ' :: (v ++ [';']))) rest
  groups := HeadShape.headGroups front chain w v (';' :: rest)

lemma matchAt?_field_of_chain {words : List String} {chain : List Char}
    (hchain : KeywordChain fieldKeywords words chain) (hw : WordText w)
    (hmem : String.ofList w ∉ fieldKeywords) (hv : WordText v) (front rest : List Char) :
    Shape.field.matchAt? (.between front (chain ++ (w ++ ' ' :: (v ++ ';' :: rest)))) =
      some (chainMatch front chain w v rest) := by
  have hgap := isGap_space
  have hnext := head_not_blank_of_touchesWord (hv.touchesWord_append (';' :: rest))
  have hmodifiers := (hchain.first plainWord_of_fieldKeywords hw hgap hmem front
    (v ++ ';' :: rest) []).group 1
  have hbrackets : HeadShape.typeBrackets.SilentAt ([' '] ++ (v ++ ';' :: rest)) :=
    HeadShape.silentAt_typeBrackets (by decide) (by decide)
  have htype : Shape.memberType.Takes (w ++ []) ([' '] ++ (v ++ ';' :: rest)) :=
    (takes_all hw.all_wordChar hw.length_pos (by simp; decide)).append hbrackets.optional
  rw [List.append_nil] at htype
  have htyped := htype.first_group 2 (front ++ chain)
    [(1, .between front chain (w ++ ([' '] ++ (v ++ ';' :: rest))))]
  have hblanks := (hgap.takes_blanks hnext).first (front ++ chain ++ w)
    [(2, .between (front ++ chain) w ([' '] ++ (v ++ ';' :: rest))),
      (1, .between front chain (w ++ ([' '] ++ (v ++ ';' :: rest))))]
  have hname : name.Takes v (';' :: rest) :=
    takes_all hv.all_wordChar hv.length_pos (by simp; decide)
  have hnamed := hname.first_group 3 (front ++ chain ++ w ++ [' '])
    [(2, .between (front ++ chain) w ([' '] ++ (v ++ ';' :: rest))),
      (1, .between front chain (w ++ ([' '] ++ (v ++ ';' :: rest))))]
  have htail := (takes_fieldTail rest).first (front ++ chain ++ w ++ [' '] ++ v)
    [(3, .between (front ++ chain ++ w ++ [' ']) v (';' :: rest)),
      (2, .between (front ++ chain) w ([' '] ++ (v ++ ';' :: rest))),
      (1, .between front chain (w ++ ([' '] ++ (v ++ ';' :: rest))))]
  have hpattern : HeadShape.field.pattern.First _ _ :=
    hmodifiers.append (htyped.append (hblanks.append (hnamed.append htail)))
  rw [First, ← ways_field] at hpattern
  have hmatch := matchAt?_of_first hpattern
  simp only [chainMatch, HeadShape.headGroups, Span.between, List.append_assoc, List.cons_append,
    List.nil_append] at hmatch ⊢
  exact hmatch

end

end Survey
