/-
# Chains of keywords

Keywords stand in front of a declaration one after the other, with blanks behind each.  Such a text
is a chain.  What the shape of keywords goes over is always a chain (`exists_chain_of_mem_ways`), and
a chain is gone over as a whole when no further keyword stands behind it (`KeywordChain.first`).

A chain holds no other words: where a word begins inside a chain, one of its keywords begins
(`KeywordChain.exists_keyword`).

Words and gaps are told apart by the text alone: a text begins with one longest stretch of characters
of a class (`eq_of_append_stop`).
-/
import Survey.Proofs.Declaration.Heads
import Survey.Proofs.Text.Pieces
import Survey.Proofs.Text.Words

namespace Survey

open Survey.Text Survey.Pattern Survey.Canonical

/-- Blanks, at least one of them. -/
structure IsGap (gap : List Char) : Prop where
  ne_nil : gap ≠ []
  all_blank : ∀ c ∈ gap, isBlank c = true

/-- Word characters, at least one of them. -/
structure WordText (w : List Char) : Prop where
  ne_nil : w ≠ []
  all_wordChar : ∀ c ∈ w, isWordChar c = true

/-- Keywords of a list, with blanks behind each. -/
inductive KeywordChain (allowed : List String) : List String → List Char → Prop
  | nil : KeywordChain allowed [] []
  | cons {word : String} {words : List String} {gap chain : List Char} :
    word ∈ allowed → IsGap gap → KeywordChain allowed words chain →
      KeywordChain allowed (word :: words) (word.toList ++ (gap ++ chain))

/-! ### Words and gaps -/

/-- The longest stretch of characters of a class is determined by the text. -/
lemma eq_of_append_stop {cls : Char → Bool} {u v rest rest' : List Char}
    (hu : ∀ c ∈ u, cls c = true) (hv : ∀ c ∈ v, cls c = true)
    (hrest : ∀ c ∈ rest.head?, cls c = false) (hrest' : ∀ c ∈ rest'.head?, cls c = false)
    (h : u ++ rest = v ++ rest') : u = v ∧ rest = rest' := by
  obtain ⟨htake, hdrop⟩ := Cursor.takeWhile_append_stop hu hrest
  obtain ⟨htake', hdrop'⟩ := Cursor.takeWhile_append_stop hv hrest'
  exact ⟨by rw [← htake, h, htake'], by rw [← hdrop, h, hdrop']⟩

namespace WordText

variable {w : List Char}

lemma of_plainWord (h : PlainWord w) : WordText w := ⟨h.ne_nil, h.isWordChar⟩

lemma length_pos (h : WordText w) : 1 ≤ w.length := List.length_pos_of_ne_nil h.ne_nil

lemma exists_cons (h : WordText w) : ∃ c rest, w = c :: rest ∧ isWordChar c = true := by
  obtain ⟨c, rest, rfl⟩ := List.exists_cons_of_ne_nil h.ne_nil
  exact ⟨c, rest, rfl, h.all_wordChar c (by simp)⟩

lemma touchesWord_append (h : WordText w) (back : List Char) : touchesWord (w ++ back) = true := by
  obtain ⟨c, rest, rfl, hc⟩ := h.exists_cons
  exact hc

end WordText

namespace IsGap

variable {gap back : List Char}

lemma length_pos (h : IsGap gap) : 1 ≤ gap.length := List.length_pos_of_ne_nil h.ne_nil

/-- A gap begins with a blank, which is no word character. -/
lemma exists_cons (h : IsGap gap) :
    ∃ c rest, gap = c :: rest ∧ isBlank c = true ∧ isWordChar c = false := by
  obtain ⟨c, rest, rfl⟩ := List.exists_cons_of_ne_nil h.ne_nil
  have hc := h.all_blank c (by simp)
  exact ⟨c, rest, rfl, hc, isWordChar_of_isBlank hc⟩

/-- No word character stands at the front of a gap. -/
lemma head_not_wordChar (h : IsGap gap) (back : List Char) :
    ∀ c ∈ (gap ++ back).head?, isWordChar c = false := by
  obtain ⟨c, rest, rfl, -, hc⟩ := h.exists_cons
  simpa using hc

lemma takes_blanks (h : IsGap gap) (hback : ∀ c ∈ back.head?, isBlank c = false) :
    blanks.Takes gap back :=
  takes_all h.all_blank h.length_pos hback

/-- No word touches the end of a gap. -/
lemma touchesWord_reverse (h : IsGap gap) (front : List Char) :
    touchesWord (front ++ gap).reverse = false := by
  obtain ⟨rest, c, rfl⟩ := (List.eq_nil_or_concat gap).resolve_left h.ne_nil
  rw [List.concat_eq_append, ← List.append_assoc, List.reverse_concat, touchesWord_cons]
  exact isWordChar_of_isBlank (h.all_blank c (by simp))

end IsGap

lemma isGap_space : IsGap [' '] := ⟨by simp, by simp; decide⟩

lemma head_not_wordChar_of_touchesWord {back : List Char} (h : touchesWord back = false) :
    ∀ c ∈ back.head?, isWordChar c = false := by
  cases back with
  | nil => simp
  | cons c back => simpa using h

/-- Where a word character comes next, no blank does. -/
lemma head_not_blank_of_touchesWord {back : List Char} (h : touchesWord back = true) :
    ∀ c ∈ back.head?, isBlank c = false := by
  cases back with
  | nil => simp
  | cons c rest =>
    simp only [List.head?_cons, Option.mem_def, Option.some.injEq, forall_eq']
    exact isBlank_of_isWordChar h

lemma touchesWord_reverse_append {u v : List Char} (h : touchesWord (u ++ v).reverse = false) :
    touchesWord v.reverse = false := by
  rcases List.eq_nil_or_concat v with rfl | ⟨rest, c, rfl⟩
  · rfl
  · simpa using h

/-- Words in front of gaps are told apart by the text. -/
lemma eq_of_append_gap {w w' gap gap' rest rest' : List Char} (hw : WordText w)
    (hw' : WordText w') (hgap : IsGap gap) (hgap' : IsGap gap')
    (h : w ++ (gap ++ rest) = w' ++ (gap' ++ rest')) : w = w' ∧ gap ++ rest = gap' ++ rest' :=
  eq_of_append_stop hw.all_wordChar hw'.all_wordChar (hgap.head_not_wordChar rest)
    (hgap'.head_not_wordChar rest') h

/-! ### Going over a chain -/

lemma mem_ways_oneOf {words : List String} {s t : Progress} :
    t ∈ (oneOf words).ways s ↔ ∃ word ∈ words, t ∈ (lit word).ways s := by
  rw [ways_oneOf, List.mem_flatMap]

section

variable {allowed words words' : List String} {chain chain' : List Char}

lemma KeywordChain.append (h : KeywordChain allowed words chain)
    (h' : KeywordChain allowed words' chain') :
    KeywordChain allowed (words ++ words') (chain ++ chain') := by
  induction h with
  | nil => exact h'
  | cons hword hgap _ ih =>
    rw [List.append_assoc, List.append_assoc]
    exact .cons hword hgap ih

/-- What keywords go over is a chain. -/
lemma exists_chain_of_mem_ways {s t : Progress} (h : t ∈ (Shape.keywords allowed).ways s) :
    ∃ words chain, KeywordChain allowed words chain ∧ s.place.Passes chain t.place := by
  refine holds_of_mem_rounds (P := fun r => ∃ words chain, KeywordChain allowed words chain ∧
    s.place.Passes chain r.place) ?_ ⟨[], [], .nil, s.place.passes_nil⟩ h
  rintro r ⟨words, chain, hchain, hpasses⟩ r' hr'
  -- one more round is one more keyword and the blanks behind it
  obtain ⟨q, hq, hblanks⟩ := mem_ways_seq.1 hr'
  obtain ⟨word, hword, hlit⟩ := mem_ways_oneOf.1 hq
  obtain ⟨hover, -⟩ := mem_ways_word.1 hlit
  obtain ⟨gap, hgap, hblank, hleast, -⟩ := mem_ways_all.1 hblanks
  have hround : KeywordChain allowed [word] (word.toList ++ (gap ++ [])) :=
    .cons hword ⟨List.ne_nil_of_length_pos hleast, hblank⟩ .nil
  rw [List.append_nil] at hround
  exact ⟨_, _, hchain.append hround, hpasses.trans (hover.trans hgap)⟩

/-- No word touches the end of a chain. -/
lemma KeywordChain.touchesWord_reverse (h : KeywordChain allowed words chain) (hne : chain ≠ [])
    (front : List Char) : touchesWord (front ++ chain).reverse = false := by
  induction h generalizing front with
  | nil => exact absurd rfl hne
  | @cons word words gap chain _ hgap _ ih =>
    rw [← List.append_assoc word.toList, ← List.append_assoc front]
    by_cases hchain : chain = []
    · rw [hchain, List.append_nil, ← List.append_assoc]
      exact hgap.touchesWord_reverse _
    · exact ih hchain _

variable (hallowed : ∀ k ∈ allowed, PlainWord k.toList)

include hallowed

/-- A chain begins with a word character, or it is empty. -/
lemma KeywordChain.head_not_blank (h : KeywordChain allowed words chain) {back : List Char}
    (hback : ∀ c ∈ back.head?, isBlank c = false) :
    ∀ c ∈ (chain ++ back).head?, isBlank c = false := by
  cases h with
  | nil => exact hback
  | cons hword hgap _ =>
    rw [List.append_assoc]
    exact (hallowed _ hword).head_not_blank _

/-- No keyword is taken in front of a word that is none. -/
lemma takes_no_keywords_of_notMem {w gap : List Char} (hw : WordText w) (hgap : IsGap gap)
    (hother : String.ofList w ∉ allowed) (rest : List Char) :
    (Shape.keywords allowed).Takes [] (w ++ (gap ++ rest)) := by
  intro front groups
  rw [List.nil_append, List.append_nil]
  refine ways_rounds_of_nil (List.eq_nil_iff_forall_not_mem.2 fun t ht => hother ?_)
  obtain ⟨q, hq, hblanks⟩ := mem_ways_seq.1 ht
  obtain ⟨word, hword, hlit⟩ := mem_ways_oneOf.1 hq
  obtain ⟨hover, -⟩ := mem_ways_word.1 hlit
  obtain ⟨gap', hgap', hblank, hleast, -⟩ := mem_ways_all.1 hblanks
  have htext := hover.after_eq
  rw [hgap'.after_eq, Cursor.after_between] at htext
  obtain ⟨rfl, -⟩ := eq_of_append_gap hw (.of_plainWord (hallowed word hword)) hgap
    ⟨List.ne_nil_of_length_pos hleast, hblank⟩ htext
  rwa [String.ofList_toList]

/-- Behind the keywords of a chain, at a word that is none of them, the chain is gone over. -/
lemma KeywordChain.first (h : KeywordChain allowed words chain) {w gap : List Char}
    (hw : WordText w) (hgap : IsGap gap) (hother : String.ofList w ∉ allowed)
    (front rest : List Char) (groups : List (Nat × Span)) :
    (Shape.keywords allowed).First
      ⟨.between front (chain ++ (w ++ (gap ++ rest))), groups⟩
      ⟨.between (front ++ chain) (w ++ (gap ++ rest)), groups⟩ := by
  induction h generalizing front with
  | nil =>
    have htakes := takes_no_keywords_of_notMem hallowed hw hgap hother rest
    simpa using htakes.first front groups
  | @cons word words gap' chain hword hgap' hchain ih =>
    have hplain := hallowed _ hword
    obtain ⟨c, more, hcons, -, hc⟩ := hgap'.exists_cons
    have hblanks := hgap'.takes_blanks (hchain.head_not_blank hallowed
      (head_not_blank_of_touchesWord (hw.touchesWord_append (gap ++ rest))))
      (front ++ word.toList) groups
    -- the first round takes the first keyword, the further ones take the others
    have hround : (oneOf allowed ++ blanks).First
        ⟨.between front (word.toList ++ (gap' ++ (chain ++ (w ++ (gap ++ rest))))), groups⟩
        ⟨.between (front ++ word.toList ++ gap') (chain ++ (w ++ (gap ++ rest))), groups⟩ := by
      obtain ⟨l, m, hfilter⟩ : ∃ l m, allowed.filter (·.toList = word.toList) = l :: m :=
        List.exists_cons_of_ne_nil (List.ne_nil_of_mem (List.mem_filter.2 ⟨hword, by simp⟩))
      rw [hcons, List.cons_append] at hblanks ⊢
      rw [First, ways_oneOf_blanks hallowed hplain.all_identifierChar hc, hfilter,
        List.flatMap_cons, hblanks]
      rfl
    have hlt := (Cursor.passes_between front (word.toList ++ gap')
      (chain ++ (w ++ (gap ++ rest)))).offset_lt_iff.2 (by simp [hplain.ne_nil])
    rw [List.append_assoc word.toList, List.append_assoc gap',
      show front ++ (word.toList ++ (gap' ++ chain)) = front ++ word.toList ++ gap' ++ chain by
        simp only [List.append_assoc]]
    refine First.rounds hround ?_ (ih _)
    simpa [List.append_assoc] using hlt

/-- Where a word begins inside a chain, one of its keywords begins. -/
lemma KeywordChain.exists_keyword (h : KeywordChain allowed words chain) {u v : List Char}
    (hsplit : chain = u ++ v) (hbefore : touchesWord u.reverse = false)
    (hbehind : touchesWord v = true) :
    ∃ word ∈ allowed, ∃ gap rest, IsGap gap ∧ v = word.toList ++ (gap ++ rest) := by
  induction h generalizing u with
  | nil =>
    obtain ⟨rfl, rfl⟩ := List.append_eq_nil_iff.1 hsplit.symm
    simp at hbehind
  | @cons word words gap chain hword hgap hchain ih =>
    rcases List.append_eq_append_iff.1 hsplit with ⟨a, rfl, ha⟩ | ⟨a, hwa, rfl⟩
    · -- the place is behind the first keyword
      rcases List.append_eq_append_iff.1 ha with ⟨b, rfl, hb⟩ | ⟨b, hab, rfl⟩
      · rw [← List.append_assoc] at hbefore
        exact ih hb (touchesWord_reverse_append hbefore)
      · -- inside its gap a blank comes next
        cases b with
        | nil => exact ih (u := []) rfl rfl
        | cons c b =>
          have hc := isWordChar_of_isBlank (hgap.all_blank c (by simp [hab]))
          rw [List.cons_append, touchesWord_cons, hc] at hbehind
          simp at hbehind
    · -- the place is in front of the first keyword or in the middle of it
      rcases List.eq_nil_or_concat u with rfl | ⟨u, c, rfl⟩
      · rw [List.nil_append] at hwa
        exact ⟨word, hword, gap, chain, hgap, by rw [hwa]⟩
      · have hc := (hallowed _ hword).isWordChar c (by simp [hwa])
        rw [List.concat_eq_append, List.reverse_concat, touchesWord_cons, hc] at hbefore
        simp at hbefore

end

end Survey
