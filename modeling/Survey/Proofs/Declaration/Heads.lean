/-
# Heads of members

A method and a field begin alike: keywords, a type, blanks and a name.  What stands behind the name
tells them apart.  A `HeadShape` is such a shape, given by its keywords and by the pattern behind
the name; the shapes of methods and of fields are two of them.

Where the text is known word by word, a search with such a shape is followed word by word.  A head
that is really there is matched at its first keyword (`first_pattern`).  Elsewhere the shape is
silent: a word leads nowhere when the word behind it leads nowhere and is no name in front of the
right character (`Barren`).
-/
import Survey.Proofs.Declaration.Canonical
import Survey.Proofs.Pattern.Finds

namespace Survey

open Survey.Text Survey.Pattern Survey.Canonical

/-! ### Words -/

namespace Pattern

variable {w next back rest : List Char} {c : Char}

lemma takes_name (hw : PlainWord w) (hstop : ∀ c ∈ back.head?, isWordChar c = false) :
    name.Takes w back :=
  takes_all hw.isWordChar hw.length_pos hstop

lemma silentAt_name (hc : isWordChar c = false) : name.SilentAt (c :: rest) :=
  silentAt_all (by simpa using hc)

/-- A word is passed over when every word in its place is. -/
lemma silent_word {p : Pattern} (hsilent : ∀ w, PlainWord w → p.SilentAt (w ++ back))
    (hw : PlainWord w) : p.Silent w back :=
  silent_of_suffixes fun v hv hne =>
    hsilent v ⟨hne, fun c hc => hw.all_identifierChar c (hv.mem hc)⟩

/-- A keyword with blanks behind it is not there when the word that comes next is another one. -/
lemma silentAt_keyword {k : String} (hk : PlainWord k.toList)
    (hw : ∀ d ∈ w, isIdentifierChar d = true) (hc : isWordChar c = false) (hne : k.toList ≠ w) :
    (lit k ++ blanks).SilentAt (w ++ c :: rest) := by
  intro front groups
  rw [ways_append_eq_nil_iff]
  rintro ⟨place, groups'⟩ ht
  obtain ⟨⟨front', rest', hplace, hplace'⟩, -⟩ := mem_ways_word.1 ht
  have htext : w ++ c :: rest = k.toList ++ rest' := congrArg Cursor.after hplace
  simp only at hplace'
  subst hplace'
  -- the keyword ends inside the word, so no blank comes next
  refine silentAt_all (fun d hd => ?_) _ _
  rcases List.append_eq_append_iff.1 htext with ⟨u, hkw, hrest⟩ | ⟨u, hwk, hrest⟩
  · cases u with
    | nil => exact absurd (by simpa using hkw) hne
    | cons e u =>
      have hword := hk.isWordChar e (by simp [hkw])
      rw [List.cons_append] at hrest
      rw [(List.cons.inj hrest).1, hword] at hc
      simp at hc
  · cases u with
    | nil => exact absurd (by simpa using hwk.symm) hne
    | cons e u =>
      rw [hrest] at hd
      have heq : e = d := by simpa using hd
      exact heq ▸ isBlank_of_identifierChar (hw e (by simp [hwk]))

/-- Among keywords only the word itself counts. -/
lemma ways_oneOf_blanks {words : List String} (hwords : ∀ k ∈ words, PlainWord k.toList)
    (hw : ∀ d ∈ w, isIdentifierChar d = true) (hc : isWordChar c = false) (front : List Char)
    (groups : List (Nat × Span)) :
    (oneOf words ++ blanks).ways ⟨.between front (w ++ c :: rest), groups⟩ =
      (words.filter (·.toList = w)).flatMap fun _ =>
        blanks.ways ⟨.between (front ++ w) (c :: rest), groups⟩ := by
  rw [ways_append, ways_oneOf, List.flatMap_assoc]
  induction words with
  | nil => rfl
  | cons k words ih =>
    have hrest := ih fun k hk => hwords k (List.mem_cons_of_mem _ hk)
    rw [List.flatMap_cons, hrest, List.filter_cons, ← ways_append]
    by_cases heq : k.toList = w
    · subst heq
      rw [(takes_lit k (c :: rest)).ways_append]
      simp
    · rw [silentAt_keyword (hwords k (by simp)) hw hc heq]
      simp [heq]

/-- No keyword stands in front of a word without a blank behind it, or of a word that is none. -/
lemma silentAt_oneOf_blanks {words : List String} (hwords : ∀ k ∈ words, PlainWord k.toList)
    (hw : ∀ d ∈ w, isIdentifierChar d = true) (hc : isWordChar c = false)
    (hother : isBlank c = false ∨ String.ofList w ∉ words) (rest : List Char) :
    (oneOf words ++ blanks).SilentAt (w ++ c :: rest) := by
  intro front groups
  rw [ways_oneOf_blanks hwords hw hc, List.flatMap_eq_nil_iff]
  intro k hk
  rw [List.mem_filter, decide_eq_true_eq] at hk
  rcases hother with hblank | hmem
  · exact silentAt_all (by simpa using hblank) _ _
  · exact absurd (by rw [← hk.2, String.ofList_toList]; exact hk.1) hmem

lemma takes_no_keywords {words : List String} (hwords : ∀ k ∈ words, PlainWord k.toList)
    (hw : ∀ d ∈ w, isIdentifierChar d = true) (hc : isWordChar c = false)
    (hother : isBlank c = false ∨ String.ofList w ∉ words) (rest : List Char) :
    (Shape.keywords words).Takes [] (w ++ c :: rest) := by
  intro front groups
  rw [List.nil_append, List.append_nil]
  exact ways_rounds_of_nil (silentAt_oneOf_blanks hwords hw hc hother rest front groups)

lemma ofList_nil_notMem {words : List String} (hwords : ∀ k ∈ words, PlainWord k.toList) :
    String.ofList [] ∉ words :=
  fun hmem => (hwords _ hmem).ne_nil String.toList_ofList

end Pattern

/-! ### Shapes of heads -/

/-- Keywords, a type, a name and a tail, which begins with certain characters or with one space and
such a character. -/
structure HeadShape where
  keywords : List String
  tail : Pattern
  openers : List Char
  plainWord_of_mem : ∀ k ∈ keywords, PlainWord k.toList
  openers_subset : openers ⊆ ['(', ';', '=']
  silentAt_tail : ∀ c rest, isBlank c = false → c ∉ openers →
    tail.SilentAt (c :: rest) ∧ tail.SilentAt (' ' :: c :: rest)

namespace HeadShape

/-- A name and what stands behind it. -/
def named (h : HeadShape) : Pattern := group 3 name ++ h.tail

/-- What stands behind the keywords. -/
def typed (h : HeadShape) : Pattern := group 2 Shape.memberType ++ (blanks ++ h.named)

/-- The whole head. -/
def pattern (h : HeadShape) : Pattern := group 1 (Shape.keywords h.keywords) ++ h.typed

variable {h : HeadShape} {front w v u back rest next : List Char} {c : Char}
  {groups : List (Nat × Span)}

/-! #### Keywords -/

/-- Behind a word and a space, keywords go on only if the word is one of them. -/
lemma mem_ways_keywords (hw : PlainWord w) (hnext : ∀ c ∈ next.head?, isBlank c = false)
    {t : Progress}
    (ht : t ∈ (Shape.keywords h.keywords).ways ⟨.between front (w ++ ' ' :: next), groups⟩) :
    t = ⟨.between front (w ++ ' ' :: next), groups⟩ ∨ String.ofList w ∈ h.keywords ∧
      t ∈ (Shape.keywords h.keywords).ways ⟨.between (front ++ w ++ [' ']) next, groups⟩ := by
  refine (mem_ways_rounds ht).imp_right ?_
  rintro ⟨r, hr, ht⟩
  rw [ways_oneOf_blanks h.plainWord_of_mem hw.all_identifierChar (by decide),
    List.mem_flatMap] at hr
  obtain ⟨k, hk, hr⟩ := hr
  rw [List.mem_filter, decide_eq_true_eq] at hk
  have hmem : String.ofList w ∈ h.keywords := by
    rw [← hk.2, String.ofList_toList]
    exact hk.1
  have hblanks := takes_blanks hnext (front ++ w) groups
  rw [List.singleton_append] at hblanks
  rw [hblanks, List.mem_singleton] at hr
  exact ⟨hmem, hr ▸ ht⟩

/-- Whether keywords are printed or not, a word comes next. -/
lemma head_not_blank (keywords : Keywords h.keywords) (hw : PlainWord w) (back : List Char) :
    ∀ c ∈ (printKeywords keywords ++ (w ++ back)).head?, isBlank c = false := by
  cases keywords with
  | nil => simpa [printKeywords] using hw.head_not_blank back
  | cons k keywords =>
    simpa [printKeywords] using (h.plainWord_of_mem _ k.2).head_not_blank
      (' ' :: (printKeywords keywords ++ (w ++ back)))

/-- Printed keywords are all taken when no further keyword follows. -/
lemma first_keywords (keywords : Keywords h.keywords) (hw : PlainWord w)
    (hmem : String.ofList w ∉ h.keywords) (hc : isWordChar c = false) (front rest : List Char)
    (groups : List (Nat × Span)) :
    (Shape.keywords h.keywords).First
      ⟨.between front (printKeywords keywords ++ (w ++ c :: rest)), groups⟩
      ⟨.between (front ++ printKeywords keywords) (w ++ c :: rest), groups⟩ := by
  induction keywords generalizing front with
  | nil =>
    refine first_of_ways_eq ?_
    rw [printKeywords, List.flatMap_nil, List.nil_append, List.append_nil]
    have htakes := takes_no_keywords h.plainWord_of_mem hw.all_identifierChar hc (Or.inr hmem) rest
      front groups
    rwa [List.nil_append, List.append_nil] at htakes
  | cons k keywords ih =>
    have hk := h.plainWord_of_mem _ k.2
    -- the text is the keyword, one space and the rest
    have htext : printKeywords (k :: keywords) ++ (w ++ c :: rest) =
        k.1.toList ++ ' ' :: (printKeywords keywords ++ (w ++ c :: rest)) := by
      simp [printKeywords]
    have hfront : front ++ printKeywords (k :: keywords) =
        front ++ k.1.toList ++ [' '] ++ printKeywords keywords := by
      simp [printKeywords]
    rw [htext, hfront]
    refine First.rounds ?_ ?_ (ih _)
    · obtain ⟨l, m, hfilter⟩ : ∃ l m, h.keywords.filter (·.toList = k.1.toList) = l :: m :=
        List.exists_cons_of_ne_nil (List.ne_nil_of_mem (List.mem_filter.2 ⟨k.2, by simp⟩))
      have hblanks := takes_blanks (head_not_blank keywords hw (c :: rest))
        (front ++ k.1.toList) groups
      rw [List.singleton_append] at hblanks
      rw [First, ways_oneOf_blanks h.plainWord_of_mem hk.all_identifierChar (by decide), hfilter,
        List.flatMap_cons, hblanks]
      rfl
    · have hpasses := Cursor.passes_between front (k.1.toList ++ [' '])
        (printKeywords keywords ++ (w ++ c :: rest))
      have hlt := hpasses.offset_lt_iff.2 (by simp)
      simpa [List.append_assoc] using hlt

/-! #### Types and names -/

/-- Brackets begin with a character of their own. -/
lemma exists_cons_of_brackets (hu : Brackets u) (hne : u ≠ []) :
    ∃ d v, u = d :: v ∧ isWordChar d = false ∧ isBlank d = false ∧ d ∉ ['(', ';', '='] := by
  rcases hu with rfl | rfl | ⟨v, rfl, -⟩
  · exact absurd rfl hne
  · exact ⟨'[', [']'], rfl, by decide, by decide, by decide⟩
  · exact ⟨'<', v ++ ['>'], rfl, by decide, by decide, by decide⟩

/-- Behind the word of a type no word character comes. -/
lemma exists_cons_append_of_brackets (hu : Brackets u) (next : List Char) :
    ∃ d rest, u ++ ' ' :: next = d :: rest ∧ isWordChar d = false := by
  by_cases hne : u = []
  · exact ⟨' ', next, by rw [hne, List.nil_append], by decide⟩
  · obtain ⟨d, v, rfl, hd, -⟩ := exists_cons_of_brackets hu hne
    exact ⟨d, _, rfl, hd⟩

/-- The brackets of a type. -/
def typeBrackets : Pattern := either (lit "[]") (lit "<" ++ allBefore '>' 1 ++ lit ">")

lemma silentAt_typeBrackets (hsquare : c ≠ '[') (hangle : c ≠ '<') :
    typeBrackets.SilentAt (c :: rest) :=
  (silentAt_lit_of_ne rfl hsquare.symm).either
    (((silentAt_lit_of_ne rfl hangle.symm).append _).append _)

lemma takes_typeBrackets (hu : Brackets u) (hne : u ≠ []) (next : List Char) :
    typeBrackets.Takes u next := by
  intro front groups
  rw [typeBrackets, ways_either]
  rcases hu with rfl | rfl | ⟨v, rfl, hv, hclose⟩
  · exact absurd rfl hne
  · have hangle : (lit "<").SilentAt (['[', ']'] ++ next) := silentAt_lit_of_ne rfl (by decide)
    rw [(hangle.append _).append, List.append_nil]
    exact takes_lit "[]" next front groups
  · have hsquare : (lit "[]").SilentAt ('<' :: (v ++ ['>']) ++ next) :=
      silentAt_lit_of_ne rfl (by decide)
    have hinside : (allBefore '>' 1).Takes v ('>' :: next) := by
      refine takes_all (fun c hc => ?_) (List.length_pos_of_ne_nil hv) (by simp)
      have hne : c ≠ '>' := fun heq => hclose (heq ▸ hc)
      simpa using hne
    have hangle := ((takes_lit "<" (v ++ (">".toList ++ next))).append hinside).append
      (takes_lit ">" next)
    rw [hsquare, List.nil_append]
    have htext : "<".toList ++ v ++ ">".toList = '<' :: (v ++ ['>']) := by simp
    exact htext ▸ hangle front groups

lemma ways_named (hv : PlainWord v) (hc : isWordChar c = false) :
    h.named.ways ⟨.between front (v ++ c :: rest), groups⟩ =
      h.tail.ways ⟨.between (front ++ v) (c :: rest),
        (3, .between front v (c :: rest)) :: groups⟩ :=
  ways_append_of_eq ((takes_name hv (by simpa using hc)).ways_group 3 _ _)

/-- A type with brackets is read to their end, or else to the end of its word. -/
lemma ways_bracketedType (hw : PlainWord w) (hu : Brackets u) (hne : u ≠ []) (front back : List Char)
    (groups : List (Nat × Span)) :
    (group 2 Shape.memberType).ways ⟨.between front (w ++ (u ++ back)), groups⟩ =
      [⟨.between (front ++ (w ++ u)) back, (2, .between front (w ++ u) back) :: groups⟩,
        ⟨.between (front ++ w) (u ++ back), (2, .between front w (u ++ back)) :: groups⟩] := by
  have hname : name.Takes w (u ++ back) := by
    obtain ⟨d, v, rfl, hd, -⟩ := exists_cons_of_brackets hu hne
    exact takes_name hw (by simpa using hd)
  have hways : Shape.memberType.ways ⟨.between front (w ++ (u ++ back)), groups⟩ =
      (optional typeBrackets).ways ⟨.between (front ++ w) (u ++ back), groups⟩ :=
    hname.ways_append _ _ _
  rw [ways_group, hways, ways_optional, takes_typeBrackets hu hne]
  simp [Span.between, List.append_assoc]

/-- Behind the bare word of a type with brackets no blank comes. -/
lemma silentAt_blanks_of_brackets (hu : Brackets u) (hne : u ≠ []) (q : Pattern) (back : List Char) :
    (blanks ++ q).SilentAt (u ++ back) := by
  obtain ⟨d, v, rfl, -, hd, -⟩ := exists_cons_of_brackets hu hne
  exact (silentAt_all (by simpa using hd)).append _

/-- A type is read to the end of its brackets, since only there a blank comes next. -/
lemma ways_typed (hw : PlainWord w) (hu : Brackets u)
    (hnext : ∀ c ∈ next.head?, isBlank c = false) :
    h.typed.ways ⟨.between front (w ++ u ++ ' ' :: next), groups⟩ =
      h.named.ways ⟨.between (front ++ (w ++ u) ++ [' ']) next,
        (2, .between front (w ++ u) (' ' :: next)) :: groups⟩ := by
  have hblanks := (takes_blanks hnext).ways_append h.named (front ++ (w ++ u))
    ((2, .between front (w ++ u) (' ' :: next)) :: groups)
  by_cases hne : u = []
  · subst hne
    rw [List.append_nil] at hblanks ⊢
    have hname : name.Takes w (' ' :: next) := takes_name hw (by simp; decide)
    have htype : Shape.memberType.Takes w (' ' :: next) := by
      have hbrackets : typeBrackets.SilentAt (' ' :: next) :=
        silentAt_typeBrackets (by decide) (by decide)
      have happend := hname.append hbrackets.optional
      rwa [List.append_nil] at happend
    rw [typed, ways_append_of_eq (htype.ways_group 2 _ _)]
    exact hblanks
  · rw [typed, List.append_assoc, ways_append, ways_bracketedType hw hu hne, List.flatMap_cons,
      List.flatMap_singleton]
    exact (congrArg₂ (· ++ ·) hblanks (silentAt_blanks_of_brackets hu hne _ _ _ _)).trans
      (List.append_nil _)

/-! #### Heads that are there -/

/-- The groups of a head between two parts of a text. -/
def headGroups (front keywords type name back : List Char) : List (Nat × Span) :=
  [(3, .between (front ++ keywords ++ type ++ [' ']) name back),
    (2, .between (front ++ keywords) type (' ' :: (name ++ back))),
    (1, .between front keywords (type ++ ' ' :: (name ++ back)))]

/-- A head is matched from its first keyword on. -/
lemma first_pattern (keywords : Keywords h.keywords) (hw : PlainWord w) (hu : Brackets u)
    (hmem : String.ofList w ∉ h.keywords) (hv : PlainWord v) (hc : isWordChar c = false)
    (front : List Char) {t : Progress}
    (htail : h.tail.First
      ⟨.between (front ++ (printKeywords keywords ++ (w ++ u ++ ' ' :: v))) (c :: rest),
        headGroups front (printKeywords keywords) (w ++ u) v (c :: rest)⟩ t) :
    h.pattern.First
      ⟨.between front (printKeywords keywords ++ (w ++ u ++ ' ' :: v) ++ c :: rest), []⟩ t := by
  have hnext := hv.head_not_blank (c :: rest)
  -- the word of the type ends in front of a character outside words
  obtain ⟨d, rest', hrest, hd⟩ := exists_cons_append_of_brackets hu (v ++ c :: rest)
  have hkeywords := first_keywords keywords hw hmem hd front rest' []
  rw [← hrest, ← List.append_assoc w] at hkeywords
  have htyped : h.typed.First
      ⟨.between (front ++ printKeywords keywords) (w ++ u ++ ' ' :: (v ++ c :: rest)),
        [(1, .between front (printKeywords keywords) (w ++ u ++ ' ' :: (v ++ c :: rest)))]⟩ t := by
    rw [First, ways_typed hw hu hnext, ways_named hv hc]
    rw [First, headGroups] at htail
    simpa only [List.append_assoc, List.cons_append, List.nil_append] using htail
  have htext : printKeywords keywords ++ (w ++ u ++ ' ' :: v) ++ c :: rest =
      printKeywords keywords ++ (w ++ u ++ ' ' :: (v ++ c :: rest)) := by
    simp
  rw [htext]
  exact (hkeywords.group 1).append htyped

lemma first_printHead (keywords : Keywords h.keywords) (type : SimpleType) (name : Identifier)
    (hmem : String.ofList type.head.text ∉ h.keywords) (hc : isWordChar c = false)
    (front : List Char) {t : Progress}
    (htail : h.tail.First ⟨.between (front ++ printHead keywords type name) (c :: rest),
      headGroups front (printKeywords keywords) type.print name.text (c :: rest)⟩ t) :
    h.pattern.First ⟨.between front (printHead keywords type name ++ c :: rest), []⟩ t :=
  first_pattern keywords type.head.plainWord type.brackets_of_type hmem name.plainWord hc front htail

/-! #### Places without a head -/

/-- No type behind keywords at the front of a text leads to a match. -/
def Refused (h : HeadShape) (back : List Char) : Prop :=
  ∀ front groups, ∀ t ∈ (Shape.keywords h.keywords).ways ⟨.between front back, groups⟩,
    h.typed.SilentAt t.place.after

/-- Neither a head nor a name with its tail nor such a tail stands at the front of a text, which
does not begin with a blank. -/
structure Barren (h : HeadShape) (back : List Char) : Prop where
  refused : h.Refused back
  silentAt_named : h.named.SilentAt back
  begins : ∃ c rest, back = c :: rest ∧ isBlank c = false ∧ c ∉ h.openers

lemma Barren.head_not_blank (hback : h.Barren back) : ∀ c ∈ back.head?, isBlank c = false := by
  obtain ⟨c, rest, rfl, hblank, -⟩ := hback.begins
  simpa using hblank

lemma notMem_openers (hc : c ∉ ['(', ';', '=']) : c ∉ h.openers :=
  fun hmem => hc (h.openers_subset hmem)

lemma notMem_openers_of_identifierChar (hc : isIdentifierChar c = true) : c ∉ h.openers := by
  intro hmem
  have hcases := h.openers_subset hmem
  simp only [List.mem_cons, List.not_mem_nil, or_false] at hcases
  rcases hcases with rfl | rfl | rfl <;> revert hc <;> decide

/-- A text begins with one of its words. -/
lemma begins_of_plainWord (hw : PlainWord w) (back : List Char) :
    ∃ c rest, w ++ back = c :: rest ∧ isBlank c = false ∧ c ∉ h.openers := by
  obtain ⟨c, u, rfl, hc⟩ := hw.exists_cons
  exact ⟨c, _, rfl, isBlank_of_identifierChar hc, notMem_openers_of_identifierChar hc⟩

lemma Refused.silentAt (hback : h.Refused back) : h.pattern.SilentAt back := by
  intro front groups
  rw [pattern, ways_append_eq_nil_iff]
  intro t ht
  obtain ⟨r, hr, rfl⟩ := mem_ways_group.1 ht
  have hsilent := hback front groups r hr r.place.before.reverse
  rw [← Cursor.eq_between] at hsilent
  exact hsilent _

lemma refused_of_takes (hkeywords : (Shape.keywords h.keywords).Takes [] back)
    (htyped : h.typed.SilentAt back) : h.Refused back := by
  intro front groups t ht
  have hways := hkeywords front groups
  rw [List.nil_append, List.append_nil] at hways
  rw [hways, List.mem_singleton] at ht
  exact ht ▸ htyped

/-- No head begins at a character outside words. -/
lemma refused_of_not_word (hc : isWordChar c = false) : h.Refused (c :: rest) := by
  refine refused_of_takes (takes_no_keywords (w := []) h.plainWord_of_mem (by simp) hc
    (Or.inr (ofList_nil_notMem h.plainWord_of_mem)) rest) ?_
  exact (((silentAt_name hc).append _).group 2).append _

/-- Whether a character ends a word and does not go on with its type. -/
def isStop (c : Char) : Bool := !isWordChar c && !isBlank c && c != '[' && c != '<'

lemma isStop_iff : isStop c = true ↔
    ((isWordChar c = false ∧ isBlank c = false) ∧ c ≠ '[') ∧ c ≠ '<' := by
  simp [isStop]

/-- A type is refused when nothing stands behind it. -/
lemma refused_type (hw : PlainWord w) (hu : Brackets u) (hnext : h.Barren next) :
    h.Refused (w ++ u ++ ' ' :: next) := by
  have htyped : h.typed.SilentAt (w ++ u ++ ' ' :: next) := by
    intro front groups
    rw [ways_typed hw hu hnext.head_not_blank]
    exact hnext.silentAt_named _ _
  by_cases hne : u = []
  · subst hne
    rw [List.append_nil] at htyped ⊢
    intro front groups t ht
    rcases mem_ways_keywords hw hnext.head_not_blank ht with rfl | ⟨-, ht⟩
    · exact htyped
    · exact hnext.refused _ _ t ht
  · obtain ⟨d, v, rfl, hd, hblank, -⟩ := exists_cons_of_brackets hu hne
    rw [List.append_assoc] at htyped ⊢
    exact refused_of_takes
      (takes_no_keywords h.plainWord_of_mem hw.all_identifierChar hd (Or.inl hblank) _) htyped

/-- A type with brackets is refused when no blank stands behind it. -/
lemma refused_brackets (hw : PlainWord w) (hu : Brackets u) (hne : u ≠ []) (hc : isBlank c = false)
    (rest : List Char) : h.Refused (w ++ (u ++ c :: rest)) := by
  have htyped : h.typed.SilentAt (w ++ (u ++ c :: rest)) := by
    intro front groups
    have hblanks : (blanks ++ h.named).SilentAt (c :: rest) :=
      (silentAt_all (by simpa using hc)).append _
    rw [typed, ways_append, ways_bracketedType hw hu hne, List.flatMap_cons, List.flatMap_singleton,
      hblanks, silentAt_blanks_of_brackets hu hne, List.append_nil]
  obtain ⟨d, v, rfl, hd, hblank, -⟩ := exists_cons_of_brackets hu hne
  exact refused_of_takes
    (takes_no_keywords h.plainWord_of_mem hw.all_identifierChar hd (Or.inl hblank) _) htyped

/-- A word that ends in front of a character that cannot follow a type is refused. -/
lemma refused_end (hw : PlainWord w) (hc : isStop c = true) : h.Refused (w ++ c :: rest) := by
  obtain ⟨⟨⟨hword, hblank⟩, hsquare⟩, hangle⟩ := isStop_iff.1 hc
  refine refused_of_takes
    (takes_no_keywords h.plainWord_of_mem hw.all_identifierChar hword (Or.inl hblank) rest) ?_
  have htype : Shape.memberType.Takes (w ++ []) (c :: rest) :=
    (takes_name hw (by simpa using hword)).append (silentAt_typeBrackets hsquare hangle).optional
  have hblanks : blanks.SilentAt (c :: rest) := silentAt_all (by simpa using hblank)
  rw [List.append_nil] at htype
  intro front groups
  rw [typed, ways_append_of_eq (htype.ways_group 2 _ _)]
  exact (hblanks.append _) _ _

lemma silentAt_named_end (hv : PlainWord v) (hword : isWordChar c = false)
    (hblank : isBlank c = false) (hopen : c ∉ h.openers) : h.named.SilentAt (v ++ c :: rest) := by
  intro front groups
  rw [ways_named hv hword]
  exact (h.silentAt_tail c rest hblank hopen).1 _ _

lemma silentAt_named_space (hv : PlainWord v) (hc : isBlank c = false) (hopen : c ∉ h.openers) :
    h.named.SilentAt (v ++ ' ' :: c :: rest) := by
  intro front groups
  rw [ways_named hv (by decide)]
  exact (h.silentAt_tail c rest hc hopen).2 _ _

lemma Barren.type (hnext : h.Barren next) (hw : PlainWord w) (hu : Brackets u) :
    h.Barren (w ++ u ++ ' ' :: next) := by
  refine ⟨refused_type hw hu hnext, ?_, ?_⟩
  · rw [List.append_assoc]
    by_cases hne : u = []
    · obtain ⟨c, rest, rfl, hblank, hopen⟩ := hnext.begins
      rw [hne, List.nil_append]
      exact silentAt_named_space hw hblank hopen
    · obtain ⟨d, v, rfl, hd, hblank, hopen⟩ := exists_cons_of_brackets hu hne
      exact silentAt_named_end hw hd hblank (notMem_openers hopen)
  · rw [List.append_assoc]
    exact begins_of_plainWord hw _

lemma barren_end (hv : PlainWord v) (hc : isStop c = true) (hopen : c ∉ h.openers)
    (rest : List Char) : h.Barren (v ++ c :: rest) := by
  obtain ⟨⟨⟨hword, hblank⟩, -⟩, -⟩ := isStop_iff.1 hc
  exact ⟨refused_end hv hc, silentAt_named_end hv hword hblank hopen, begins_of_plainWord hv _⟩

lemma barren_of_not_word (hc : isStop c = true) (hopen : c ∉ h.openers) : h.Barren (c :: rest) := by
  obtain ⟨⟨⟨hword, hblank⟩, -⟩, -⟩ := isStop_iff.1 hc
  exact ⟨refused_of_not_word hword, ((silentAt_name hword).group 3).append _,
    ⟨c, rest, rfl, hblank, hopen⟩⟩

/-! #### Stretches without a head -/

lemma silent_singleton (hc : isWordChar c = false) : h.pattern.Silent [c] rest :=
  ⟨(refused_of_not_word hc).silentAt, trivial⟩

lemma silent_end (hw : PlainWord w) (hc : isStop c = true) : h.pattern.Silent w (c :: rest) :=
  silent_word (fun _ hw' => (refused_end hw' hc).silentAt) hw

/-- Words in a list are passed over. -/
lemma silent_commaList {texts : List (List Char)}
    (htexts : ∀ text ∈ texts, ∀ d rest, d = c ∨ d = ',' → h.pattern.Silent text (d :: rest)) :
    h.pattern.Silent (commaList texts) (c :: rest) := by
  induction texts using commaList.induct with
  | case1 => trivial
  | case2 text => exact htexts text (by simp) c rest (Or.inl rfl)
  | case3 text next more ih =>
    have htail : h.pattern.Silent (commaList (next :: more)) (c :: rest) :=
      ih fun text' hmem => htexts text' (List.mem_cons_of_mem _ hmem)
    have hcomma := (silent_singleton (h := h) (c := ',') (by decide)).append
      ((silent_singleton (c := ' ') (by decide)).append htail)
    exact (htexts text (by simp) ',' _ (Or.inr rfl)).append hcomma

/-- Brackets of a type are passed over. -/
lemma silent_brackets (type : SimpleType) : h.pattern.Silent type.brackets (' ' :: next) := by
  cases type with
  | plain name => trivial
  | array element => exact ⟨(refused_of_not_word (by decide)).silentAt, silent_singleton (by decide)⟩
  | generic name first more =>
    have harguments : h.pattern.Silent (commaList ((first :: more).map (·.text)))
        ('>' :: ' ' :: next) := by
      refine silent_commaList fun text hmem d rest hd => ?_
      obtain ⟨part, -, rfl⟩ := List.mem_map.1 hmem
      rcases hd with rfl | rfl
      · exact silent_end part.plainWord (by decide)
      · exact silent_end part.plainWord (by decide)
    exact ⟨(refused_of_not_word (by decide)).silentAt,
      harguments.append (silent_singleton (by decide))⟩

/-- A type in front of a place without a head is passed over. -/
lemma Barren.silent_type (hnext : h.Barren next) (type : SimpleType) :
    h.pattern.Silent type.print (' ' :: next) := by
  refine Silent.append ?_ (silent_brackets type)
  refine silent_word (fun w hw => ?_) type.head.plainWord
  rw [← List.append_assoc]
  exact (refused_type hw type.brackets_of_type hnext).silentAt

lemma Barren.silent_word (hnext : h.Barren next) (hw : PlainWord w) :
    h.pattern.Silent w (' ' :: next) := by
  refine Pattern.silent_word (fun w' hw' => ?_) hw
  have hrefused := refused_type hw' (u := []) (Or.inl rfl) hnext
  rw [List.append_nil] at hrefused
  exact hrefused.silentAt

lemma Barren.word (hnext : h.Barren next) (hw : PlainWord w) : h.Barren (w ++ ' ' :: next) := by
  have htype := hnext.type hw (u := []) (Or.inl rfl)
  rwa [List.append_nil] at htype

/-- Words with spaces behind them lead to no head when the text behind them does not. -/
lemma Barren.keywords {allowed : List String} (hallowed : ∀ k ∈ allowed, PlainWord k.toList)
    (hnext : h.Barren next) (keywords : Keywords allowed) :
    h.pattern.Silent (printKeywords keywords) next ∧
      h.Barren (printKeywords keywords ++ next) := by
  induction keywords with
  | nil => exact ⟨trivial, hnext⟩
  | cons k keywords ih =>
    obtain ⟨hsilent, hbarren⟩ := ih
    have hk := hallowed _ k.2
    have hprint : printKeywords (k :: keywords) = k.1.toList ++ ([' '] ++ printKeywords keywords) := by
      simp [printKeywords]
    rw [hprint, List.append_assoc, List.append_assoc]
    exact ⟨(hbarren.silent_word hk).append ((silent_singleton (by decide)).append hsilent),
      hbarren.word hk⟩

lemma silent_of_not_word (hu : u.any isWordChar = false) : h.pattern.Silent u back := by
  induction u with
  | nil => trivial
  | cons c u ih =>
    rw [List.any_cons, Bool.or_eq_false_iff] at hu
    exact ⟨(refused_of_not_word hu.1).silentAt, ih hu.2⟩

/-- A type and a name are passed over when the tail does not begin behind the name. -/
lemma silent_typed (type : SimpleType) (name : Identifier) (hc : isStop c = true)
    (hopen : c ∉ h.openers) (rest : List Char) :
    h.pattern.Silent (type.print ++ ' ' :: name.text) (c :: rest) := by
  have hbarren := barren_end name.plainWord hc hopen rest
  exact (hbarren.silent_type type).append
    ((silent_singleton (by decide)).append (silent_end name.plainWord hc))

/-- A printed head of any kind is passed over when the tail does not begin behind it. -/
lemma silent_head {allowed : List String} (hallowed : ∀ k ∈ allowed, PlainWord k.toList)
    (keywords : Keywords allowed) (type : SimpleType) (name : Identifier) (hc : isStop c = true)
    (hopen : c ∉ h.openers) : h.pattern.Silent (printHead keywords type name) (c :: rest) := by
  have hbarren := barren_end name.plainWord hc hopen rest
  have htyped := silent_typed type name hc hopen rest
  have hkeywords := (hbarren.type type.head.plainWord type.brackets_of_type).keywords hallowed
    keywords
  refine Silent.append ?_ htyped
  simpa [SimpleType.print] using hkeywords.1

/-- Printed parameters are passed over. -/
lemma silent_parameters (parameters : List Canonical.Parameter) (hclose : ')' ∉ h.openers)
    (hcomma : ',' ∉ h.openers) : h.pattern.Silent (printParameters parameters) (')' :: rest) := by
  refine silent_commaList fun text hmem d rest hd => ?_
  obtain ⟨parameter, -, rfl⟩ := List.mem_map.1 hmem
  rcases hd with rfl | rfl
  · exact silent_typed parameter.type parameter.name (by decide) hclose rest
  · exact silent_typed parameter.type parameter.name (by decide) hcomma rest

/-- No head stands at the end of a text. -/
lemma silentAt_nil : h.pattern.SilentAt [] := by
  refine Refused.silentAt fun front groups t ht => ?_
  obtain ⟨u, hpasses⟩ := passes_of_mem_ways ht
  have hafter : t.place.after = [] := (List.append_eq_nil_iff.1 hpasses.after_eq.symm).2
  have hname : name.SilentAt [] := silentAt_all (by simp)
  rw [hafter]
  exact ((hname.append _).group 2).append _

end HeadShape

end Survey
