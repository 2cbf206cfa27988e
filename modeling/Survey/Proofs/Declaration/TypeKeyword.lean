/-
# The type that a unit shows

A unit has a type exactly when its text shows the keyword of a kind: a word begins there, it is
`class`, `interface` or `enum`, and blanks and a word character stand behind it.  The keyword that
stands furthest left gives the kind, the whole word behind it gives the name, and the match begins
where the longest chain of modifiers begins that leads to the keyword.

Nothing behind the name can change this, since all of it may be left out.  In front of the keyword
a match can only begin at a chain of modifiers, and no chain goes past a keyword
(`LeadsTo.eq_nil_of_shows`).
-/
import Mathlib.Order.Minimal
import Survey.Proofs.Declaration.KeywordChains
import Survey.Proofs.Declaration.RoundTrip

namespace Survey

open Survey.Text Survey.Pattern Survey.Canonical

/-! ### Keywords and the chains in front of them -/

/-- Between two parts of a text a word begins, and it is the keyword of a kind with blanks and a
word character behind it. -/
structure ShowsKind (front back : List Char) (kind : TypeKind) : Prop where
  boundary : (Cursor.between front back).isWordBoundary = true
  exists_gap : ∃ gap rest, back = kind.keyword.toList ++ (gap ++ rest) ∧ IsGap gap ∧
    touchesWord rest = true

/-- Somewhere in a text there is the keyword of a kind. -/
def ShowsType (text : List Char) : Prop :=
  ∃ front back kind, text = front ++ back ∧ ShowsKind front back kind

/-- Behind the first part of a text a word begins, and a chain of modifiers leads from there to the
last part. -/
structure LeadsTo (before : List Char) (words : List String) (chain back : List Char) : Prop where
  isChain : KeywordChain typeModifiers words chain
  boundary : (Cursor.between before (chain ++ back)).isWordBoundary = true

/-- The head of a type in a text: the keyword that stands furthest left, the longest chain of
modifiers that leads to it, and the whole word behind its blanks. -/
structure TypeHead (text : List Char) where
  before : List Char
  modifiers : List String
  chain : List Char
  kind : TypeKind
  gap : List Char
  name : List Char
  rest : List Char
  text_eq : text = before ++ (chain ++ (kind.keyword.toList ++ (gap ++ (name ++ rest))))
  isGap : IsGap gap
  isName : WordText name
  name_stops : touchesWord rest = false
  shows : ShowsKind (before ++ chain) (kind.keyword.toList ++ (gap ++ (name ++ rest))) kind
  first : ∀ front back kind', text = front ++ back → ShowsKind front back kind' →
    (before ++ chain).length ≤ front.length
  leads : LeadsTo before modifiers chain (kind.keyword.toList ++ (gap ++ (name ++ rest)))
  longest : ∀ before' words chain', before' ++ chain' = before ++ chain →
    LeadsTo before' words chain' (kind.keyword.toList ++ (gap ++ (name ++ rest))) →
    chain'.length ≤ chain.length

lemma plainWord_keyword (kind : TypeKind) : PlainWord kind.keyword.toList := by
  cases kind
  · exact plainWord_of_declarationKeywords "class" (by decide)
  · exact plainWord_of_declarationKeywords "interface" (by decide)
  · exact plainWord_of_declarationKeywords "enum" (by decide)

lemma keyword_notMem_typeModifiers (kind : TypeKind) : kind.keyword ∉ typeModifiers := by
  cases kind <;> decide

/-- Two parts of a text that touch with word characters have no boundary between them. -/
lemma isWordBoundary_of_touchesWord {front back : List Char} (hback : touchesWord back = true) :
    (Cursor.between front back).isWordBoundary = true ↔ touchesWord front.reverse = false := by
  rw [Cursor.isWordBoundary, Cursor.before_between, Cursor.after_between, hback]
  simp

lemma touchesWord_keyword (kind : TypeKind) (back : List Char) :
    touchesWord (kind.keyword.toList ++ back) = true :=
  (WordText.of_plainWord (plainWord_keyword kind)).touchesWord_append back

namespace ShowsKind

variable {front back : List Char} {kind : TypeKind}

lemma touchesWord_back (h : ShowsKind front back kind) : touchesWord back = true := by
  obtain ⟨gap, rest, rfl, -⟩ := h.exists_gap
  exact touchesWord_keyword kind _

lemma touchesWord_front (h : ShowsKind front back kind) : touchesWord front.reverse = false :=
  (isWordBoundary_of_touchesWord h.touchesWord_back).1 h.boundary

end ShowsKind

namespace LeadsTo

variable {before chain back v : List Char} {words : List String} {kind : TypeKind}

/-- A word begins behind a chain too. -/
lemma touchesWord_front (h : LeadsTo before words chain back) (hback : touchesWord back = true) :
    touchesWord (before ++ chain).reverse = false := by
  by_cases hchain : chain = []
  · subst hchain
    rw [List.append_nil]
    exact (isWordBoundary_of_touchesWord hback).1 h.boundary
  · exact h.isChain.touchesWord_reverse hchain before

/-- No chain goes past the keyword of a kind. -/
lemma eq_nil_of_shows (h : LeadsTo before words (v ++ chain) back)
    (hshows : ShowsKind (before ++ v) (chain ++ back) kind) : chain = [] := by
  by_contra hne
  have hbehind : touchesWord chain = true := by
    obtain ⟨c, u, rfl⟩ := List.exists_cons_of_ne_nil hne
    exact hshows.touchesWord_back
  have hbefore := touchesWord_reverse_append hshows.touchesWord_front
  -- a modifier would begin where the keyword does
  obtain ⟨word, hword, gap, rest, hgap, hchain⟩ :=
    h.isChain.exists_keyword plainWord_of_typeModifiers rfl hbefore hbehind
  obtain ⟨gap', rest', hback, hgap', -⟩ := hshows.exists_gap
  rw [hchain, List.append_assoc, List.append_assoc] at hback
  have hsame := (eq_of_append_gap (.of_plainWord (plainWord_of_typeModifiers word hword))
    (.of_plainWord (plainWord_keyword kind)) hgap hgap' hback).1
  exact keyword_notMem_typeModifiers kind (String.toList_inj.1 hsame ▸ hword)

end LeadsTo

/-! ### Where a match begins -/

/-- A way of the shape of types begins with a chain of modifiers that leads to a keyword. -/
lemma exists_keyword_of_mem_ways {front back : List Char} {groups : List (Nat × Span)} {t : Progress}
    (h : t ∈ Shape.typeDeclaration.ways ⟨.between front back, groups⟩) :
    ∃ words chain rest kind, back = chain ++ rest ∧ LeadsTo front words chain rest ∧
      ShowsKind (front ++ chain) rest kind := by
  rw [typeDeclaration_eq] at h
  obtain ⟨r₁, h₁, -⟩ := mem_ways_seq.1 h
  obtain ⟨r₂, h₂, -⟩ := mem_ways_seq.1 h₁
  obtain ⟨r₃, h₃, -⟩ := mem_ways_seq.1 h₂
  obtain ⟨r₄, h₄, hname⟩ := mem_ways_seq.1 h₃
  obtain ⟨r₅, h₅, hblanks⟩ := mem_ways_seq.1 h₄
  obtain ⟨r₆, h₆, hkind⟩ := mem_ways_seq.1 h₅
  obtain ⟨r₇, hstart, hmodifiers⟩ := mem_ways_seq.1 h₆
  obtain ⟨hboundary, rfl⟩ := mem_ways_wordBoundary.1 hstart
  obtain ⟨q₁, hchain, rfl⟩ := mem_ways_group.1 hmodifiers
  obtain ⟨words, chain, hchain, hpasses⟩ := exists_chain_of_mem_ways hchain
  obtain ⟨q₂, hkeyword, rfl⟩ := mem_ways_group.1 hkind
  obtain ⟨word, hword, hlit⟩ := mem_ways_oneOf.1 hkeyword
  obtain ⟨hover, -⟩ := mem_ways_word.1 hlit
  obtain ⟨gap, hgap, hblank, hleast, -⟩ := mem_ways_all.1 hblanks
  obtain ⟨q₃, hletters, rfl⟩ := mem_ways_group.1 hname
  obtain ⟨name, hnamed, hletter, hone, -⟩ := mem_ways_all.1 hletters
  obtain ⟨kind, rfl⟩ : ∃ kind : TypeKind, word = kind.keyword := by
    simp only [Shape.declarationKeywords, List.mem_cons, List.not_mem_nil, or_false] at hword
    rcases hword with rfl | rfl | rfl
    · exact ⟨.classType, rfl⟩
    · exact ⟨.interfaceType, rfl⟩
    · exact ⟨.enumType, rfl⟩
  have hback := hpasses.after_eq
  have hrest := hover.after_eq
  rw [hgap.after_eq, hnamed.after_eq] at hrest
  simp only [Cursor.after_between] at hback
  have hleads : LeadsTo front words chain q₁.place.after := ⟨hchain, hback ▸ hboundary⟩
  have htouches : touchesWord q₁.place.after = true := by
    rw [hrest]
    exact touchesWord_keyword kind _
  refine ⟨words, chain, q₁.place.after, kind, hback, hleads, ⟨?_, gap, _, hrest,
    ⟨List.ne_nil_of_length_pos hleast, hblank⟩, ?_⟩⟩
  · exact (isWordBoundary_of_touchesWord htouches).2 (hleads.touchesWord_front htouches)
  · obtain ⟨c, u, rfl⟩ := List.exists_cons_of_ne_nil (List.ne_nil_of_length_pos hone)
    exact hletter c (by simp)

lemma takes_keyword (kind : TypeKind) (back : List Char) :
    (oneOf Shape.declarationKeywords).Takes kind.keyword.toList back := by
  intro front groups
  rw [ways_oneOf, Shape.declarationKeywords]
  cases kind with
  | classType =>
    have hinterface : (lit "interface").SilentAt ("class".toList ++ back) :=
      silentAt_lit_of_ne rfl (by decide)
    have henum : (lit "enum").SilentAt ("class".toList ++ back) :=
      silentAt_lit_of_ne rfl (by decide)
    simp only [TypeKind.keyword, List.flatMap_cons, List.flatMap_nil, hinterface front groups,
      henum front groups, takes_lit "class" back front groups, List.append_nil]
  | interfaceType =>
    have hclass : (lit "class").SilentAt ("interface".toList ++ back) :=
      silentAt_lit_of_ne rfl (by decide)
    have henum : (lit "enum").SilentAt ("interface".toList ++ back) :=
      silentAt_lit_of_ne rfl (by decide)
    simp only [TypeKind.keyword, List.flatMap_cons, List.flatMap_nil, hclass front groups,
      henum front groups, takes_lit "interface" back front groups, List.append_nil, List.nil_append]
  | enumType =>
    have hclass : (lit "class").SilentAt ("enum".toList ++ back) :=
      silentAt_lit_of_ne rfl (by decide)
    have hinterface : (lit "interface").SilentAt ("enum".toList ++ back) :=
      silentAt_lit_of_ne rfl (by decide)
    simp only [TypeKind.keyword, List.flatMap_cons, List.flatMap_nil, hclass front groups,
      hinterface front groups, takes_lit "enum" back front groups, List.append_nil, List.nil_append]

/-- A part that may be left out never stops a match, and it leaves what is found under numbers that
it does not use. -/
lemma exists_first_optional_lookup (p : Pattern) (s : Progress) :
    ∃ t, (optional p).First s t ∧
      ∀ n, p.parts n = [] → t.groups.lookup n = s.groups.lookup n := by
  obtain ⟨t, ht⟩ := exists_first_optional p s
  exact ⟨t, ht, fun n hparts => lookup_groups_of_mem_ways (List.mem_of_mem_head? ht) hparts⟩

namespace TypeHead

variable {text : List Char} (h : TypeHead text)

/-- What stands behind the modifiers of a head. -/
abbrev behind : List Char := h.kind.keyword.toList ++ (h.gap ++ (h.name ++ h.rest))

/-- The head is matched from the beginning of its modifiers. -/
lemma exists_matchAt? : ∃ m,
    Shape.typeDeclaration.matchAt? (.between h.before (h.chain ++ h.behind)) = some m ∧
      m.groupText 1 = h.chain ∧ m.groupText 2 = h.kind.keyword.toList ∧
      m.groupText 3 = h.name := by
  have hname := h.isName.touchesWord_append h.rest
  have hstops := head_not_wordChar_of_touchesWord h.name_stops
  have hboundary : wordBoundary.First ⟨.between h.before (h.chain ++ h.behind), []⟩ _ :=
    first_of_ways_eq ((ways_wordBoundary _).trans (if_pos h.leads.boundary))
  have hkeyword : String.ofList h.kind.keyword.toList ∉ typeModifiers := by
    rw [String.ofList_toList]
    exact keyword_notMem_typeModifiers h.kind
  have hchain := (h.leads.isChain.first plainWord_of_typeModifiers
    (.of_plainWord (plainWord_keyword h.kind)) h.isGap hkeyword h.before (h.name ++ h.rest) []).group 1
  have hkind := (takes_keyword h.kind (h.gap ++ (h.name ++ h.rest))).first_group 2
    (h.before ++ h.chain) [(1, .between h.before h.chain h.behind)]
  have hblanks := (h.isGap.takes_blanks (head_not_blank_of_touchesWord hname)).first
    (h.before ++ h.chain ++ h.kind.keyword.toList)
    [(2, .between (h.before ++ h.chain) h.kind.keyword.toList (h.gap ++ (h.name ++ h.rest))),
      (1, .between h.before h.chain h.behind)]
  have hnamed := (takes_all h.isName.all_wordChar h.isName.length_pos
    hstops).first_group 3 (h.before ++ h.chain ++ h.kind.keyword.toList ++ h.gap)
    [(2, .between (h.before ++ h.chain) h.kind.keyword.toList (h.gap ++ (h.name ++ h.rest))),
      (1, .between h.before h.chain h.behind)]
  have hhead : classHead.First _ _ :=
    (((hboundary.append hchain).append hkind).append hblanks).append hnamed
  -- everything behind the name is optional, and it has groups of its own
  obtain ⟨t₁, h₁, hlookup₁⟩ := exists_first_optional_lookup Shape.typeArguments
    ⟨.between (h.before ++ h.chain ++ h.kind.keyword.toList ++ h.gap ++ h.name) h.rest,
      [(3, .between (h.before ++ h.chain ++ h.kind.keyword.toList ++ h.gap) h.name h.rest),
        (2, .between (h.before ++ h.chain) h.kind.keyword.toList (h.gap ++ (h.name ++ h.rest))),
        (1, .between h.before h.chain h.behind)]⟩
  obtain ⟨t₂, h₂, hlookup₂⟩ := exists_first_optional_lookup extendsClause t₁
  obtain ⟨t₃, h₃, hlookup₃⟩ := exists_first_optional_lookup implementsClause t₂
  have hmatch := matchAt?_of_first (((hhead.append h₁).append h₂).append h₃)
  rw [← typeDeclaration_eq] at hmatch
  refine ⟨_, hmatch, ?_, ?_, ?_⟩
  · rw [Match.groupText, Match.group?, hlookup₃ 1 rfl, hlookup₂ 1 rfl, hlookup₁ 1 rfl]
    exact Span.text_between _ _ _
  · rw [Match.groupText, Match.group?, hlookup₃ 2 rfl, hlookup₂ 2 rfl, hlookup₁ 2 rfl]
    exact Span.text_between _ _ _
  · rw [Match.groupText, Match.group?, hlookup₃ 3 rfl, hlookup₂ 3 rfl, hlookup₁ 3 rfl]
    exact Span.text_between _ _ _

/-- No match begins in front of the modifiers. -/
lemma skips_before : Shape.typeDeclaration.Skips [] h.before (h.chain ++ h.behind) := by
  refine skips_of_forall fun u v hbefore hne => ?_
  rw [List.eq_nil_iff_forall_not_mem]
  intro t ht
  rw [List.nil_append] at ht
  obtain ⟨words, chain, rest, kind, hback, hleads, hshows⟩ := exists_keyword_of_mem_ways ht
  have htext : text = (u ++ chain) ++ rest := by
    rw [h.text_eq, hbefore, List.append_assoc, List.append_assoc, ← hback]
  -- the chain of the match is at least as long as the way to the first keyword
  have hfirst := h.first _ _ kind htext hshows
  simp only [hbefore, List.append_assoc, List.length_append] at hfirst
  obtain ⟨more, rfl, hbehind⟩ : ∃ more, chain = (v ++ h.chain) ++ more ∧ h.behind = more ++ rest := by
    rw [← List.append_assoc] at hback
    rcases List.append_eq_append_iff.1 hback with ⟨more, hchain, hrest⟩ | ⟨more, hchain, hrest⟩
    · exact ⟨more, hchain, hrest⟩
    · have hnil : more = [] := by
        have hlength := congrArg List.length hchain
        simp only [List.length_append] at hlength
        exact List.eq_nil_of_length_eq_zero (by omega)
      subst hnil
      exact ⟨[], by simpa using hchain.symm, by simpa using hrest.symm⟩
  have hshows' : ShowsKind (u ++ (v ++ h.chain)) (more ++ rest) h.kind := by
    have hkeyword := h.shows
    rwa [← hbehind, ← List.append_assoc, ← hbefore]
  obtain rfl := hleads.eq_nil_of_shows hshows'
  rw [List.append_nil] at hleads
  rw [List.nil_append] at hbehind
  rw [← hbehind] at hleads
  have hlongest := h.longest u words (v ++ h.chain) (by rw [hbefore, List.append_assoc]) hleads
  have hpos := List.length_pos_of_ne_nil hne
  rw [List.length_append] at hlongest
  omega

/-- The head is what the search for a type finds. -/
lemma exists_find? : ∃ m, Shape.typeDeclaration.find? text = some m ∧
    m.start = byteLength h.before ∧ m.groupText 1 = h.chain ∧
    m.groupText 2 = h.kind.keyword.toList ∧ m.groupText 3 = h.name := by
  obtain ⟨m, hmatch, hgroups⟩ := h.exists_matchAt?
  have hfind := (findFrom?_of_skips h.skips_before).trans (findFrom?_of_matchAt? hmatch)
  rw [← h.text_eq] at hfind
  have hstart : m.whole.start = _ := (passes_of_matchAt? hmatch).1
  exact ⟨m, hfind, by rw [Match.start, hstart]; rfl, hgroups⟩

end TypeHead

/-! ### Texts with and without a head -/

/-- A text that shows a type has a head. -/
lemma nonempty_typeHead {text : List Char} (h : ShowsType text) : Nonempty (TypeHead text) := by
  obtain ⟨front₀, back₀, kind₀, htext₀, hshows₀⟩ := h
  -- the keyword that stands furthest left
  obtain ⟨⟨front, back, kind⟩, ⟨htext, hshows⟩, hfirst⟩ := exists_minimalFor_of_wellFoundedLT
    (fun p : List Char × List Char × TypeKind =>
      text = p.1 ++ p.2.1 ∧ ShowsKind p.1 p.2.1 p.2.2)
    (fun p => p.1.length) ⟨(front₀, back₀, kind₀), htext₀, hshows₀⟩
  -- the chain that begins furthest left
  obtain ⟨⟨before, words, chain⟩, ⟨hfront, hleads⟩, hlongest⟩ := exists_minimalFor_of_wellFoundedLT
    (fun p : List Char × List String × List Char =>
      p.1 ++ p.2.2 = front ∧ LeadsTo p.1 p.2.1 p.2.2 back)
    (fun p => p.1.length) ⟨(front, [], []), by simp, .nil, by simpa using hshows.boundary⟩
  simp only at htext hshows hfirst hfront hleads hlongest
  subst hfront
  obtain ⟨gap, more, rfl, hgap, hmore⟩ := hshows.exists_gap
  obtain ⟨name, rest, rfl, hname, hstops⟩ := Cursor.exists_stop isWordChar more
  refine ⟨⟨before, words, chain, kind, gap, name, rest, by rw [htext, List.append_assoc], hgap,
    ⟨?_, hname⟩, ?_, hshows, ?_, hleads, ?_⟩⟩
  · rintro rfl
    cases rest with
    | nil => simp at hmore
    | cons c rest =>
      have hc := hstops c rfl
      rw [List.nil_append, touchesWord_cons, hc] at hmore
      simp at hmore
  · cases rest with
    | nil => rfl
    | cons c rest => exact hstops c rfl
  · intro front' back' kind' htext' hshows'
    exact (le_total _ _).elim id fun hle => hfirst (j := (front', back', kind')) ⟨htext', hshows'⟩ hle
  · intro before' words' chain' hsame hleads'
    have hle : before.length ≤ before'.length := (le_total _ _).elim id fun hle =>
      hlongest (j := (before', words', chain')) ⟨hsame, hleads'⟩ hle
    have hlength := congrArg List.length hsame
    rw [List.length_append, List.length_append] at hlength
    omega

namespace TypeDeclaration

/-- A unit with a head is read, from the match that begins with the head. -/
lemma exists_parse {source : String} (head : TypeHead source.toList) (path : String) : ∃ m,
    Shape.typeDeclaration.find? source.toList = some m ∧ m.start = byteLength head.before ∧
      m.groupText 1 = head.chain ∧ m.groupText 3 = head.name ∧
      parse source path = .ok (ofMatch source.toList path head.kind m) := by
  obtain ⟨m, hfind, hstart, hchain, hkind, hname⟩ := head.exists_find?
  refine ⟨m, hfind, hstart, hchain, hname, ?_⟩
  simp only [parse, hfind, hkind, String.ofList_toList, TypeKind.ofKeyword?_keyword]

end TypeDeclaration

end Survey
