/-
# Words in their places

A place of a word is a text in three parts: what stands in front of the word, the word, and what
stands behind it.  `WordPlace.listAll` goes over a text once and lists the places of its whole words;
it lists each of them, nothing else, and in the order of the text (`mem_listAll`,
`pairwise_listAll`).
-/
import Survey.Proofs.Declaration.KeywordChains

namespace Survey

open Survey.Text

/-- A word of a text with what stands in front of it and behind it. -/
structure WordPlace where
  /-- The text in front of the word. -/
  front : List Char
  /-- The word. -/
  word : List Char
  /-- The text behind the word. -/
  back : List Char
deriving DecidableEq, Repr

namespace WordPlace

/-- The word as a name. -/
def name (p : WordPlace) : String := String.ofList p.word

/-- The word is a longest run of word characters: none stands directly in front of it or behind
it. -/
structure IsWhole (p : WordPlace) : Prop where
  isWord : WordText p.word
  front_stops : touchesWord p.front.reverse = false
  back_stops : touchesWord p.back = false

/-- The word that begins between two parts of a text, if one begins there. -/
def between? (front back : List Char) : Option WordPlace :=
  if touchesWord front.reverse = false ∧ touchesWord back = true then
    some ⟨front, back.takeWhile isWordChar, back.dropWhile isWordChar⟩
  else none

/-- The words that begin behind a part of a text, from left to right. -/
def listFrom (front : List Char) : List Char → List WordPlace
  | [] => []
  | c :: rest => (between? front (c :: rest)).toList ++ listFrom (front ++ [c]) rest

/-- The words of a text, from left to right. -/
def listAll (text : List Char) : List WordPlace := listFrom [] text

variable {p : WordPlace} {front back u v w : List Char} {c : Char}

lemma between?_of_touchesWord (h : touchesWord front.reverse = true) :
    between? front back = none :=
  if_neg fun hboth => by simp [h] at hboth

lemma between?_of_not_touchesWord (h : touchesWord back = false) : between? front back = none :=
  if_neg fun hboth => by simp [h] at hboth

/-- At the place of a whole word that word begins. -/
lemma between?_of_isWhole (h : p.IsWhole) : between? p.front (p.word ++ p.back) = some p := by
  obtain ⟨htake, hdrop⟩ := Cursor.takeWhile_append_stop h.isWord.all_wordChar
    (head_not_wordChar_of_touchesWord h.back_stops)
  rw [between?, if_pos ⟨h.front_stops, h.isWord.touchesWord_append p.back⟩, htake, hdrop]

lemma between?_eq_some_iff : between? front back = some p ↔
    p.front = front ∧ back = p.word ++ p.back ∧ p.IsWhole := by
  constructor
  · intro h
    rw [between?] at h
    split at h
    · rename_i hstops
      obtain ⟨w, rest, rfl, hw, hrest⟩ := Cursor.exists_stop isWordChar back
      obtain ⟨htake, hdrop⟩ := Cursor.takeWhile_append_stop hw hrest
      rw [htake, hdrop] at h
      obtain rfl := Option.some.inj h
      have hback : touchesWord rest = false := by
        cases rest with
        | nil => rfl
        | cons c rest => exact hrest c rfl
      refine ⟨rfl, rfl, ⟨?_, hw⟩, hstops.1, hback⟩
      rintro rfl
      rw [List.nil_append, hback] at hstops
      cases hstops.2
    · cases h
  · rintro ⟨rfl, rfl, h⟩
    exact between?_of_isWhole h

/-- The list holds the whole words that begin behind the first part, and nothing else. -/
lemma mem_listFrom : p ∈ listFrom front back ↔
    ∃ u, p.front = front ++ u ∧ back = u ++ (p.word ++ p.back) ∧ p.IsWhole := by
  induction back generalizing front with
  | nil =>
    refine ⟨fun h => absurd h List.not_mem_nil, fun ⟨u, _, hback, h⟩ => ?_⟩
    have hnil := (List.append_eq_nil_iff.1 (List.append_eq_nil_iff.1 hback.symm).2).1
    exact absurd hnil h.isWord.ne_nil
  | cons c rest ih =>
    rw [listFrom, List.mem_append, Option.mem_toList, between?_eq_some_iff, ih]
    constructor
    · rintro (⟨hfront, hback, h⟩ | ⟨u, hfront, hback, h⟩)
      · exact ⟨[], by rw [hfront, List.append_nil], hback, h⟩
      · exact ⟨c :: u, by rw [hfront, List.append_assoc]; rfl, by rw [hback]; rfl, h⟩
    · rintro ⟨u, hfront, hback, h⟩
      cases u with
      | nil => exact Or.inl ⟨by rw [hfront, List.append_nil], hback, h⟩
      | cons d u =>
        obtain ⟨rfl, hrest⟩ := List.cons.inj hback
        exact Or.inr ⟨u, by rw [hfront, List.append_assoc]; rfl, hrest, h⟩

lemma mem_listAll {text : List Char} : p ∈ listAll text ↔
    text = p.front ++ (p.word ++ p.back) ∧ p.IsWhole := by
  rw [listAll, mem_listFrom]
  constructor
  · rintro ⟨u, hfront, htext, h⟩
    exact ⟨by rw [hfront, List.nil_append]; exact htext, h⟩
  · rintro ⟨htext, h⟩
    exact ⟨p.front, rfl, htext, h⟩

/-- The list goes from left to right. -/
lemma pairwise_listFrom (front back : List Char) :
    (listFrom front back).Pairwise fun p q => p.front.length < q.front.length := by
  induction back generalizing front with
  | nil => exact .nil
  | cons c rest ih =>
    refine List.pairwise_append.2 ⟨?_, ih _, fun p hp q hq => ?_⟩
    · cases between? front (c :: rest) with
      | none => exact .nil
      | some p => exact List.pairwise_singleton _ _
    · obtain ⟨hp, -⟩ := between?_eq_some_iff.1 (Option.mem_toList.1 hp)
      obtain ⟨u, hq, -⟩ := mem_listFrom.1 hq
      rw [hp, hq, List.length_append, List.length_append, List.length_singleton]
      omega

lemma pairwise_listAll (text : List Char) :
    (listAll text).Pairwise fun p q => p.front.length < q.front.length :=
  pairwise_listFrom [] text

/-! ### Stretches of a text -/

/-- Over a stretch in which no word of a kind begins, the list of these words is the one behind
it. -/
lemma filter_listFrom_append (kind : WordPlace → Bool) (front w back : List Char)
    (h : ∀ u v, w = u ++ v → v ≠ [] →
      ∀ p, between? (front ++ u) (v ++ back) = some p → kind p = false) :
    (listFrom front (w ++ back)).filter kind = (listFrom (front ++ w) back).filter kind := by
  induction w generalizing front with
  | nil => rw [List.nil_append, List.append_nil]
  | cons c w ih =>
    have hhead : (between? front (c :: (w ++ back))).toList.filter kind = [] := by
      refine List.filter_eq_nil_iff.2 fun p hp => ?_
      have hnot := h [] (c :: w) rfl (List.cons_ne_nil c w) p
      rw [List.append_nil] at hnot
      simp [hnot (Option.mem_toList.1 hp)]
    have hrest := ih (front ++ [c]) fun u v hw hv p hp => by
      refine h (c :: u) v (by rw [hw]; rfl) hv p ?_
      rwa [List.append_assoc] at hp
    rw [List.cons_append, listFrom, List.filter_append, hhead, List.nil_append, hrest,
      List.append_assoc]
    rfl

/-- Inside a whole word and behind it no other word begins up to the next word character. -/
lemma listFrom_append_of_isWhole (h : p.IsWhole) :
    listFrom p.front (p.word ++ p.back) = p :: listFrom (p.front ++ p.word) p.back := by
  obtain ⟨c, w, hword, hc⟩ := h.isWord.exists_cons
  have hinside : ∀ w' front', touchesWord front'.reverse = true →
      (∀ d ∈ w', isWordChar d = true) →
      listFrom front' (w' ++ p.back) = listFrom (front' ++ w') p.back := by
    intro w' front' hfront hw'
    have hfilter := filter_listFrom_append (fun _ => true) front' w' p.back
      fun u v hsplit hv q hq => by
        have htouches : touchesWord (front' ++ u).reverse = true := by
          rcases List.eq_nil_or_concat u with rfl | ⟨u, d, rfl⟩
          · rwa [List.append_nil]
          · have hd := hw' d (by simp [hsplit])
            simpa using hd
        rw [between?_of_touchesWord htouches] at hq
        cases hq
    rwa [List.filter_true, List.filter_true] at hfilter
  have hbetween := between?_of_isWhole h
  rw [hword] at hbetween ⊢
  rw [List.cons_append, listFrom, ← List.cons_append, hbetween, Option.toList_some,
    hinside w _ (by simpa using hc) fun d hd => h.isWord.all_wordChar d (by simp [hword, hd]),
    List.append_assoc]
  rfl

end WordPlace

end Survey
