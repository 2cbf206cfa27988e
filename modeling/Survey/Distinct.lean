/-
# First occurrences

A list without its repetitions keeps the first element of every key, in the order of the list.
-/

namespace Survey

variable {α κ : Type} [BEq κ]

/-- The first element of every key, in order. -/
def distinctBy (key : α → κ) : List α → List α
  | [] => []
  | a :: rest => a :: (distinctBy key rest).filter fun b => !(key b == key a)

/-- The first occurrence of every element, in order. -/
def distinct [BEq α] (list : List α) : List α := distinctBy id list

@[simp] theorem distinctBy_nil (key : α → κ) : distinctBy key [] = [] := rfl

theorem mem_of_mem_distinctBy {key : α → κ} {list : List α} {a : α}
    (h : a ∈ distinctBy key list) : a ∈ list := by
  induction list with
  | nil => simp at h
  | cons b rest ih =>
    rcases List.mem_cons.1 h with rfl | h
    · simp
    · exact List.mem_cons_of_mem _ (ih (List.mem_filter.1 h).1)

section

variable [LawfulBEq κ]

/-- No key is left twice. -/
theorem nodup_map_distinctBy (key : α → κ) (list : List α) :
    ((distinctBy key list).map key).Nodup := by
  induction list with
  | nil => simp
  | cons a rest ih =>
    rw [distinctBy, List.map_cons, List.nodup_cons]
    constructor
    · simp
    · exact (List.filter_sublist.map key).nodup ih

theorem nodup_distinct (list : List κ) : (distinct list).Nodup := by
  have hnodup := nodup_map_distinctBy id list
  rwa [List.map_id] at hnodup

/-- Looking a key up finds the same element with and without repetitions. -/
theorem find?_distinctBy (key : α → κ) (k : κ) (list : List α) :
    (distinctBy key list).find? (key · == k) = list.find? (key · == k) := by
  induction list with
  | nil => rfl
  | cons a rest ih =>
    rw [distinctBy, List.find?_cons, List.find?_cons]
    by_cases h : key a = k
    · simp [h]
    · have hne : (key a == k) = false := by simpa using h
      rw [hne, ← ih, List.find?_filter]
      simp only
      congr 1
      funext b
      by_cases hb : key b = k
      · simp [hb, Ne.symm h]
      · simp [hb]

/-- The elements left are those that their own key finds. -/
theorem mem_distinctBy_iff {key : α → κ} {list : List α} {a : α} :
    a ∈ distinctBy key list ↔ list.find? (key · == key a) = some a := by
  rw [← find?_distinctBy]
  constructor
  · intro ha
    have hnodup := nodup_map_distinctBy key list
    revert ha hnodup
    induction distinctBy key list with
    | nil => simp
    | cons b rest ih =>
      intro ha hnodup
      rw [List.map_cons, List.nodup_cons] at hnodup
      rcases List.mem_cons.1 ha with rfl | ha
      · simp
      · have hne : key b ≠ key a := fun h => hnodup.1 (h ▸ List.mem_map_of_mem ha)
        rw [List.find?_cons, show (key b == key a) = false by simpa using hne]
        exact ih ha hnodup.2
  · exact List.mem_of_find?_eq_some

/-- Keys that are renamed one to one are kept at the same places. -/
theorem distinct_map_of_injective {κ' : Type} [BEq κ'] [LawfulBEq κ'] (key : α → κ) {f : κ → κ'}
    (hf : ∀ k k', f k = f k' → k = k') (list : List α) :
    distinct (list.map fun a => f (key a)) = (distinctBy key list).map fun a => f (key a) := by
  induction list with
  | nil => rfl
  | cons a rest ih =>
    have hcons : distinct ((a :: rest).map fun b => f (key b)) =
        f (key a) :: (distinct (rest.map fun b => f (key b))).filter fun k => !(k == f (key a)) :=
      rfl
    rw [hcons, ih, distinctBy, List.map_cons, List.filter_map]
    congr 2
    refine List.filter_congr fun b _ => ?_
    by_cases h : key b = key a
    · simp [h]
    · have hkey : (key b == key a) = false := beq_eq_false_iff_ne.2 h
      have hname : (f (key b) == f (key a)) = false :=
        beq_eq_false_iff_ne.2 fun heq => h (hf _ _ heq)
      simp [hkey, hname]

/-- Lists without a common element are freed of repetitions one by one. -/
theorem distinct_append {list list' : List κ} (h : ∀ k ∈ list, k ∉ list') :
    distinct (list ++ list') = distinct list ++ distinct list' := by
  induction list with
  | nil => rfl
  | cons k rest ih =>
    have hcons (l : List κ) : distinct (k :: l) = k :: (distinct l).filter fun b => !(b == k) := rfl
    have hkeep : ((distinct list').filter fun b => !(b == k)) = distinct list' := by
      refine List.filter_eq_self.2 fun b hb => ?_
      have hne : b ≠ k := fun heq => h k List.mem_cons_self (heq ▸ mem_of_mem_distinctBy hb)
      simp [hne]
    rw [List.cons_append, hcons, hcons, ih fun b hb => h b (List.mem_cons_of_mem _ hb),
      List.filter_append, hkeep, List.cons_append]

/-- The same for any number of lists. -/
theorem distinct_flatMap {β : Type} {f : β → List κ} {blocks : List β}
    (h : blocks.Pairwise fun a b => ∀ k ∈ f a, k ∉ f b) :
    distinct (blocks.flatMap f) = blocks.flatMap fun a => distinct (f a) := by
  induction blocks with
  | nil => rfl
  | cons a rest ih =>
    obtain ⟨hhead, htail⟩ := List.pairwise_cons.1 h
    rw [List.flatMap_cons, List.flatMap_cons, distinct_append fun k hk hmem => ?_, ih htail]
    obtain ⟨b, hb, hmem⟩ := List.mem_flatMap.1 hmem
    exact hhead b hb k hk hmem

/-- Repetitions may be removed before or after a choice among the elements. -/
theorem filter_distinct (kept : κ → Bool) (list : List κ) :
    (distinct list).filter kept = distinct (list.filter kept) := by
  induction list with
  | nil => rfl
  | cons k rest ih =>
    have hcons (l : List κ) : distinct (k :: l) = k :: (distinct l).filter fun b => !(b == k) := rfl
    have hswap : ((distinct rest).filter fun b => !(b == k)).filter kept =
        ((distinct rest).filter kept).filter fun b => !(b == k) := by
      rw [List.filter_filter, List.filter_filter]
      simp only [Bool.and_comm]
    by_cases hk : kept k = true
    · rw [hcons, List.filter_cons_of_pos hk, List.filter_cons_of_pos hk, hcons, hswap, ih]
    · have hother : ∀ b ∈ (distinct rest).filter kept, (!(b == k)) = true := by
        intro b hb
        have hkept := (List.mem_filter.1 hb).2
        simpa using fun heq : b = k => hk (heq ▸ hkept)
      rw [hcons, List.filter_cons_of_neg hk, List.filter_cons_of_neg hk, hswap,
        List.filter_eq_self.2 hother, ih]

/-- What is left is what the library leaves of the list. -/
theorem distinct_eq_eraseDups (list : List κ) : distinct list = list.eraseDups := by
  induction hlength : list.length using Nat.strongRecOn generalizing list with
  | ind n ih =>
    cases list with
    | nil => rfl
    | cons k rest =>
      have hshort : (rest.filter fun b => !(b == k)).length < n := by
        have hle := List.length_filter_le (fun b => !(b == k)) rest
        rw [List.length_cons] at hlength
        omega
      rw [List.eraseDups_cons, ← ih _ hshort _ rfl, ← filter_distinct]
      rfl

theorem distinct_of_nodup {list : List κ} (h : list.Nodup) : distinct list = list := by
  induction list with
  | nil => rfl
  | cons k rest ih =>
    obtain ⟨hk, hrest⟩ := List.nodup_cons.1 h
    have hcons : distinct (k :: rest) = k :: (distinct rest).filter fun b => !(b == k) := rfl
    have hkeep : rest.filter (fun b => !(b == k)) = rest := by
      refine List.filter_eq_self.2 fun b hb => ?_
      have hne : b ≠ k := fun heq => hk (heq ▸ hb)
      simp [hne]
    rw [hcons, ih hrest, hkeep]

/-- Repetitions that are behind a list may be removed on their own before. -/
theorem distinct_append_distinct (list list' : List κ) :
    distinct (list ++ distinct list') = distinct (list ++ list') := by
  induction list with
  | nil => exact distinct_of_nodup (nodup_distinct list')
  | cons k rest ih =>
    have hcons (l : List κ) : distinct (k :: l) = k :: (distinct l).filter fun b => !(b == k) := rfl
    rw [List.cons_append, List.cons_append, hcons, hcons, ih]

/-- An element at the end counts when it is new. -/
theorem distinct_concat (list : List κ) (k : κ) :
    distinct (list ++ [k]) = if k ∈ distinct list then distinct list else distinct list ++ [k] := by
  by_cases hk : k ∈ list
  · have hmem : k ∈ distinct list := by rwa [distinct_eq_eraseDups, List.mem_eraseDups]
    have hold : [k].removeAll list = [] := by simp [List.removeAll, hk]
    rw [if_pos hmem, distinct_eq_eraseDups, List.eraseDups_append, hold, List.eraseDups_nil,
      List.append_nil, distinct_eq_eraseDups]
  · have hmem : k ∉ distinct list := fun h => hk (mem_of_mem_distinctBy h)
    have hnew : ∀ b ∈ list, b ∉ [k] := fun b hb hlast => hk ((List.mem_singleton.1 hlast).symm ▸ hb)
    rw [if_neg hmem, distinct_append hnew]
    rfl

end

end Survey
