/-
# Splitting outside brackets

Splitting goes over a text once: it cuts at separators, counts brackets and gives up at the first one
that closes too much, all in the same pass.  Here the result is described without the pass.  A split
of a text is a list of pieces that give the text back when they are joined with the separator, where
every piece balances and none has the separator outside its brackets.  A text has such a split exactly
if it balances, it has no more than one, and `splitTopLevel?` finds it.
-/
import Survey.Proofs.Text.Brackets

namespace Survey.Text

variable {separator c : Char} {depth : Int32} {text piece : List Char} {pieces : List (List Char)}

/-! ### Stretches from a depth on -/

/-- The brackets of a text that begins at a given depth balance: the depth is never negative, and zero
at the end. -/
def BalancedFrom (depth : Int32) (text : List Char) : Prop :=
  (∀ n ≤ text.length, 0 ≤ depth + depthBehind (text.take n)) ∧ depth + depthBehind text = 0

/-- A text that begins at a given depth has a property at each of its characters; the property may
depend on the depth in front of the character. -/
def EachAt (P : Int32 → Char → Prop) (depth : Int32) (text : List Char) : Prop :=
  ∀ n, (h : n < text.length) → P (depth + depthBehind (text.take n)) text[n]

lemma balancedFrom_zero : BalancedFrom 0 text ↔ Balanced text := by
  simp only [BalancedFrom, Balanced, Int32.zero_add]

lemma balancedFrom_nil : BalancedFrom depth [] ↔ depth = 0 := by
  simp only [BalancedFrom, List.take_nil, depthBehind, Int32.add_zero]
  exact ⟨And.right, fun h => ⟨fun _ _ => h ▸ Int32.le_refl 0, h⟩⟩

lemma BalancedFrom.nonneg (h : BalancedFrom depth text) : 0 ≤ depth := by
  simpa [depthBehind] using h.1 0 (Nat.zero_le _)

lemma balancedFrom_cons :
    BalancedFrom depth (c :: text) ↔ 0 ≤ depth ∧ BalancedFrom (depth + depthChange c) text := by
  constructor
  · intro h
    refine ⟨h.nonneg, fun n hn => ?_, ?_⟩
    · simpa [depthBehind, Int32.add_assoc] using h.1 (n + 1) (by simpa using hn)
    · simpa [depthBehind, Int32.add_assoc] using h.2
  · rintro ⟨hdepth, hrest, hend⟩
    refine ⟨fun n hn => ?_, by simpa [depthBehind, Int32.add_assoc] using hend⟩
    cases n with
    | zero => simpa [depthBehind] using hdepth
    | succ n => simpa [depthBehind, Int32.add_assoc] using hrest n (by simpa using hn)

lemma eachAt_nil (P : Int32 → Char → Prop) : EachAt P depth [] := fun _ h => absurd h (Nat.not_lt_zero _)

lemma eachAt_cons {P : Int32 → Char → Prop} :
    EachAt P depth (c :: text) ↔ P depth c ∧ EachAt P (depth + depthChange c) text := by
  constructor
  · intro h
    refine ⟨?_, fun n hn => ?_⟩
    · have hfirst := h 0 (by simp)
      simpa only [List.take_zero, depthBehind, Int32.add_zero, List.getElem_cons_zero] using hfirst
    · have hnext := h (n + 1) (by simpa using hn)
      simpa only [List.take_succ_cons, depthBehind, ← Int32.add_assoc, List.getElem_cons_succ]
        using hnext
  · rintro ⟨hfirst, hrest⟩ n hn
    cases n with
    | zero =>
      simpa only [List.take_zero, depthBehind, Int32.add_zero, List.getElem_cons_zero] using hfirst
    | succ n =>
      simpa only [List.take_succ_cons, depthBehind, ← Int32.add_assoc, List.getElem_cons_succ]
        using hrest n (by simpa using hn)

/-- A text has a property at each of its characters if it has it behind every front part. -/
lemma eachAt_zero_iff {P : Int32 → Char → Prop} :
    EachAt P 0 text ↔ ∀ front c back, text = front ++ c :: back → P (depthBehind front) c := by
  constructor
  · rintro h front c back rfl
    simpa using h front.length (by simp)
  · intro h n hn
    rw [Int32.zero_add]
    exact h (text.take n) text[n] (text.drop (n + 1)) (by simp)

lemma noneOutside_iff_eachAt {cls : Char → Bool} :
    NoneOutside cls text ↔ EachAt (fun depth c => depth = 0 → cls c = false) 0 text := by
  simp only [NoneOutside, EachAt, Int32.zero_add]

/-! ### When there is a split -/

/-- Every text has pieces unless its brackets do not balance. -/
lemma isSome_piecesFrom?_iff (hseparator : depthChange separator = 0) (hdepth : 0 ≤ depth) :
    (piecesFrom? separator depth text).isSome ↔ BalancedFrom depth text := by
  induction text generalizing depth with
  | nil =>
    rw [balancedFrom_nil, piecesFrom?]
    split <;> simp [*]
  | cons c rest ih =>
    rw [balancedFrom_cons, and_iff_right hdepth, piecesFrom?]
    split
    · next hcut => rw [Option.isSome_map, ih hdepth, hcut.1, hseparator, Int32.add_zero]
    · split
      · next hnegative =>
        refine iff_of_false (by simp) fun hrest => ?_
        exact Int32.not_le.2 hnegative hrest.nonneg
      · next hnonneg => rw [Option.isSome_map, ih (Int32.not_lt.1 hnonneg)]

lemma isSome_splitTopLevel?_iff (hseparator : depthChange separator = 0) :
    (splitTopLevel? separator text).isSome ↔ Balanced text := by
  rw [splitTopLevel?, Option.isSome_map, isSome_piecesFrom?_iff hseparator (Int32.le_refl 0),
    balancedFrom_zero]

/-! ### The split -/

/-- The pieces of a text between the separators outside its brackets. -/
structure IsSplit (separator : Char) (text : List Char) (pieces : List (List Char)) : Prop where
  /-- There is at least one piece. -/
  ne_nil : pieces ≠ []
  /-- The pieces with separators between them are the text. -/
  joined : [separator].intercalate pieces = text
  /-- Every piece balances. -/
  balanced : ∀ piece ∈ pieces, Balanced piece
  /-- No piece has the separator outside its brackets. -/
  none_outside : ∀ piece ∈ pieces, NoneOutside (· == separator) piece

/-- Pieces that are kept one by one are found in the text that they are joined to. -/
lemma piecesFrom?_intercalate (hne : pieces ≠ [])
    (hkeeps : ∀ piece ∈ pieces, Keeps separator 0 piece 0) :
    piecesFrom? separator 0 ([separator].intercalate pieces) = some pieces := by
  induction pieces with
  | nil => exact absurd rfl hne
  | cons piece pieces ih =>
    have hpiece := hkeeps piece (by simp)
    cases pieces with
    | nil =>
      have hend := hpiece []
      rw [List.append_nil] at hend
      rw [List.intercalate_singleton, hend]
      simp [piecesFrom?]
    | cons next more =>
      have hmore := ih (by simp) fun piece' hmem => hkeeps piece' (List.mem_cons_of_mem _ hmem)
      rw [List.intercalate_cons_cons, List.append_assoc, hpiece, List.singleton_append, piecesFrom?,
        if_pos ⟨rfl, rfl⟩, hmore, Option.map_some, Option.map_some, prependHead_cons, List.append_nil]

lemma IsSplit.piecesFrom?_eq (h : IsSplit separator text pieces) :
    piecesFrom? separator 0 text = some pieces := by
  rw [← h.joined]
  exact piecesFrom?_intercalate h.ne_nil fun piece hmem =>
    (h.balanced piece hmem).keeps (h.none_outside piece hmem)

/-- What is found from a depth on: the first piece goes on from that depth, and the others begin
outside brackets. -/
lemma exists_first_of_piecesFrom? (hdepth : 0 ≤ depth)
    (h : piecesFrom? separator depth text = some pieces) :
    ∃ first more, pieces = first :: more ∧ [separator].intercalate pieces = text ∧
      BalancedFrom depth first ∧
      EachAt (fun depth c => depth = 0 → (c == separator) = false) depth first ∧
      ∀ piece ∈ more, Balanced piece ∧ NoneOutside (· == separator) piece := by
  induction text generalizing depth pieces with
  | nil =>
    rw [piecesFrom?] at h
    split at h
    · next hzero =>
      rw [← Option.some.inj h]
      exact ⟨[], [], rfl, rfl, balancedFrom_nil.2 hzero, eachAt_nil _, List.forall_mem_nil _⟩
    · simp at h
  | cons c rest ih =>
    rw [piecesFrom?] at h
    split at h
    · next hcut =>
      obtain ⟨pieces', hpieces, rfl⟩ := Option.map_eq_some_iff.1 h
      obtain ⟨first, more, rfl, hjoined, hfirst, heach, hmore⟩ := ih hdepth hpieces
      rw [hcut.2] at hfirst heach ⊢
      refine ⟨[], first :: more, rfl, ?_, balancedFrom_nil.2 rfl, eachAt_nil _, ?_⟩
      · rw [List.intercalate_cons_cons, hjoined, hcut.1]
        rfl
      · exact List.forall_mem_cons.2
          ⟨⟨balancedFrom_zero.1 hfirst, noneOutside_iff_eachAt.2 heach⟩, hmore⟩
    · next hcut =>
      split at h
      · simp at h
      · next hnonneg =>
        obtain ⟨pieces', hpieces, rfl⟩ := Option.map_eq_some_iff.1 h
        obtain ⟨first, more, rfl, hjoined, hfirst, heach, hmore⟩ :=
          ih (Int32.not_lt.1 hnonneg) hpieces
        refine ⟨c :: first, more, rfl, ?_, balancedFrom_cons.2 ⟨hdepth, hfirst⟩,
          eachAt_cons.2 ⟨fun hzero => by simpa using fun hc => hcut ⟨hc, hzero⟩, heach⟩, hmore⟩
        rw [consHead_cons, ← hjoined]
        cases more <;> simp [List.intercalate_cons_cons]

/-- A text that balances has a split. -/
lemma exists_isSplit (hseparator : depthChange separator = 0) (h : Balanced text) :
    ∃ pieces, IsSplit separator text pieces := by
  obtain ⟨pieces, hpieces⟩ := Option.isSome_iff_exists.1
    ((isSome_piecesFrom?_iff hseparator (Int32.le_refl 0)).2 (balancedFrom_zero.2 h))
  obtain ⟨first, more, rfl, hjoined, hfirst, heach, hmore⟩ :=
    exists_first_of_piecesFrom? (Int32.le_refl 0) hpieces
  exact ⟨first :: more, List.cons_ne_nil _ _, hjoined,
    List.forall_mem_cons.2 ⟨balancedFrom_zero.1 hfirst, fun piece hmem => (hmore piece hmem).1⟩,
    List.forall_mem_cons.2 ⟨noneOutside_iff_eachAt.2 heach, fun piece hmem => (hmore piece hmem).2⟩⟩

lemma IsSplit.splitTopLevel?_eq (h : IsSplit separator text pieces) :
    splitTopLevel? separator text = some (tidy pieces) := by
  rw [splitTopLevel?, h.piecesFrom?_eq, Option.map_some]

/-- **A text is split exactly at the separators outside its brackets.**  It has items exactly if its
brackets balance, which with fewer than `2 ^ 31` brackets means that they nest; then there is one and
only one split of it, and the items are the pieces of that split, trimmed and without the empty
ones. -/
theorem splitTopLevel?_isSplit (separator : Char) (text : List Char)
    (hseparator : isBracket separator = false) :
    ((splitTopLevel? separator text).isSome ↔ Balanced text) ∧
      (text.countP isBracket < 2 ^ 31 → (Balanced text ↔ Nests text)) ∧
      (Balanced text → ∃! pieces, IsSplit separator text pieces) ∧
      ∀ pieces, IsSplit separator text pieces →
        splitTopLevel? separator text = some (tidy pieces) := by
  have hchange : depthChange separator = 0 := depthChange_eq_zero_iff.2 hseparator
  refine ⟨isSome_splitTopLevel?_iff hchange, balanced_iff_nests_of_lt, fun hbalanced => ?_,
    fun _ => IsSplit.splitTopLevel?_eq⟩
  obtain ⟨pieces, hpieces⟩ := exists_isSplit hchange hbalanced
  refine ⟨pieces, hpieces, fun pieces' hpieces' => ?_⟩
  -- a pass over the text finds both of them
  exact Option.some.inj (hpieces'.piecesFrom?_eq.symm.trans hpieces.piecesFrom?_eq)

/-- A list with a comma inside of brackets, an empty item and blanks around its items. -/
def nestedList : List Char := "Map<String, Integer> m, , List<X>[] xs ".toList

theorem splitTopLevel?_nestedList :
    isBracket ',' = false ∧ Balanced nestedList ∧ Nests nestedList ∧
      (∃! pieces, IsSplit ',' nestedList pieces) ∧
      splitTopLevel? ',' nestedList =
        some ["Map<String, Integer> m".toList, "List<X>[] xs".toList] := by
  have hseparator : isBracket ',' = false := by decide
  have hbalanced : Balanced nestedList := by decide
  have hpieces : IsSplit ',' nestedList
      ["Map<String, Integer> m".toList, " ".toList, " List<X>[] xs ".toList] :=
    ⟨by simp, by decide, by decide, by decide⟩
  obtain ⟨-, hnests, hunique, hsplit⟩ := splitTopLevel?_isSplit ',' nestedList hseparator
  exact ⟨hseparator, hbalanced, (hnests (by decide)).1 hbalanced, hunique hbalanced, hsplit _ hpieces⟩

end Survey.Text
