/-
# Lists joined again

The items of a list, joined with commas and spaces, make a list with the same items.  Two facts carry
this.  Joined items are split at the commas between them and nowhere else, whether a split outside
brackets or a cut at all commas is asked for.  And neither splitting nor joining touches a bracket, so
the joined list balances exactly if the first one did and is split in the same way.
-/
import Survey.Proofs.Text.Splitting

namespace Survey.Text

variable {text u v : List Char} {items pieces : List (List Char)}

/-! ### Blanks around a list -/

lemma splitCommas_append_of_blank_left (hu : ∀ c ∈ u, isBlank c = true) (text : List Char) :
    splitCommas (u ++ text) = splitCommas text := by
  have hcomma : ',' ∉ u := fun hmem => absurd (hu ',' hmem) (by decide)
  obtain ⟨piece, more, hcut, -⟩ := exists_cutAt_eq_cons (· == ',') text
  rw [splitCommas, splitCommas, cutAt_append_of_notMem hcomma, hcut, prependHead_cons, tidy, tidy,
    List.map_cons, List.map_cons, trim_append_of_blank_left hu]

lemma splitCommas_append_of_blank_right (hv : ∀ c ∈ v, isBlank c = true) (text : List Char) :
    splitCommas (text ++ v) = splitCommas text := by
  have hcomma : ',' ∉ v := fun hmem => absurd (hv ',' hmem) (by decide)
  obtain ⟨done, last, -, happend⟩ := exists_cutAt_append ',' text
  have htext := happend []
  rw [List.append_nil, cutAt_nil, prependHead_cons, List.append_nil] at htext
  have hlast : tidy [last ++ v] = tidy [last] := by
    rw [tidy, tidy, List.map_singleton, List.map_singleton, trim_append_of_blank_right hv]
  rw [splitCommas, splitCommas, happend, cutAt_of_notMem hcomma, prependHead_cons, htext, tidy_append,
    tidy_append, hlast]

/-! ### Joined items -/

/-- Items with commas and spaces between them are pieces with commas between them. -/
lemma intercalate_comma_space (item : List Char) (items : List (List Char)) :
    [',', ' '].intercalate (item :: items) =
      [','].intercalate (item :: items.map (' ' :: ·)) := by
  induction items generalizing item with
  | nil => rfl
  | cons next more ih =>
    have hspace : [','].intercalate ((' ' :: next) :: more.map (' ' :: ·)) =
        ' ' :: [','].intercalate (next :: more.map (' ' :: ·)) := by
      cases more <;> simp [List.intercalate_cons_cons]
    rw [List.intercalate_cons_cons, ih, List.map_cons, List.intercalate_cons_cons, hspace]
    simp

/-- The space in front of an item is lost when it is tidied. -/
lemma tidy_spaced (h : ∀ item' ∈ u :: items, item' ≠ [] ∧ trim item' = item') :
    tidy (u :: items.map (' ' :: ·)) = u :: items := by
  have htrim : (u :: items.map (' ' :: ·)).map trim = (u :: items).map trim := by
    rw [List.map_cons, List.map_cons, List.map_map]
    exact congrArg _ (List.map_congr_left fun item _ => trim_space_cons item)
  rw [tidy, htrim]
  exact tidy_eq_self h

/-- Items without commas are found by a cut at all commas. -/
lemma splitCommas_intercalate (hitems : ∀ item ∈ items, item ≠ [] ∧ trim item = item)
    (hcomma : ∀ item ∈ items, ',' ∉ item) : splitCommas ([',', ' '].intercalate items) = items := by
  cases items with
  | nil => rfl
  | cons item items =>
    obtain ⟨hitem, hmore⟩ := List.forall_mem_cons.1 hcomma
    have hpieces : ∀ piece ∈ item :: items.map (' ' :: ·), ',' ∉ piece := by
      refine List.forall_mem_cons.2 ⟨hitem, List.forall_mem_map.2 fun next hnext => ?_⟩
      exact List.not_mem_cons_of_ne_of_not_mem (by decide) (hmore next hnext)
    rw [intercalate_comma_space, splitCommas, cutAt_intercalate (by simp) hpieces,
      tidy_spaced hitems]

/-- Items without commas outside their brackets are found by a split. -/
lemma splitTopLevel?_intercalate (hitems : ∀ item ∈ items, item ≠ [] ∧ trim item = item)
    (hkeeps : ∀ item ∈ items, Keeps ',' 0 item 0) :
    splitTopLevel? ',' ([',', ' '].intercalate items) = some items := by
  cases items with
  | nil => rfl
  | cons item items =>
    obtain ⟨hitem, hmore⟩ := List.forall_mem_cons.1 hkeeps
    have hspace : Keeps ',' 0 [' '] 0 := keeps_singleton (by decide) (by decide)
    have hpieces : ∀ piece ∈ item :: items.map (' ' :: ·), Keeps ',' 0 piece 0 :=
      List.forall_mem_cons.2
        ⟨hitem, List.forall_mem_map.2 fun next hnext => hspace.append (hmore next hnext)⟩
    rw [intercalate_comma_space, splitTopLevel?, piecesFrom?_intercalate (by simp) hpieces,
      Option.map_some, tidy_spaced hitems]

/-! ### Trimmed pieces -/

lemma depthBehind_of_blank (hu : ∀ c ∈ u, isBlank c = true) : depthBehind u = 0 := by
  induction u with
  | nil => rfl
  | cons c u ih =>
    rw [depthBehind, depthChange_of_isBlank (hu c (by simp)),
      ih fun d hd => hu d (List.mem_cons_of_mem _ hd), Int32.add_zero]

/-- Trimming takes no character out of brackets. -/
lemma NoneOutside.trim {cls : Char → Bool} (h : NoneOutside cls text) :
    NoneOutside cls (Text.trim text) := by
  obtain ⟨start, stop, hstart, -, htext⟩ := exists_blank_ends text
  rw [noneOutside_iff_eachAt, eachAt_zero_iff] at h ⊢
  intro front c back htrim
  have hplace := h (start ++ front) c (back ++ stop) (by simpa [htrim] using htext)
  rwa [depthBehind_append, depthBehind_of_blank hstart, Int32.zero_add] at hplace

/-- Whether a text balances is told from its brackets. -/
lemma balancedFrom_filter_iff {depth : Int32} :
    BalancedFrom depth (text.filter isBracket) ↔ BalancedFrom depth text := by
  induction text generalizing depth with
  | nil => rfl
  | cons c text ih =>
    rw [balancedFrom_cons]
    by_cases hc : isBracket c = true
    · rw [List.filter_cons_of_pos hc, balancedFrom_cons, ih]
    · rw [List.filter_cons_of_neg hc, ih, depthChange_eq_zero_iff.2 (by simpa using hc), Int32.add_zero]
      exact ⟨fun h => ⟨h.nonneg, h⟩, And.right⟩

lemma balanced_congr (h : u.filter isBracket = v.filter isBracket) : Balanced u ↔ Balanced v := by
  rw [← balancedFrom_zero, ← balancedFrom_zero, ← balancedFrom_filter_iff, h,
    balancedFrom_filter_iff]

lemma Balanced.trim (h : Balanced text) : Balanced (Text.trim text) :=
  (balanced_congr (filter_trim (fun _ => isBracket_of_isBlank) text)).2 h

/-! ### The brackets of a list -/

/-- What does not stand in the separator is that of the pieces. -/
lemma filter_intercalate {keep : Char → Bool} {separator : List Char}
    (hseparator : separator.filter keep = []) (pieces : List (List Char)) :
    (separator.intercalate pieces).filter keep = pieces.flatten.filter keep := by
  induction pieces with
  | nil => rfl
  | cons piece pieces ih =>
    cases pieces with
    | nil => simp
    | cons next more =>
      rw [List.intercalate_cons_cons, List.append_assoc, List.filter_append, List.filter_append,
        hseparator, ih, List.nil_append, List.flatten_cons (l := piece), List.filter_append]

/-- Joining tidied pieces changes commas and blanks only. -/
lemma filter_isBracket_intercalate_tidy (pieces : List (List Char)) :
    ([',', ' '].intercalate (tidy pieces)).filter isBracket =
      ([','].intercalate pieces).filter isBracket := by
  rw [filter_intercalate (by decide), filter_intercalate (by decide),
    filter_flatten_tidy fun _ => isBracket_of_isBlank]

lemma IsSplit.splitList_eq (h : IsSplit ',' text pieces) : splitList text = tidy pieces := by
  rw [splitList, h.splitTopLevel?_eq, Option.getD_some]

lemma splitList_of_not_balanced (h : ¬ Balanced text) : splitList text = splitCommas text := by
  have hnone : splitTopLevel? ',' text = none := by
    rwa [← Option.not_isSome_iff_eq_none, isSome_splitTopLevel?_iff (by decide)]
  rw [splitList, hnone, Option.getD_none]

/-- Splitting a list and joining it again keeps its brackets, and so whether they balance. -/
lemma balanced_rejoined_iff (text : List Char) :
    Balanced ([',', ' '].intercalate (splitList text)) ↔ Balanced text := by
  refine balanced_congr ?_
  by_cases hbalanced : Balanced text
  · obtain ⟨pieces, hsplit⟩ := exists_isSplit (by decide : depthChange ',' = 0) hbalanced
    rw [hsplit.splitList_eq, filter_isBracket_intercalate_tidy, hsplit.joined]
  · rw [splitList_of_not_balanced hbalanced, splitCommas, filter_isBracket_intercalate_tidy,
      (intercalate_cutAt ',' text).1]

/-! ### Joined again -/

/-- **Splitting a list is stable.**  When the items of a list, whether its brackets balance or not,
are joined with commas and spaces, the joined list has the same items; and it has no split outside
brackets exactly if the first one had none. -/
theorem splitList_rejoined (text : List Char) :
    splitList ([',', ' '].intercalate (splitList text)) = splitList text ∧
      (splitTopLevel? ',' ([',', ' '].intercalate (splitList text)) = none ↔
        splitTopLevel? ',' text = none) := by
  have hitems : ∀ item ∈ splitList text, item ≠ [] ∧ trim item = item :=
    fun item hitem => mem_of_mem_splitList hitem
  refine ⟨?_, ?_⟩
  · by_cases hbalanced : Balanced text
    · obtain ⟨pieces, hsplit⟩ := exists_isSplit (by decide : depthChange ',' = 0) hbalanced
      have hkeeps : ∀ item ∈ splitList text, Keeps ',' 0 item 0 := by
        rw [hsplit.splitList_eq]
        intro item hitem
        obtain ⟨piece, hpiece, rfl⟩ := List.mem_map.1 (mem_nonEmpty.1 hitem).1
        exact (hsplit.balanced piece hpiece).trim.keeps (hsplit.none_outside piece hpiece).trim
      rw [splitList.eq_1 (List.intercalate _ _), splitTopLevel?_intercalate hitems hkeeps,
        Option.getD_some]
    · have hcomma : ∀ item ∈ splitList text, ',' ∉ item := by
        rw [splitList_of_not_balanced hbalanced]
        intro item hitem hmem
        obtain ⟨piece, hpiece, rfl⟩ := List.mem_map.1 (mem_nonEmpty.1 hitem).1
        exact (intercalate_cutAt ',' text).2 piece hpiece ((trim_infix_self piece).subset hmem)
      rw [splitList_of_not_balanced (mt (balanced_rejoined_iff text).1 hbalanced),
        splitCommas_intercalate hitems hcomma]
  · rw [← Option.not_isSome_iff_eq_none, ← Option.not_isSome_iff_eq_none,
      isSome_splitTopLevel?_iff (by decide), isSome_splitTopLevel?_iff (by decide),
      balanced_rejoined_iff]

end Survey.Text
