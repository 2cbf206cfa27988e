/-
# Malformed documents

A document is refused when it shows no interface and does not open as many blocks as it closes.  Both are
told from its logical lines, so the lines must lose nothing but comments and blanks
(`inked_flatten_logicalLines`), and every line must have been looked at when no interface is found
(`ofLines_eq_nil_iff`).
-/
import Survey.Proofs.RemoteInterface.Truncation

namespace Survey

open Survey.Text

namespace LogicalLines

/-! ### Texts without comments -/

/-- What stands in front of the next end of a comment, and what stands behind it; everything and nothing
when no comment ends. -/
def cutAtCommentEnd : List Char → List Char × List Char
  | [] => ([], [])
  | '*' :: '/' :: rest => ([], rest)
  | c :: rest => (c :: (cutAtCommentEnd rest).1, (cutAtCommentEnd rest).2)

lemma length_cutAtCommentEnd_le (text : List Char) : (cutAtCommentEnd text).2.length ≤ text.length := by
  fun_induction cutAtCommentEnd text with
  | case1 => exact Nat.le_refl _
  | case2 rest => simp only [List.length_cons]; omega
  | case3 c rest _ ih => simp only [List.length_cons]; omega

/-- A text without comments, scanned from left to right.  A comment that two slashes open goes up to the
end of its line.  One that a slash and a star open goes to the next star with a slash behind it, or to the
end of the text; the newlines in it stay. -/
def withoutComments : List Char → List Char
  | [] => []
  | '/' :: '/' :: rest => withoutComments (rest.dropWhile (· != '\n'))
  | '/' :: '*' :: rest =>
    (cutAtCommentEnd rest).1.filter (· == '\n') ++ withoutComments (cutAtCommentEnd rest).2
  | c :: rest => c :: withoutComments rest
termination_by text => text.length
decreasing_by
  · have hle := (List.dropWhile_suffix (· != '\n') (l := rest)).length_le
    simp only [List.length_cons]
    omega
  · have hle := length_cutAtCommentEnd_le rest
    simp only [List.length_cons]
    omega
  · simp

lemma strip_lineComment (text : List Char) :
    strip .lineComment text = strip .code (text.dropWhile (· != '\n')) := by
  induction text with
  | nil => rfl
  | cons c rest ih =>
    by_cases hc : c = '\n'
    · subst hc
      rw [List.dropWhile_cons_of_neg (by simp), strip_cons (by decide), strip]
      simp [Mode.keeps, Mode.next]
    · rw [List.dropWhile_cons_of_pos (by simpa using hc), ← ih, strip]
      simp [Mode.keeps, Mode.next, hc]

lemma strip_blockComment (text : List Char) :
    strip .blockComment text =
      (cutAtCommentEnd text).1.filter (· == '\n') ++ strip .code (cutAtCommentEnd text).2 := by
  fun_induction cutAtCommentEnd text with
  | case1 => rfl
  | case2 rest => simp [strip, Mode.keeps, Mode.next]
  | case3 c rest hopen ih =>
    have hstay : ¬ (c = '*' ∧ rest.head? = some '/') := by
      rintro ⟨rfl, hhead⟩
      obtain ⟨more, rfl⟩ := List.head?_eq_some_iff.1 hhead
      exact hopen more rfl rfl
    have hnext : Mode.blockComment.next c rest.head? = .blockComment := if_neg hstay
    rw [strip, hnext, ih, Mode.keeps, List.filter_cons]
    split <;> rfl

/-- Reading character by character takes out exactly the comments. -/
theorem strip_eq_withoutComments (text : List Char) : strip .code text = withoutComments text := by
  fun_induction withoutComments text with
  | case1 => rfl
  | case2 rest ih =>
    rw [← ih, ← strip_lineComment]
    simp [strip, Mode.keeps, Mode.next]
  | case3 rest ih =>
    rw [← ih, ← strip_blockComment]
    simp [strip, Mode.keeps, Mode.next]
  | case4 c rest hline hblock ih =>
    have hopens : c = '/' → rest.head? ≠ some '/' ∧ rest.head? ≠ some '*' := by
      rintro rfl
      refine ⟨fun hhead => ?_, fun hhead => ?_⟩
      · obtain ⟨more, rfl⟩ := List.head?_eq_some_iff.1 hhead
        exact hline more rfl rfl
      · obtain ⟨more, rfl⟩ := List.head?_eq_some_iff.1 hhead
        exact hblock more rfl rfl
    obtain ⟨hkeeps, hnext⟩ := Mode.code_stays c rest.head? hopens
    rw [strip, hkeeps, hnext, if_pos rfl, ih]

/-! ### The characters of some lines -/

/-- A text without its blanks. -/
def inked (text : List Char) : List Char := text.filter fun c => !isBlank c

@[simp] lemma inked_append (u v : List Char) : inked (u ++ v) = inked u ++ inked v :=
  List.filter_append u v

/-- Tidying takes away blanks only. -/
lemma inked_flatten_tidy (lines : List (List Char)) :
    inked (tidy lines).flatten = inked lines.flatten :=
  filter_flatten_tidy (fun c hc => by simp [hc]) lines

/-- Cutting takes away newlines only. -/
lemma inked_flatten_pieces (text : List Char) : inked (pieces text).flatten = inked text := by
  induction text with
  | nil => rfl
  | cons c rest ih =>
    have hcons (u : List Char) (hu : inked u = inked rest) : inked (c :: u) = inked (c :: rest) := by
      rw [← List.singleton_append, inked_append, hu, ← inked_append, List.singleton_append]
    rw [pieces]
    split_ifs with hnewline
    · subst hnewline
      rw [List.flatten_cons, List.nil_append, ih]
      rfl
    · exact hcons _ ih
    · rw [List.flatten_cons, List.nil_append, flatten_consHead]
      exact hcons _ ih
    · rw [flatten_consHead]
      exact hcons _ ih

/-- **The logical lines lose nothing but comments and blanks.** -/
theorem inked_flatten_logicalLines (text : List Char) :
    inked (logicalLines text).flatten = inked (withoutComments text) := by
  rw [logicalLines_eq, inked_flatten_tidy, inked_flatten_pieces, strip_eq_withoutComments]

end LogicalLines

open LogicalLines

namespace RemoteInterface

/-! ### Blocks -/

/-- What is no blank is counted in the text without comments. -/
lemma countIn_logicalLines {c : Char} (hc : isBlank c = false) (text : List Char) :
    countIn c (logicalLines text) = (withoutComments text).count c := by
  have hinked (u : List Char) : (inked u).count c = u.count c := List.count_filter (by simp [hc])
  rw [countIn, ← hinked, inked_flatten_logicalLines, hinked]

/-! ### Documents without interfaces -/

/-- A line opens an interface: it has the head of one, and not just announces it. -/
def Opens (line : List Char) : Prop :=
  RemoteShape.interfaceLine.occursIn line = true ∧ line.getLast? ≠ some ';'

lemma isSome_opened?_iff (module : String) (line : List Char) :
    (opened? module line).isSome = true ↔ Opens line := by
  rw [opened?, Opens, Pattern.occursIn]
  cases RemoteShape.interfaceLine.find? line with
  | none => simp
  | some m => by_cases hlast : line.getLast? = some ';' <;> simp [hlast]

/-- A line that names a module opens no interface. -/
lemma not_opens_of_moduleLine {line : List Char} {m : Match}
    (h : RemoteShape.moduleLine.find? line = some m) : ¬ Opens line := by
  cases line with
  | nil =>
    have hnone : RemoteShape.moduleLine.find? [] = none := rfl
    simp [hnone] at h
  | cons c rest =>
    have hc : c = 'm' := by
      by_contra hne
      rw [RemoteDocument.find?_moduleLine_of_ne hne] at h
      simp at h
    subst hc
    rw [Opens, Pattern.occursIn,
      RemoteDocument.find?_interfaceLine_of_ne (by decide) (by decide) (by decide)]
    simp

namespace Reading

/-- As long as no line opens an interface, nothing is read but names of modules. -/
lemma interfaces_foldl_read_eq_nil_iff (lines : List (List Char)) (module : String) :
    (lines.foldl read ⟨module, none, []⟩).interfaces = [] ↔ ∀ line ∈ lines, ¬ Opens line := by
  induction lines generalizing module with
  | nil => exact ⟨fun _ => List.forall_mem_nil _, fun _ => rfl⟩
  | cons line lines ih =>
    rw [List.forall_mem_cons, List.foldl_cons]
    cases hmodule : RemoteShape.moduleLine.find? line with
    | some m =>
      have hread : read ⟨module, none, []⟩ line = ⟨String.ofList (m.groupText 1), none, []⟩ := by
        simp only [read, hmodule]
      rw [hread, ih]
      exact (and_iff_right (not_opens_of_moduleLine hmodule)).symm
    | none =>
      have hread : read ⟨module, none, []⟩ line = ⟨module, opened? module line, []⟩ := by
        simp only [read, hmodule]
      rw [hread, ← isSome_opened?_iff module line]
      cases opened? module line with
      | none =>
        rw [ih]
        simp
      | some i =>
        -- the interface stays, whatever the other lines are
        obtain ⟨opened, more, hinterfaces, hgoesOn⟩ :=
          exists_interfaces_foldl_read lines ⟨module, some i, []⟩
        rw [Option.toList_some, List.forall₂_cons_left_iff] at hgoesOn
        obtain ⟨j, rest, -, -, rfl⟩ := hgoesOn
        rw [hinterfaces]
        simp

end Reading

/-- A document shows no interface exactly if none of its lines opens one: every line is looked at. -/
lemma ofLines_eq_nil_iff (lines : List (List Char)) :
    ofLines lines = [] ↔ ∀ line ∈ lines, ¬ Opens line :=
  Reading.interfaces_foldl_read_eq_nil_iff lines ""

/-- The number of blocks that a document opens outside of comments. -/
def blocksOpened (document : String) : Nat := (withoutComments document.toList).count '\x7b'

/-- The number of blocks that a document closes outside of comments. -/
def blocksClosed (document : String) : Nat := (withoutComments document.toList).count '\x7d'

/-- **Documents are refused for unbalanced blocks alone.**  The logical lines of a document are its text
without comments, up to blanks.  The document is refused exactly if none of these lines opens an interface
and its text without comments has different numbers of opening and closing braces.  The failure gives the
path of the document and the two numbers. -/
theorem parse_eq_error_iff (document path : String) :
    inked (logicalLines document.toList).flatten = inked (withoutComments document.toList) ∧
      (∀ failure, parse document path = .error failure ↔
        (¬ ∃ line ∈ logicalLines document.toList, Opens line) ∧
          blocksOpened document ≠ blocksClosed document ∧
          failure = ⟨path, .unbalancedBlocks (blocksOpened document) (blocksClosed document)⟩) ∧
      ∀ failure, parse document path = .error failure →
        failure.kind = "malformed_interface_document" ∧
        ∀ reason?, failure.message reason? = "Malformed interface definition " ++ path ++ ": " ++
          ((blocksOpened document).repr ++ " blocks opened but " ++
            (blocksClosed document).repr ++ " closed") := by
  have hopened : countIn '\x7b' (logicalLines document.toList) = blocksOpened document :=
    countIn_logicalLines (by decide) _
  have hclosed : countIn '\x7d' (logicalLines document.toList) = blocksClosed document :=
    countIn_logicalLines (by decide) _
  have hiff : ∀ failure, parse document path = .error failure ↔
      (¬ ∃ line ∈ logicalLines document.toList, Opens line) ∧
        blocksOpened document ≠ blocksClosed document ∧
        failure = ⟨path, .unbalancedBlocks (blocksOpened document) (blocksClosed document)⟩ := by
    intro failure
    have hnone : (ofLines (logicalLines document.toList)).isEmpty = true ↔
        ¬ ∃ line ∈ logicalLines document.toList, Opens line := by
      rw [List.isEmpty_iff, ofLines_eq_nil_iff]
      simp
    rw [← hnone, ← and_assoc, parse, hopened, hclosed]
    split
    · next hrefused =>
      rw [Except.error.injEq, and_iff_right hrefused]
      exact eq_comm
    · next hread => exact ⟨fun hok => by simp at hok, fun hrefused => absurd hrefused.1 hread⟩
  refine ⟨inked_flatten_logicalLines _, hiff, fun failure hfailure => ?_⟩
  obtain ⟨-, -, rfl⟩ := (hiff failure).1 hfailure
  exact ⟨rfl, fun _ => by simp only [Failure.message, String.append_assoc]⟩

end RemoteInterface

end Survey
