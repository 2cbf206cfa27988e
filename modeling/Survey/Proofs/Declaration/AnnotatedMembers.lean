/-
# Classes of annotated fields

A class is printed with one field to a line.  Lines of annotations may stand above the line of a
field, and annotations may stand in front of the field on its own line.

Two things keep the annotations that are read from being the ones that are written.  The walk upwards
from a field stops at the first line without an annotation, so it goes over the line of the field
above when that line shows annotations (`Member.carried`).  And a field is seen from a modifier at the
end of the last annotation's name on, so that only the start of the name stands in front of the field
(`cutLast`).
-/
import Survey.Proofs.Declaration.AnnotationLines
import Survey.Proofs.Declaration.FieldPlaces

namespace Survey

open Survey.Text Survey.Pattern Survey.Canonical

/-! ### Printed classes -/

namespace Annotated

/-- A line that holds annotations only. -/
structure Line where
  indent : LineBlanks
  first : Mark
  more : List Mark

/-- A field, the lines of annotations above it, and the annotations in front of it on its line. -/
structure Member where
  lines : List Line
  inline : List Name
  type : Name
  name : Name

/-- A class whose members are fields. -/
structure Class where
  name : Name
  members : List Member

def Line.marks (line : Line) : List Mark := line.first :: line.more

def Line.print (line : Line) : List Char := line.indent.1 ++ (printMarks line.marks ++ ['\n'])

def printLines (lines : List Line) : List Char := lines.flatMap Line.print

def space : LineBlanks := ⟨[' '], List.forall_mem_singleton.2 (by decide)⟩

def indent : LineBlanks :=
  ⟨[' ', ' '], List.forall_mem_cons.2 ⟨by decide, List.forall_mem_singleton.2 (by decide)⟩⟩

/-- Annotations with a space behind each. -/
def spaced (names : List Name) : List Mark := names.map (⟨·, space⟩)

namespace Member

variable (m : Member)

/-- What stands in front of the type of a field. -/
def printFront : List Char := printLines m.lines ++ (indent.1 ++ printMarks (spaced m.inline))

def printField : List Char := m.type.text ++ ' ' :: (m.name.text ++ [';'])

def print : List Char := m.printFront ++ (m.printField ++ ['\n'])

/-- The annotations of a member, from top to bottom. -/
def names : List (List Char) :=
  markNames (m.lines.flatMap Line.marks) ++ m.inline.map Name.text

/-- The annotations that are written for a field. -/
def written : List String := m.names.map String.ofList

end Member

def printMembers (members : List Member) : List Char := members.flatMap Member.print

/-- The line of a class, without its end. -/
def Class.printHead (c : Class) : List Char :=
  "class".toList ++ ([' '] ++ (c.name.text ++ [' ', '\x7b']))

def Class.print (c : Class) : List Char :=
  c.printHead ++ (['\n'] ++ (printMembers c.members ++ ['\x7d', '\n']))

/-! ### What is read -/

/-- What is left of a name when a modifier at its end is taken for one of a field. -/
def cutName (w : List Char) : List Char :=
  match endingModifier? w with
  | some k => w.take (w.length - k.toList.length)
  | none => w

/-- The last name is cut. -/
def cutLast (names : List (List Char)) : List (List Char) :=
  names.dropLast ++ (names.getLast?.map cutName).toList

/-- The annotations of its own with which a field is read. -/
def Member.read (m : Member) : List String := (cutLast m.names).map String.ofList

/-- The annotations that go over to the next field: those that stand in front of this one and its
own, if its line shows any. -/
def Member.carried (m : Member) (above : List String) : List String :=
  if m.inline.isEmpty then [] else above ++ m.written

/-- The fields with their types and annotations, when some annotations stand above the first one. -/
def attributed : List String → List Member → List (String × String × List String)
  | _, [] => []
  | above, m :: members =>
    (String.ofList m.name.text, String.ofList m.type.text, above ++ m.read) ::
      attributed (m.carried above) members

@[simp] lemma cutLast_nil : cutLast [] = [] := rfl

@[simp] lemma cutLast_concat (names : List (List Char)) (w : List Char) :
    cutLast (names ++ [w]) = names ++ [cutName w] := by
  simp [cutLast]

lemma cutName_of_eq_none {w : List Char} (h : endingModifier? w = none) : cutName w = w := by
  rw [cutName, h]

lemma cutName_of_eq_some {u : List Char} {k : String}
    (h : endingModifier? (u ++ k.toList) = some k) : cutName (u ++ k.toList) = u := by
  simp [cutName, h]

@[simp] lemma printMembers_cons (m : Member) (members : List Member) :
    printMembers (m :: members) = m.print ++ printMembers members := rfl

lemma markNames_append (marks marks' : List Mark) :
    markNames (marks ++ marks') = markNames marks ++ markNames marks' := List.map_append

@[simp] lemma markNames_spaced (names : List Name) : markNames (spaced names) = names.map Name.text := by
  simp [markNames, spaced]

/-! ### When annotations stay with their field -/

lemma cutName_eq_iff {w : List Char} : cutName w = w ↔ endingModifier? w = none := by
  constructor
  · intro h
    cases hends : endingModifier? w with
    | none => rfl
    | some k =>
      obtain ⟨hk, u, rfl⟩ := of_endingModifier?_eq_some hends
      rw [cutName_of_eq_some hends] at h
      have hnil := List.self_eq_append_right.1 h
      have hne := (plainWord_of_fieldKeywords k hk).ne_nil
      exact absurd hnil hne
  · exact cutName_of_eq_none

lemma Member.read_eq_written_iff (m : Member) :
    m.read = m.written ↔ ∀ w ∈ m.names.getLast?, endingModifier? w = none := by
  have hmap : m.read = m.written ↔ cutLast m.names = m.names :=
    (List.map_injective_iff.2 fun _ _ h => String.ofList_inj.1 h).eq_iff
  rw [hmap]
  rcases List.eq_nil_or_concat m.names with hnames | ⟨names, w, hnames⟩
  · simp [hnames]
  · rw [hnames, List.concat_eq_append, cutLast_concat, List.getLast?_concat]
    simp [cutName_eq_iff]

lemma length_cutLast (names : List (List Char)) : (cutLast names).length = names.length := by
  rcases List.eq_nil_or_concat names with rfl | ⟨names, w, rfl⟩
  · rfl
  · simp

/-- A field is read as it is written when nothing stands above it and its last name is not cut. -/
lemma append_read_eq_written_iff (names : List String) (m : Member) :
    names ++ m.read = m.written ↔
      names = [] ∧ ∀ w ∈ m.names.getLast?, endingModifier? w = none := by
  rw [← m.read_eq_written_iff]
  constructor
  · intro h
    have hlength := congrArg List.length h
    simp only [List.length_append, Member.read, Member.written, List.length_map, length_cutLast]
      at hlength
    have hnil : names = [] := List.eq_nil_of_length_eq_zero (by omega)
    subst hnil
    exact ⟨rfl, h⟩
  · rintro ⟨rfl, h⟩
    exact h

lemma Member.carried_eq_nil_iff (m : Member) : m.carried [] = [] ↔ m.inline = [] := by
  rw [carried, List.nil_append]
  cases hinline : m.inline with
  | nil => simp
  | cons name names => simp [written, Member.names, hinline]

/-- All fields are read as they are written exactly when nothing stands above the first one, no line
of another field shows annotations, and no last name is cut. -/
lemma attributed_eq_written_iff (names : List String) (m : Member) (members : List Member) :
    (attributed names (m :: members)).map (·.2.2) = (m :: members).map Member.written ↔
      names = [] ∧ (∀ m' ∈ (m :: members).dropLast, m'.inline = []) ∧
        ∀ m' ∈ m :: members, ∀ w ∈ m'.names.getLast?, endingModifier? w = none := by
  induction members generalizing names m with
  | nil => simp [attributed, append_read_eq_written_iff]
  | cons next members ih =>
    rw [attributed, List.map_cons, List.map_cons, List.cons.injEq, ih, append_read_eq_written_iff,
      List.dropLast_cons_cons]
    constructor
    · rintro ⟨⟨rfl, hplain⟩, hcarried, hinline, hrest⟩
      exact ⟨rfl, List.forall_mem_cons.2 ⟨m.carried_eq_nil_iff.1 hcarried, hinline⟩,
        List.forall_mem_cons.2 ⟨hplain, hrest⟩⟩
    · rintro ⟨rfl, hinline, hplain⟩
      obtain ⟨hcarried, hinline⟩ := List.forall_mem_cons.1 hinline
      obtain ⟨hplain, hrest⟩ := List.forall_mem_cons.1 hplain
      exact ⟨⟨rfl, hplain⟩, m.carried_eq_nil_iff.2 hcarried, hinline, hrest⟩

/-! ### Annotations above a place -/

/-- A line shows the annotations with a space behind each. -/
lemma namesIn_spaced {u back : List Char} (names : List Name) (hu : '@' ∉ u) (hback : '@' ∉ back) :
    Annotations.namesIn (u ++ (printMarks (spaced names) ++ back)) =
      (names.map Name.text).map String.ofList := by
  rw [← markNames_spaced]
  refine Annotations.namesIn_printMarks hu hback fun mark hmark => ?_
  obtain ⟨name, -, rfl⟩ := List.mem_map.1 (List.mem_of_mem_getLast? hmark)
  exact Annotations.endsMark_cons_of_blank (by decide) back

lemma isMarkChar_of_mem_append_mark {c : Char} {marks : List Mark} {w : List Char} (hw : WordText w)
    (h : c ∈ printMarks marks ++ '@' :: w) : IsMarkChar c := by
  rcases List.mem_append.1 h with h | h
  · exact isMarkChar_of_mem_printMarks h
  · rcases List.mem_cons.1 h with rfl | h
    · exact Or.inl rfl
    · exact Or.inr (Or.inl (hw.all_wordChar c h))

lemma LineBlanks.isMarkChar (u : LineBlanks) {c : Char} (h : c ∈ u.1) : IsMarkChar c :=
  Or.inr (Or.inr (u.2 c h))

namespace Member

variable (m : Member)

lemma mem_printField {c : Char} (h : c ∈ m.printField) : isWordChar c = true ∨ c = ' ' ∨ c = ';' := by
  simp only [printField, List.mem_append, List.mem_cons, List.not_mem_nil, or_false] at h
  rcases h with h | h | h | h
  · exact Or.inl (m.type.isText.all_wordChar c h)
  · exact Or.inr (Or.inl h)
  · exact Or.inl (m.name.isText.all_wordChar c h)
  · exact Or.inr (Or.inr h)

lemma at_notMem_printField : '@' ∉ m.printField :=
  fun hmem => absurd (m.mem_printField hmem) (by decide)

lemma newline_notMem_printField : '\n' ∉ m.printField :=
  fun hmem => absurd (m.mem_printField hmem) (by decide)

end Member

/-- A text ends with a whole line, and going upwards from there one finds the given annotations. -/
def Above (front : List Char) (names : List String) : Prop :=
  ∃ ls, lines front = ls ++ [[]] ∧ Annotations.namesAbove ls.reverse = names

namespace Above

variable {front : List Char} {names : List String}

/-- The annotations of a place in front of which its line holds annotations only. -/
lemma namesAt (h : Above front names) {own : List Char} (hown : ∀ c ∈ own, IsMarkChar c)
    (back : List Char) :
    Annotations.namesAt (.ofText (front ++ own ++ back)) (byteLength (front ++ own)) =
      names ++ Annotations.namesIn own := by
  obtain ⟨ls, hlines, hnames⟩ := h
  have hrow := lines_append_of_notMem hlines (u := own)
    fun hmem => (hown _ hmem).ne_newline rfl
  rw [Annotations.namesAt_byteLength hrow (fun c hc => (hown c hc).not_boundary), hnames]
  rfl

/-- The walk goes over a line that shows annotations, and it stops at another one. -/
lemma line (h : Above front names) {u core v : List Char} (hu : ∀ c ∈ u, isBlank c = true ∧ c ≠ '\n')
    (hv : ∀ c ∈ v, isBlank c = true ∧ c ≠ '\n') (hcore : '\n' ∉ core)
    (hhead : ∃ c rest, core = c :: rest ∧ (c = '@' ∨ isWordChar c = true))
    (hlast : ∀ c ∈ core.getLast?, isBlank c = false) :
    Above (front ++ (u ++ (core ++ (v ++ ['\n']))))
      (if (Annotations.namesIn core).isEmpty then [] else names ++ Annotations.namesIn core) := by
  obtain ⟨ls, hlines, hnames⟩ := h
  obtain ⟨c, rest, rfl, hc⟩ := hhead
  have hfirst : isBlank c = false ∧ c ≠ '/' ∧ c ≠ '*' := by
    rcases hc with rfl | hc
    · decide
    · refine ⟨isBlank_of_isWordChar hc, ?_, ?_⟩ <;> rintro rfl <;> exact absurd hc (by decide)
  obtain ⟨hblank, hslash, hstar⟩ := hfirst
  have htrim : trim (u ++ (c :: rest ++ v)) = c :: rest := by
    rw [trim_append_of_blank_left fun d hd => (hu d hd).1,
      trim_append_of_blank_right fun d hd => (hv d hd).1]
    exact trim_eq_self (by simpa using hblank) hlast
  have hpassed : Annotations.isPassedOver (c :: rest) = false := by
    simp [Annotations.isPassedOver, Annotations.isCommentLine, List.isPrefixOf, hslash.symm,
      hstar.symm]
  have hnewline : '\n' ∉ u ++ (c :: rest ++ v) := by
    intro hmem
    rcases List.mem_append.1 hmem with hmem | hmem
    · exact (hu _ hmem).2 rfl
    · rcases List.mem_append.1 hmem with hmem | hmem
      · exact hcore hmem
      · exact (hv _ hmem).2 rfl
  have hrow := lines_append_newline (lines_append_of_notMem hlines hnewline)
  refine ⟨ls ++ [u ++ (c :: rest ++ v)], by simpa using hrow, ?_⟩
  rw [List.reverse_append, List.reverse_singleton, List.singleton_append, Annotations.namesAbove,
    htrim, hpassed]
  cases Annotations.namesIn (c :: rest) <;> simp [hnames]

/-- A line of annotations goes with the ones above it. -/
lemma printLine (h : Above front names) (row : Line) :
    Above (front ++ row.print) (names ++ (markNames row.marks).map String.ofList) := by
  obtain ⟨marks, last, hmarks⟩ := (List.eq_nil_or_concat row.marks).resolve_left (by simp [Line.marks])
  rw [List.concat_eq_append] at hmarks
  have hnames := Annotations.namesIn_printMarks_append_mark (u := []) (by simp) marks last.name.isText
  have hshown : markNames row.marks = markNames marks ++ [last.name.text] := by
    rw [hmarks, markNames_append]
    rfl
  have hcore : '\n' ∉ printMarks marks ++ '@' :: last.name.text := fun hmem =>
    (isMarkChar_of_mem_append_mark last.name.isText hmem).ne_newline rfl
  have habove := h.line row.indent.2 last.gap.2 hcore ?_ ?_
  · rw [List.nil_append, ← hshown] at hnames
    rw [hnames] at habove
    have hprint : row.print =
        row.indent.1 ++ (printMarks marks ++ '@' :: last.name.text ++ (last.gap.1 ++ ['\n'])) := by
      rw [Line.print, hmarks, printMarks_append, printMarks_cons]
      simp [printMarks]
    rw [hprint]
    simpa [hshown] using habove
  · cases marks with
    | nil => exact ⟨'@', _, rfl, Or.inl rfl⟩
    | cons mark marks => exact ⟨'@', _, by rw [printMarks_cons, List.cons_append], Or.inl rfl⟩
  · intro c hc
    have hmem : c ∈ last.name.text := by
      rw [← List.singleton_append, ← List.append_assoc,
        List.getLast?_append_of_ne_nil _ last.name.isText.ne_nil] at hc
      exact List.mem_of_getLast? hc
    exact isBlank_of_isWordChar (last.name.isText.all_wordChar c hmem)

/-- Lines of annotations go with the ones above them. -/
lemma printLines (h : Above front names) (rows : List Line) :
    Above (front ++ Annotated.printLines rows)
      (names ++ (markNames (rows.flatMap Line.marks)).map String.ofList) := by
  induction rows generalizing front names with
  | nil => simpa [Annotated.printLines, markNames] using h
  | cons row rows ih =>
    have hrest := ih (h.printLine row)
    rw [List.flatMap_cons, markNames_append, List.map_append, ← List.append_assoc]
    rwa [List.append_assoc] at hrest

/-- The annotations of a place behind lines of annotations. -/
lemma namesAt_behind (h : Above front names) (rows : List Line) {own : List Char}
    {shown : List (List Char)} (hown : ∀ c ∈ own, IsMarkChar c)
    (hshown : Annotations.namesIn own = shown.map String.ofList) (rest : List Char) :
    Annotations.namesAt (.ofText (front ++ (Annotated.printLines rows ++ own) ++ rest))
      (byteLength (front ++ (Annotated.printLines rows ++ own))) =
      names ++ (markNames (rows.flatMap Line.marks) ++ shown).map String.ofList := by
  have hplace := (h.printLines rows).namesAt hown rest
  rw [← List.append_assoc, hplace, hshown, List.map_append, List.append_assoc]

/-- In front of the type of a field all annotations that are written for it are seen. -/
lemma namesAt_printFront (h : Above front names) (m : Member) (rest : List Char) :
    Annotations.namesAt (.ofText (front ++ m.printFront ++ rest))
      (byteLength (front ++ m.printFront)) = names ++ m.written := by
  have hown : ∀ c ∈ indent.1 ++ printMarks (spaced m.inline), IsMarkChar c := fun c hc =>
    (List.mem_append.1 hc).elim indent.isMarkChar isMarkChar_of_mem_printMarks
  have hshown := namesIn_spaced m.inline indent.at_notMem (List.not_mem_nil)
  rw [List.append_nil] at hshown
  exact h.namesAt_behind m.lines hown hshown rest

/-- In the middle of the last name, only its start is seen. -/
lemma namesAt_start (h : Above front names) (rows : List Line) (u : LineBlanks) (marks : List Mark)
    {w : List Char} (hw : WordText w) (rest : List Char) :
    Annotations.namesAt
      (.ofText (front ++ (Annotated.printLines rows ++ (u.1 ++ (printMarks marks ++ '@' :: w))) ++ rest))
      (byteLength (front ++ (Annotated.printLines rows ++ (u.1 ++ (printMarks marks ++ '@' :: w))))) =
      names ++ (markNames (rows.flatMap Line.marks) ++ (markNames marks ++ [w])).map String.ofList := by
  have hown : ∀ c ∈ u.1 ++ (printMarks marks ++ '@' :: w), IsMarkChar c := fun c hc =>
    (List.mem_append.1 hc).elim u.isMarkChar (isMarkChar_of_mem_append_mark hw)
  exact h.namesAt_behind rows hown
    (Annotations.namesIn_printMarks_append_mark u.at_notMem marks hw) rest

/-- Behind a member, the walk goes on to the annotations that stand in front of it when the line of
its field shows any. -/
lemma member (h : Above front names) (m : Member) : Above (front ++ m.print) (m.carried names) := by
  have hshown := namesIn_spaced m.inline List.not_mem_nil m.at_notMem_printField
  have hcore : '\n' ∉ printMarks (spaced m.inline) ++ m.printField := by
    intro hmem
    rcases List.mem_append.1 hmem with hmem | hmem
    · exact (isMarkChar_of_mem_printMarks hmem).ne_newline rfl
    · exact m.newline_notMem_printField hmem
  have habove := (h.printLines m.lines).line indent.2 (v := []) (by simp) hcore ?_ ?_
  · rw [List.nil_append] at hshown
    rw [hshown] at habove
    have hprint : m.print = Annotated.printLines m.lines ++
        (indent.1 ++ (printMarks (spaced m.inline) ++ m.printField ++ ([] ++ ['\n']))) := by
      simp [Member.print, Member.printFront]
    rw [hprint, ← List.append_assoc]
    simpa [Member.carried, Member.written, Member.names] using habove
  · cases m.inline with
    | nil =>
      obtain ⟨c, rest, htext, hc⟩ := m.type.isText.exists_cons
      exact ⟨c, _, by rw [Member.printField, htext]; rfl, Or.inr hc⟩
    | cons name names => exact ⟨'@', _, rfl, Or.inl rfl⟩
  · intro c hc
    have hlast : m.printField.getLast? = some ';' := by
      rw [Member.printField, ← List.cons_append, ← List.append_assoc, List.getLast?_concat]
    rw [List.getLast?_append, hlast] at hc
    obtain rfl : ';' = c := by simpa using hc
    decide

end Above

end Annotated

end Survey
