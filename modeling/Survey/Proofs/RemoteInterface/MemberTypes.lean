/-
# The types of members

Attributes and operations do not take types alike.  The type of an attribute stands between the keyword and
the name, so it keeps all of its words.  An operation is searched for: its shape asks for one word in front
of the name, and as nothing ties that word to the start of the line, the search passes over every word of a
return type but the last (`exists_silent_operationLine`).
-/
import Survey.Proofs.RemoteInterface.RoundTrip
import Survey.Proofs.RemoteInterface.Truncation

namespace Survey

open Survey.Text Survey.Pattern

/-! ### The start of a line -/

namespace LogicalLines

variable {u : List Char}

/-- Between the end of a text without comments and the start of its last line only blanks stand. -/
def AtLineStart (u : List Char) : Prop := ∀ piece ∈ (pieces u).getLast?, ∀ c ∈ piece, isBlank c = true

instance : DecidablePred AtLineStart := fun u =>
  decidable_of_iff ((pieces u).getLast?.all (·.all isBlank) = true)
    (by simp [AtLineStart, Option.all_eq_true])

lemma AtLineStart.getLast?_ne_slash (h : AtLineStart u) : u.getLast? ≠ some '/' := by
  intro hslash
  obtain ⟨u, rfl⟩ := List.getLast?_eq_some_iff.1 hslash
  obtain ⟨done, last, -, happend⟩ := exists_pieces_append u
  have hslash : pieces ['/'] = [['/']] := by decide
  have hpiece : last ++ ['/'] ∈ (pieces (u ++ ['/'])).getLast? := by
    rw [happend, hslash, prependHead_cons, List.getLast?_concat]
    rfl
  exact absurd (h _ hpiece '/' (by simp)) (by decide)

/-- What stands behind a text that ends outside comments and at the start of a line has lines of its own. -/
lemma logicalLines_append_of_atLineStart (hu : Mode.code.after u = .code)
    (hstart : AtLineStart (strip .code u)) (v : List Char) :
    logicalLines (u ++ v) = logicalLines u ++ logicalLines v := by
  have hedge : AtLineEdge (strip .code u) (strip .code v) := Or.inl hstart
  rw [logicalLines_eq, logicalLines_eq, logicalLines_eq,
    strip_append hu fun _ => hstart.getLast?_ne_slash]
  exact hedge.tidy_pieces_eq (List.forall_mem_nil _)

end LogicalLines

open LogicalLines

/-! ### Operations with any return type -/

namespace RemoteDocument

namespace Member

/-- The line of an operation with one or more words for its return type. -/
def operationLine (first : TypeWord) (more : List TypeWord) (name : Word)
    (parameters : RawParameters) : List Char :=
  printType first more ++ ([' '] ++ (name.text ++ ['('])) ++ (parameters.text ++ [')']) ++ [';']

variable (first : TypeWord) (more : List TypeWord) (name : Word) (parameters : RawParameters)

lemma exists_head_operationLine :
    ∃ c, (operationLine first more name parameters).head? = some c ∧
      RemoteShape.isTypeChar c = true := by
  obtain ⟨c, u, htext, hc⟩ := first.exists_cons
  exact ⟨c, by simp [operationLine, printType, htext], hc⟩

lemma readsBack_operationLine : ReadsBack (operationLine first more name parameters) := by
  obtain ⟨c, hhead, hc⟩ := exists_head_operationLine first more name parameters
  exact readsBack_parameters (isLineChar_operationHead (isLineChar_printType first more) name) parameters
    (head?_not_mem hhead (isBlank_of_isTypeChar hc))

/-- No operation begins in a word that is followed by two more. -/
lemma silent_operationLine (w next last : TypeWord) (rest : List Char) :
    RemoteShape.operationLine.Silent (w.text ++ [' '])
      (next.text ++ ([' '] ++ (last.text ++ rest))) := by
  have hlist : ∀ c rest, RemoteShape.isTypeChar c = true →
      (lit "(" ++ (group 3 (allBefore ')' 0) ++ lit ")")).SilentAt (c :: rest) := by
    intro c rest hc
    have hparen : (lit "(").SilentAt (c :: rest) :=
      silentAt_lit_of_ne rfl (ne_paren_of_isTypeChar hc).symm
    exact hparen.append _
  refine Silent.congr RemoteShape.ways_operationLine (Silent.append ?_ ⟨?_, trivial⟩)
  · refine silent_of_suffixes fun v hv hne => ?_
    have htakes : (all RemoteShape.isTypeChar 1).Takes v
        ([' '] ++ (next.text ++ ([' '] ++ (last.text ++ rest)))) :=
      takes_all (fun c hc => w.all_cls c (hv.mem hc)) (List.length_pos_of_ne_nil hne)
        (space_not_typeChar _)
    exact htakes.silentAt_group_append (silentAt_name_append hlist 2 next last rest) 1
  · exact ((silentAt_all (space_not_typeChar _)).group 1).append _

/-- In front of the last word of the return type no operation is found. -/
lemma exists_silent_operationLine :
    ∃ front, operationLine first more name parameters =
        front ++ (Member.operation (more.getLastD first) name parameters).line ∧
      RemoteShape.operationLine.Silent front
        (Member.operation (more.getLastD first) name parameters).line := by
  induction more generalizing first with
  | nil =>
    have hline : (Member.operation first name parameters).line =
        operationLine first [] name parameters := by
      simp only [line, text, operationLine, printType, List.flatMap_nil, List.append_nil,
        List.append_assoc]
    exact ⟨[], hline.symm, trivial⟩
  | cons w more ih =>
    obtain ⟨front, hline, hsilent⟩ := ih w
    obtain ⟨next, rest, hnext⟩ := exists_next more name
      (['('] ++ (parameters.text ++ ([')'] ++ [';'])))
    have hrest : operationLine w more name parameters = w.text ++ ([' '] ++ (next.text ++ rest)) := by
      simp only [operationLine, printType, List.append_assoc, ← hnext]
    have hword := silent_operationLine first w next rest
    rw [← hrest, hline] at hword
    rw [List.getLastD_cons]
    refine ⟨first.text ++ [' '] ++ front, ?_, hword.append hsilent⟩
    rw [List.append_assoc, ← hline]
    simp [operationLine, printType]

/-- The operation that is found has the last word of the return type. -/
lemma addMember_operationLine (i : RemoteInterface) :
    i.addMember (operationLine first more name parameters) =
      { i with operations := i.operations ++ [{
          name := String.ofList name.text
          returnType := String.ofList (more.getLastD first).text
          rawParameterList := String.ofList parameters.text }] } := by
  obtain ⟨front, hline, hsilent⟩ := exists_silent_operationLine first more name parameters
  obtain ⟨found, hmatch, htype, hname, hparameters⟩ :=
    matchAt?_operationLine front (more.getLastD first) name parameters
  have hfind : RemoteShape.operationLine.find? (operationLine first more name parameters) =
      some found := by
    rw [hline, find?, Cursor.ofText_eq_between, findFrom?_of_skips (hsilent.skips [])]
    exact findFrom?_of_matchAt? hmatch
  have hopen : (operationLine first more name parameters).contains '(' = true := by
    simp [operationLine]
  have hclose : (operationLine first more name parameters).contains ')' = true := by
    simp [operationLine]
  rw [RemoteInterface.addMember, hopen, hclose]
  simp [RemoteInterface.operation?, hfind, htype, hname, hparameters, parameters.trimmed]

/-- The last word is the whole type exactly if it is the only one. -/
lemma text_getLastD_eq_printType_iff :
    (more.getLastD first).text = printType first more ↔ more = [] := by
  constructor
  · intro heq
    cases more with
    | nil => rfl
    | cons w more =>
      -- a type of two words has a space in it
      have hspace : ' ' ∈ printType first (w :: more) := by simp [printType]
      rw [← heq] at hspace
      exact absurd ((((w :: more).getLastD first).all_cls ' ' hspace)) (by decide)
  · rintro rfl
    simp [printType]

end Member

end RemoteDocument

open RemoteDocument

/-! ### Members in an interface block -/

namespace RemoteInterface

/-- What has been read at the end of the first part of a document. -/
def Reading.behind (front : List Char) : Reading := (logicalLines front).foldl Reading.read Reading.start

/-- The first part of a document leaves an interface open at the start of a line: it does not end in a
comment, and behind the finished interfaces the one at the given place is open, with the members that came
first. -/
structure LeavesOpen (front : List Char) (place : Nat) (i : RemoteInterface) : Prop where
  after_eq : Mode.code.after front = .code
  atLineStart : AtLineStart (strip .code front)
  current_eq : (Reading.behind front).current = some i
  length_eq : (Reading.behind front).finished.length = place

/-- Whatever stands behind the first part of a document, the interface at a place goes on as the given one. -/
def Declares (front : List Char) (place : Nat) (i : RemoteInterface) : Prop :=
  ∀ back path, ∃ interfaces j, parse (String.ofList (front ++ back)) path = .ok interfaces ∧
    interfaces[place]? = some j ∧ i.GoesOn j

variable {front line : List Char} {place : Nat} {i : RemoteInterface}

/-- A line that is read back is a member of the open interface. -/
lemma LeavesOpen.declares_addMember (h : LeavesOpen front place i) (hline : ReadsBack line) {c : Char}
    (hhead : line.head? = some c) (hc : RemoteShape.isTypeChar c = true) :
    Declares (front ++ line) place (i.addMember line) := by
  intro back path
  have hlines : logicalLines (front ++ line ++ back) =
      logicalLines front ++ line :: logicalLines back := by
    rw [List.append_assoc, logicalLines_append_of_atLineStart h.after_eq h.atLineStart,
      logicalLines_eq (line ++ back), hline, ← logicalLines_eq]
  have hread := Reading.read_eq_addMember h.current_eq hhead hc
  have hfinished : ((Reading.behind front).read line).finished = (Reading.behind front).finished := by
    rw [hread]
  obtain ⟨opened, more, hinterfaces, hgoesOn⟩ :=
    Reading.exists_interfaces_foldl_read (logicalLines back) ((Reading.behind front).read line)
  rw [hread, Option.toList_some, List.forall₂_cons_left_iff] at hgoesOn
  obtain ⟨j, rest, hj, -, rfl⟩ := hgoesOn
  have hdocument : ofLines (logicalLines (front ++ line ++ back)) =
      (Reading.behind front).finished ++ (j :: rest ++ more) := by
    rw [hlines, ofLines, List.foldl_append, List.foldl_cons, ← hfinished]
    exact hinterfaces
  refine ⟨(Reading.behind front).finished ++ (j :: rest ++ more), j, ?_, ?_, hj⟩
  · rw [parse, String.toList_ofList, hdocument]
    exact if_neg fun hnone => by simp at hnone
  · rw [← h.length_eq]
    simp

/-- **Operations and attributes do not read types alike.**  In an open interface an attribute declares its
type with all of its words, and an operation its return type with the last word only, which is the whole
type exactly if it is one word. -/
theorem declares_types (h : LeavesOpen front place i) (first : TypeWord) (more : List TypeWord)
    (name : Word) (parameters : RawParameters) :
    Declares (front ++ Member.operationLine first more name parameters) place
        { i with operations := i.operations ++ [{
            name := String.ofList name.text
            returnType := String.ofList (more.getLastD first).text
            rawParameterList := String.ofList parameters.text }] } ∧
      Declares (front ++ (Member.attribute false first more name).line) place
        { i with attributes := i.attributes ++ [{
            name := String.ofList name.text
            type := String.ofList (Member.printType first more)
            readonly := false }] } ∧
      (String.ofList (more.getLastD first).text = String.ofList (Member.printType first more) ↔
        more = []) := by
  refine ⟨?_, ?_, ?_⟩
  · obtain ⟨c, hhead, hc⟩ := Member.exists_head_operationLine first more name parameters
    rw [← Member.addMember_operationLine]
    exact h.declares_addMember (Member.readsBack_operationLine first more name parameters) hhead hc
  · obtain ⟨c, hhead, hc⟩ := (Member.attribute false first more name).exists_head_line
    have hmember := h.declares_addMember (Member.attribute false first more name).readsBack_line hhead hc
    rw [Member.addMember_line] at hmember
    simpa [Member.operation?, Member.attribute?] using hmember
  · rw [String.ofList_inj]
    exact Member.text_getLastD_eq_printType_iff first more

/-- An operation that returns an `unsigned long` and an attribute of this type, in an interface. -/
theorem declares_unsigned_long :
    Declares ("interface I \x7b\n".toList ++ "unsigned long n();".toList) 0 {
        name := "I", module := "", operations := [⟨"n", "long", ""⟩], attributes := [],
        inheritedNames := [] } ∧
      Declares ("interface I \x7b\n".toList ++ "attribute unsigned long n;".toList) 0 {
        name := "I", module := "", operations := [], attributes := [⟨"n", "unsigned long", false⟩],
        inheritedNames := [] } := by
  have hopen : LeavesOpen "interface I \x7b\n".toList 0 {
      name := "I", module := "", operations := [], attributes := [], inheritedNames := [] } :=
    ⟨by decide, by decide, by decide +kernel, by decide +kernel⟩
  have hdeclares := declares_types hopen
    ⟨"unsigned".toList, by decide, List.all_eq_true.1 (by decide)⟩
    [⟨"long".toList, by decide, List.all_eq_true.1 (by decide)⟩]
    ⟨"n".toList, by decide, List.all_eq_true.1 (by decide)⟩
    ⟨[], rfl, opensNoComment_of_notMem (by simp), by simp, by simp⟩
  exact ⟨hdeclares.1, hdeclares.2.1⟩

/-- The first word of a return type is lost where an attribute keeps it. -/
theorem unsigned_lost :
    parse "interface I \x7b\n  unsigned long n();\n  attribute unsigned long n;\n\x7d;\n" "unit.idl" =
      .ok [{
        name := "I", module := "", operations := [⟨"n", "long", ""⟩],
        attributes := [⟨"n", "unsigned long", false⟩], inheritedNames := [] }] := by
  decide +kernel

end RemoteInterface

end Survey
