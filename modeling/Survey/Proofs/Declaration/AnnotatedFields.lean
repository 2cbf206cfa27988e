/-
# Annotated fields

In the text of a class of annotated fields the shape of fields is silent up to the place where a field
is seen, and this is the beginning of its type, or of the modifier at the end of the annotation in
front of it.  So the fields are all found, each with the annotations of that place
(`TypeDeclaration.parse_annotated`).
-/
import Survey.Proofs.Declaration.AnnotatedMembers
import Survey.Proofs.Declaration.TypeKeyword

namespace Survey

open Survey.Text Survey.Pattern Survey.Canonical

namespace Annotated

/-! ### Stretches in front of a field -/

/-- Behind blanks, if any, a character stands that belongs to no word and opens no brackets. -/
def Stops (back : List Char) : Prop :=
  ∃ gap c rest, back = gap ++ c :: rest ∧ (∀ d ∈ gap, isBlank d = true) ∧ HeadShape.isStop c = true

section

variable {back gap w : List Char}

lemma stops_at (back : List Char) : Stops ('@' :: back) := ⟨[], '@', back, rfl, by simp, by decide⟩

lemma Stops.behind_blanks (h : Stops back) (hgap : ∀ c ∈ gap, isBlank c = true) :
    Stops (gap ++ back) := by
  obtain ⟨gap', c, rest, rfl, hblank, hc⟩ := h
  refine ⟨gap ++ gap', c, rest, by rw [List.append_assoc], fun d hd => ?_, hc⟩
  exact (List.mem_append.1 hd).elim (hgap d) (hblank d)

lemma Stops.printMarks (h : Stops back) (marks : List Mark) :
    Stops (Annotated.printMarks marks ++ back) := by
  cases marks with
  | nil => exact h
  | cons mark marks =>
    rw [printMarks_cons]
    exact stops_at _

lemma silent_field_of_blank (hgap : ∀ c ∈ gap, isBlank c = true) (back : List Char) :
    Shape.field.Silent gap back :=
  silent_field_of_not_word (fun c hc => isWordChar_of_isBlank (hgap c hc)) back

lemma Stops.silent_word (h : Stops back) (hw : WordText w) : Shape.field.Silent w back := by
  obtain ⟨gap, c, rest, rfl, hgap, hc⟩ := h
  exact hw.silent_field fun v hv _ => silentAt_field_of_stop hv hgap hc rest

lemma Stops.silent_printMarks (h : Stops back) (marks : List Mark) :
    Shape.field.Silent (Annotated.printMarks marks) back := by
  induction marks with
  | nil => trivial
  | cons mark marks ih =>
    have hnext := h.printMarks marks
    have hgap := (silent_field_of_blank mark.gap.all_blank _).append ih
    have hat : Shape.field.Silent ['@'] (mark.name.text ++
        (mark.gap.1 ++ Annotated.printMarks marks) ++ back) :=
      silent_field_of_not_word (by simp; decide) _
    have hname := ((hnext.behind_blanks mark.gap.all_blank).silent_word mark.name.isText)
    rw [← List.append_assoc] at hname
    rw [printMarks_cons]
    exact hat.append (hname.append hgap)

lemma Stops.printLine (h : Stops back) (row : Line) :
    Stops (row.print ++ back) ∧ Shape.field.Silent row.print back := by
  have hend : Stops (['\n'] ++ back) := h.behind_blanks (by simp; decide)
  have hnewline : Shape.field.Silent ['\n'] back := silent_field_of_blank (by simp; decide) _
  have hmarks := (hend.printMarks row.marks).behind_blanks row.indent.all_blank
  refine ⟨by simpa [Line.print] using hmarks, ?_⟩
  exact (silent_field_of_blank row.indent.all_blank _).append
    ((hend.silent_printMarks row.marks).append hnewline)

/-- No field is seen in lines of annotations. -/
lemma Stops.printLines (h : Stops back) (rows : List Line) :
    Stops (Annotated.printLines rows ++ back) ∧
      Shape.field.Silent (Annotated.printLines rows) back := by
  induction rows with
  | nil => exact ⟨h, trivial⟩
  | cons row rows ih =>
    obtain ⟨hstops, hsilent⟩ := ih
    obtain ⟨hstops', hsilent'⟩ := hstops.printLine row
    refine ⟨?_, hsilent'.append hsilent⟩
    rwa [← List.append_assoc] at hstops'

/-- No field is seen in annotations up to the at sign of the last one. -/
lemma silent_field_up_to_at (rows : List Line) (u : LineBlanks) (marks : List Mark)
    (back : List Char) :
    Shape.field.Silent (printLines rows ++ (u.1 ++ (printMarks marks ++ ['@']))) back := by
  have hat := stops_at back
  have hmarks := (hat.printMarks marks).behind_blanks u.all_blank
  have hsign : Shape.field.Silent ['@'] back := silent_field_of_not_word (by simp; decide) _
  have hrow := (silent_field_of_blank u.all_blank _).append ((hat.silent_printMarks marks).append hsign)
  refine Silent.append ?_ hrow
  simpa using (hmarks.printLines rows).2

end

/-! ### A field is found -/

namespace Member

variable (m : Member)

/-- A field with the name, the type and some annotations of a member. -/
def ReadAs (names : List String) (field : Field) : Prop :=
  field.name = String.ofList m.name.text ∧ field.declaredType = String.ofList m.type.text ∧
    field.annotations = names

lemma isRejectedType_type : Shape.isRejectedType (String.ofList m.type.text) = false := by
  have hdeclaration : String.ofList m.type.text ∉ Shape.declarationKeywords := fun hmem =>
    m.type.not_reserved ((by decide : Shape.declarationKeywords ⊆ reservedWords) hmem)
  have hstatement : String.ofList m.type.text ∉ Shape.statementKeywords := fun hmem =>
    m.type.not_reserved ((by decide : Shape.statementKeywords ⊆ reservedWords) hmem)
  simp only [Shape.isRejectedType, Bool.or_eq_false_iff]
  exact ⟨by simpa using hdeclaration, by simpa using hstatement⟩

lemma exists_field {source : Source} {found : Match} {names : List String}
    (htype : found.groupText 2 = m.type.text) (hname : found.groupText 3 = m.name.text)
    (hnames : Annotations.namesAt source found.start = names) :
    ∃ field, Field.ofMatch? source found = some field ∧ m.ReadAs names field := by
  simp only [Field.ofMatch?, htype, m.isRejectedType_type, Bool.false_eq_true, if_false]
  exact ⟨_, rfl, congrArg String.ofList hname, rfl, hnames⟩

/-- A member is found from a chain of modifiers in front of its type on, with the annotations of that
place. -/
lemma exists_found {front pre chain back : List Char} {words names : List String}
    (hfront : m.printFront = pre ++ chain) (hchain : KeywordChain fieldKeywords words chain)
    (hsilent : Shape.field.Silent pre (chain ++ (m.printField ++ '\n' :: back)))
    (hnames : ∀ rest, Annotations.namesAt (.ofText (front ++ pre ++ rest))
      (byteLength (front ++ pre)) = names) :
    ∃ found field, Shape.field.FindsIn front m.print back [found] ∧
      Field.ofMatch? (.ofText (front ++ (m.print ++ back))) found = some field ∧
      m.ReadAs names field := by
  have hmem : String.ofList m.type.text ∉ fieldKeywords := fun hmem =>
    m.type.not_reserved (fieldKeywords_subset hmem)
  have hmatch := matchAt?_field_of_chain hchain m.type.isText hmem m.name.isText (front ++ pre)
    ('\n' :: back)
  generalize hfound : chainMatch (front ++ pre) chain m.type.text m.name.text ('\n' :: back) = found
    at hmatch
  have hprint : m.print = pre ++ (chain ++ m.printField ++ ['\n']) := by
    rw [print, hfront]
    simp
  have htext : chain ++ (m.type.text ++ ' ' :: (m.name.text ++ ';' :: '\n' :: back)) =
      chain ++ m.printField ++ ('\n' :: back) := by
    simp [printField]
  rw [htext] at hmatch
  have hstop : found.whole.stop =
      .between (front ++ pre ++ (chain ++ m.printField)) ('\n' :: back) := by
    rw [← hfound]
    exact congrArg (fun u => Cursor.between (front ++ pre ++ u) ('\n' :: back)) (by simp [printField])
  have hfield : Shape.field.FindsIn (front ++ pre) (chain ++ m.printField) (['\n'] ++ back) [found] :=
    findsIn_of_matchAt? (by simp [printField]) hmatch hstop
  have hend : Shape.field.FindsIn (front ++ pre ++ (chain ++ m.printField)) ['\n'] back [] :=
    (silent_field_of_blank (by simp; decide) back).findsIn _
  have hpre : Shape.field.FindsIn front pre (chain ++ m.printField ++ ['\n'] ++ back) [] := by
    refine Silent.findsIn ?_ front
    simpa using hsilent
  have hall := hpre.append (hfield.append hend)
  rw [← hprint] at hall
  have hplace := hnames (chain ++ m.printField ++ ['\n'] ++ back)
  have hsource : front ++ (m.print ++ back) =
      front ++ pre ++ (chain ++ m.printField ++ ['\n'] ++ back) := by
    rw [hprint]
    simp
  have hstart : found.start = byteLength (front ++ pre) := hfound ▸ rfl
  rw [← hsource, ← hstart] at hplace
  obtain ⟨field, hread, hfield⟩ := m.exists_field (hfound ▸ Span.text_between _ _ _)
    (hfound ▸ Span.text_between _ _ _) hplace
  exact ⟨found, field, hall, hread, hfield⟩

/-- The last annotation of a member, and what stands between it and the type. -/
lemma exists_last : (m.names = [] ∧ m.printFront = indent.1) ∨
    ∃ (rows : List Line) (u : LineBlanks) (marks : List Mark) (w : Name) (gap : List Char),
      IsGap gap ∧
      m.printFront = printLines rows ++ (u.1 ++ (printMarks marks ++ '@' :: (w.text ++ gap))) ∧
      m.names = markNames (rows.flatMap Line.marks) ++ (markNames marks ++ [w.text]) := by
  rcases List.eq_nil_or_concat m.inline with hinline | ⟨names, w, hinline⟩
  · rcases List.eq_nil_or_concat m.lines with hlines | ⟨rows, row, hlines⟩
    · refine Or.inl ⟨?_, ?_⟩
      · simp [names, hlines, hinline, markNames]
      · simp [printFront, hlines, hinline, Annotated.printLines, printMarks, spaced]
    · obtain ⟨marks, last, hmarks⟩ :=
        (List.eq_nil_or_concat row.marks).resolve_left (by simp [Line.marks])
      refine Or.inr ⟨rows, row.indent, marks, last.name, last.gap.1 ++ '\n' :: indent.1,
        ⟨by simp, ?_⟩, ?_, ?_⟩
      · intro c hc
        rcases List.mem_append.1 hc with hc | hc
        · exact last.gap.all_blank c hc
        · rcases List.mem_cons.1 hc with rfl | hc
          · decide
          · exact indent.all_blank c hc
      · rw [printFront, hlines, hinline]
        simp [Annotated.printLines, Line.print, hmarks, printMarks, Mark.print, spaced]
      · rw [names, hlines, hinline]
        simp [hmarks, markNames]
  · refine Or.inr ⟨m.lines, indent, spaced names, w, [' '], isGap_space, ?_, ?_⟩
    · rw [printFront, hinline]
      simp [printMarks, Mark.print, spaced, space]
    · rw [Member.names, hinline]
      simp

/-- No tail of a field stands behind the type. -/
lemma not_tailOpens_name (back : List Char) :
    ¬ TailOpens (' ' :: (m.name.text ++ ';' :: '\n' :: back)) :=
  not_tailOpens_of_word isGap_space m.name.isText _

variable (rows : List Line) (u : LineBlanks) (marks : List Mark) {gap : List Char}

/-- No field is seen in front of the type when the last name has no modifier at its end. -/
lemma silent_over_name {w : Name} (hnone : endingModifier? w.text = none) (hgap : IsGap gap)
    (back : List Char) :
    Shape.field.Silent (printLines rows ++ (u.1 ++ (printMarks marks ++ '@' :: (w.text ++ gap))))
      (m.printField ++ '\n' :: back) := by
  have hname := silent_field_of_no_modifier w.isText hnone hgap m.type.isText rfl
    (m.not_tailOpens_name back)
  have hsign := silent_field_up_to_at rows u marks (w.text ++ gap ++ (m.printField ++ '\n' :: back))
  have hblanks := silent_field_of_blank hgap.all_blank (m.printField ++ '\n' :: back)
  have hboth : Shape.field.Silent (w.text ++ gap) (m.printField ++ '\n' :: back) :=
    Silent.append (by simpa [printField] using hname) hblanks
  simpa using hsign.append hboth

/-- No field is seen in front of a modifier at the end of the last name. -/
lemma silent_up_to_modifier {k : String} (hk : k ∈ fieldKeywords) {v : List Char} (hv : WordText v)
    (hgap : IsGap gap) (back : List Char) :
    Shape.field.Silent (printLines rows ++ (u.1 ++ (printMarks marks ++ '@' :: v)))
      (k.toList ++ (gap ++ []) ++ (m.printField ++ '\n' :: back)) := by
  have hname := silent_field_before_modifier hk hv.all_wordChar hgap m.type.isText rfl
    (m.not_tailOpens_name back)
  have hsign := silent_field_up_to_at rows u marks
    (v ++ (k.toList ++ (gap ++ []) ++ (m.printField ++ '\n' :: back)))
  have hboth := hsign.append (by simpa [printField] using hname)
  simpa using hboth

/-- A member is read with the annotations above it and its own ones, the last of them cut. -/
lemma exists_read {front : List Char} {names : List String} (h : Above front names)
    (back : List Char) :
    ∃ found field, Shape.field.FindsIn front m.print back [found] ∧
      Field.ofMatch? (.ofText (front ++ (m.print ++ back))) found = some field ∧
      m.ReadAs (names ++ m.read) field := by
  rcases m.exists_last with ⟨hnone, hfront⟩ | ⟨rows, u, marks, w, gap, hgap, hfront, hlast⟩
  · have hread : m.read = m.written := by rw [read, written, hnone, cutLast_nil]
    rw [hread]
    refine m.exists_found (List.append_nil _).symm .nil ?_ (h.namesAt_printFront m)
    rw [hfront]
    exact silent_field_of_blank indent.all_blank _
  · cases hends : endingModifier? w.text with
    | none =>
      have hread : m.read = m.written := by
        rw [read, written, hlast, ← List.append_assoc, cutLast_concat, cutName_of_eq_none hends]
      rw [hread]
      refine m.exists_found (List.append_nil _).symm .nil ?_ (h.namesAt_printFront m)
      rw [hfront]
      exact m.silent_over_name rows u marks hends hgap back
    | some k =>
      obtain ⟨hk, v, hv⟩ := of_endingModifier?_eq_some hends
      have hstart : WordText v := by
        refine ⟨?_, fun c hc => w.isText.all_wordChar c (hv ▸ List.mem_append_left _ hc)⟩
        rintro rfl
        -- the name would be the modifier itself
        refine w.not_reserved (fieldKeywords_subset ?_)
        rwa [← hv, List.nil_append, String.ofList_toList]
      have hread : m.read = (markNames (rows.flatMap Line.marks) ++
          (markNames marks ++ [v])).map String.ofList := by
        rw [← hv] at hends hlast
        rw [read, hlast, ← List.append_assoc, cutLast_concat, cutName_of_eq_some hends,
          List.append_assoc]
      have hcut : m.printFront = printLines rows ++ (u.1 ++ (printMarks marks ++ '@' :: v)) ++
          (k.toList ++ (gap ++ [])) := by
        rw [hfront, ← hv]
        simp
      rw [hread]
      exact m.exists_found hcut (.cons hk hgap .nil)
        (m.silent_up_to_modifier rows u marks hk hstart hgap back)
        (h.namesAt_start rows u marks hstart)

end Member

/-- The members of a class are all found, in order. -/
lemma exists_found {front : List Char} {names : List String} (h : Above front names)
    (members : List Member) (back : List Char) :
    ∃ ms, Shape.field.FindsIn front (printMembers members) back ms ∧
      (ms.filterMap (Field.ofMatch? (.ofText (front ++ (printMembers members ++ back))))).map
        (fun field => (field.name, field.declaredType, field.annotations)) =
        attributed names members := by
  induction members generalizing front names with
  | nil => exact ⟨[], Skips.findsIn trivial, rfl⟩
  | cons m members ih =>
    obtain ⟨found, field, hfinds, hread, hname, htype, hannotations⟩ :=
      m.exists_read h (printMembers members ++ back)
    obtain ⟨ms, hrest, hfields⟩ := ih (h.member m)
    refine ⟨found :: ms, hfinds.append hrest, ?_⟩
    rw [List.append_assoc] at hfields
    rw [printMembers_cons, List.append_assoc, List.filterMap_cons_some hread, List.map_cons, hfields,
      attributed, hname, htype, hannotations]

/-! ### Classes -/

namespace Class

variable (c : Class)

lemma printHead_append (back : List Char) :
    c.printHead ++ back = "class".toList ++ ([' '] ++ (c.name.text ++ ([' ', '\x7b'] ++ back))) := by
  unfold printHead
  simp only [List.append_assoc]

lemma showsType : ShowsType c.print := by
  refine ⟨[], c.print, .classType, rfl, ?_, [' '], _, c.printHead_append _, isGap_space,
    c.name.isText.touchesWord_append _⟩
  refine (isWordBoundary_of_touchesWord ?_).2 rfl
  rw [print, printHead_append]
  exact touchesWord_keyword .classType _

lemma mem_printHead {d : Char} (hd : d ∈ c.printHead) :
    isWordChar d = true ∨ d = ' ' ∨ d = '\x7b' := by
  unfold printHead at hd
  simp only [List.mem_append] at hd
  rcases hd with hd | hd | hd | hd
  · exact Or.inl ((plainWord_keyword .classType).isWordChar d hd)
  · exact Or.inr (Or.inl (List.mem_singleton.1 hd))
  · exact Or.inl (c.name.isText.all_wordChar d hd)
  · exact Or.inr (by simpa using hd)

/-- The line of the class shows no annotations. -/
lemma above_printHead : Above (c.printHead ++ ['\n']) [] := by
  have hstart : Above [] [] := ⟨[], rfl, rfl⟩
  have hnewline : '\n' ∉ c.printHead := fun hmem => absurd (c.mem_printHead hmem) (by decide)
  have hat : '@' ∉ c.printHead := fun hmem => absurd (c.mem_printHead hmem) (by decide)
  have habove := hstart.line (u := []) (v := []) (by simp) (by simp) hnewline
    ⟨'c', _, rfl, Or.inr (by decide)⟩ ?_
  · rw [Annotations.namesIn_eq_nil hat] at habove
    exact habove
  · have hlast : c.printHead.getLast? = some '\x7b' := by
      unfold printHead
      rw [← List.append_assoc, ← List.append_assoc, List.getLast?_append]
      rfl
    rw [hlast]
    rintro d ⟨⟩
    decide

/-- No field is seen in the line of the class. -/
lemma silent_printHead (back : List Char) : Shape.field.Silent c.printHead back := by
  have hstops : Stops ([' ', '\x7b'] ++ back) :=
    ⟨[' '], '\x7b', back, rfl, isGap_space.all_blank, by decide⟩
  have hmore : ¬ TailOpens ([' ', '\x7b'] ++ back) :=
    not_tailOpens isGap_space.all_blank (by decide) (by decide) (by decide) back
  have hkeyword : Shape.field.Silent "class".toList
      ([' '] ++ (c.name.text ++ ([' ', '\x7b'] ++ back))) :=
    silent_field_of_no_modifier (.of_plainWord (plainWord_keyword .classType)) (by decide)
      isGap_space c.name.isText rfl hmore
  have hname := hstops.silent_word c.name.isText
  have hend : Shape.field.Silent [' ', '\x7b'] back :=
    silent_field_of_not_word (by simp; decide) back
  have hrest := (silent_field_of_blank isGap_space.all_blank _).append (hname.append hend)
  rw [← List.append_assoc c.name.text, ← List.append_assoc [' ']] at hkeyword
  exact hkeyword.append hrest

/-- The fields of a class are its members. -/
lemma parseAll_fields :
    (Field.parseAll (.ofText c.print)).map
      (fun field => (field.name, field.declaredType, field.annotations)) =
      attributed [] c.members := by
  obtain ⟨ms, hmembers, hread⟩ := exists_found c.above_printHead c.members ['\x7d', '\n']
  have hend : Shape.field.SilentAt [] := silentAt_field_of_touchesWord rfl
  have hhead := (c.silent_printHead
    (['\n'] ++ (printMembers c.members ++ ['\x7d', '\n']) ++ [])).findsIn []
  have hnewline : Shape.field.FindsIn ([] ++ c.printHead) ['\n']
      (printMembers c.members ++ ['\x7d', '\n'] ++ []) [] :=
    (silent_field_of_blank (by simp; decide) _).findsIn _
  have hclose := (silent_field_of_not_word (w := ['\x7d', '\n']) (by simp; decide) []).findsIn
    ([] ++ c.printHead ++ ['\n'] ++ printMembers c.members)
  rw [← List.append_nil ['\x7d', '\n']] at hmembers
  have hall := (hhead.append (hnewline.append (hmembers.append hclose))).finds hend
  rw [← print] at hall
  rw [List.append_assoc, ← print] at hread
  rw [Field.parseAll, Source.text_ofText, findAll_of_finds hall, List.nil_append, List.nil_append,
    List.append_nil, hread]

end Class

end Annotated

namespace TypeDeclaration

/-- **Annotated fields.**  A class of annotated fields is read, each field with the annotations that go
over to it and with its own ones, the last name cut.  So all fields have the annotations that are
written for them exactly when only the last field has annotations on its own line and no last name
ends with a modifier of fields. -/
theorem parse_annotated (c : Annotated.Class) (path : String) :
    ∃ d, parse (String.ofList c.print) path = .ok d ∧
      d.fields.map (fun field => (field.name, field.declaredType, field.annotations)) =
        Annotated.attributed [] c.members ∧
      (d.fields.map (·.annotations) = c.members.map Annotated.Member.written ↔
        (∀ m ∈ c.members.dropLast, m.inline = []) ∧
          ∀ m ∈ c.members, ∀ w ∈ m.names.getLast?, endingModifier? w = none) := by
  have hshows : ShowsType (String.ofList c.print).toList := by
    rw [String.toList_ofList]
    exact c.showsType
  obtain ⟨head⟩ := nonempty_typeHead hshows
  obtain ⟨m, -, -, -, -, hparse⟩ := exists_parse head path
  have hfields := c.parseAll_fields
  generalize head.kind = kind at hparse
  rw [String.toList_ofList] at hparse
  refine ⟨_, hparse, hfields, ?_⟩
  have hannotations : (Field.parseAll (.ofText c.print)).map (·.annotations) =
      (Annotated.attributed [] c.members).map (·.2.2) := by
    rw [← hfields, List.map_map]
    rfl
  refine (Iff.of_eq (congrArg (· = c.members.map Annotated.Member.written) hannotations)).trans ?_
  cases c.members with
  | nil => simp [Annotated.attributed]
  | cons m members =>
    exact (Annotated.attributed_eq_written_iff [] m members).trans (and_iff_right rfl)

/-- A field begins at the modifier with which the annotation in front of it ends. -/
example : (parse? "class C \x7b\n  @xfinal T f;\n\x7d\n" "C.java").map
    (fun d => d.fields.map fun field => (field.name, field.annotations)) = some [("f", ["x"])] := by
  decide +kernel

/-- The annotation on the line of a field goes over to the field below. -/
theorem annotation_goes_over :
    (parse? "class C \x7b\n  @B T f;\n  U g;\n\x7d\n" "C.java").map
      (fun d => d.fields.map fun field => (field.name, field.annotations)) =
      some [("f", ["B"]), ("g", ["B"])] := by
  decide +kernel

end TypeDeclaration

end Survey
