/-
# Reading printed lines

Every line of a canonical document is recognised by the shape that it was printed for, and the
groups of the match hold the parts of the line.  Most parts have one way only.  The exception is the
type of an attribute: its words are taken one by one, as few as possible, and a name may stand
behind each of them.  Only behind the last word the name is followed by the semicolon
(`silentAt_attributeEnd`).
-/
import Survey.Proofs.Pattern.Finds
import Survey.Proofs.RemoteInterface.Documents
import Survey.Proofs.Text.Rejoining

namespace Survey.RemoteDocument

open Survey.Text Survey.Pattern

variable {cls : Char → Bool} {c : Char} {next rest : List Char}

/-! ### Words -/

lemma Spelled.takes (w : Spelled cls) (hnext : ∀ c ∈ next.head?, cls c = false) :
    (all cls 1).Takes w.text next := takes_all w.all_cls w.length_pos hnext

lemma TypeWord.head_not_blank (w : TypeWord) (rest : List Char) :
    ∀ c ∈ (w.text ++ rest).head?, isBlank c = false := by
  obtain ⟨c, u, htext, hc⟩ := w.exists_cons
  simpa [htext] using isBlank_of_isTypeChar hc

lemma TypeWord.trim_text (w : TypeWord) : trim w.text = w.text :=
  trim_of_no_blank fun c hc => isBlank_of_isTypeChar (w.all_cls c hc)

/-- The name of an inherited interface is one of the words that may stand in a type. -/
def Base.toTypeWord (b : Base) : TypeWord :=
  ⟨b.text, b.ne_nil, fun c hc => isTypeChar_of_isBaseChar (b.all_cls c hc)⟩

/-- A name is one of the words that may stand in a type. -/
def Word.toTypeWord (w : Word) : TypeWord := ⟨w.text, w.ne_nil, w.isTypeChar⟩

lemma Word.head_not_blank (w : Word) (rest : List Char) :
    ∀ c ∈ (w.text ++ rest).head?, isBlank c = false := w.toTypeWord.head_not_blank rest

lemma space_not_word (rest : List Char) : ∀ c ∈ (' ' :: rest).head?, isWordChar c = false :=
  head?_not_mem (c := ' ') rfl (by decide)

lemma space_not_typeChar (rest : List Char) :
    ∀ c ∈ (' ' :: rest).head?, RemoteShape.isTypeChar c = false :=
  head?_not_mem (c := ' ') rfl (by decide)

/-- The name that is found in a word is followed by the rest of the word or by the next one, so nothing is
found that has to begin in another way. -/
lemma silentAt_name_append {p : Pattern}
    (hp : ∀ c rest, RemoteShape.isTypeChar c = true → p.SilentAt (c :: rest)) (n : Nat)
    (w next : TypeWord) (rest : List Char) :
    (blanks ++ (group n Pattern.name ++ (anyBlanks ++ p))).SilentAt
      ([' '] ++ (w.text ++ ([' '] ++ (next.text ++ rest)))) := by
  have hnext : (anyBlanks ++ p).SilentAt ([' '] ++ (next.text ++ rest)) := by
    have hblanks : anyBlanks.Takes [' '] (next.text ++ rest) :=
      takes_anyBlanks_space (next.head_not_blank rest)
    obtain ⟨c, u, htext, hc⟩ := next.exists_cons
    refine hblanks.silentAt_append ?_
    rw [htext, List.cons_append]
    exact hp c _ hc
  refine (takes_blanks (w.head_not_blank _)).silentAt_append ?_
  -- the name goes on to the first character of the word that may stand in no name
  obtain ⟨name, u, htext, hname, hrest⟩ := Cursor.exists_stop isWordChar w.text
  have hstop : ∀ c ∈ (u ++ ([' '] ++ (next.text ++ rest))).head?, isWordChar c = false := by
    cases u with
    | nil => exact space_not_word _
    | cons d u => exact head?_not_mem (c := d) rfl (hrest d rfl)
  have hend : (anyBlanks ++ p).SilentAt (u ++ ([' '] ++ (next.text ++ rest))) := by
    cases u with
    | nil => exact hnext
    | cons d u =>
      have hd : RemoteShape.isTypeChar d = true := w.all_cls d (by rw [htext]; simp)
      have hblanks : anyBlanks.Takes [] (d :: (u ++ ([' '] ++ (next.text ++ rest)))) :=
        takes_anyBlanks_nil (by simpa using isBlank_of_isTypeChar hd)
      exact hblanks.silentAt_append (hp d _ hd)
  rw [htext, List.append_assoc]
  cases name with
  | nil => exact ((silentAt_all hstop).group n).append _
  | cons d name =>
    have htakes : Pattern.name.Takes (d :: name) _ := takes_all hname (by simp) hstop
    exact htakes.silentAt_group_append hend n

lemma append_at_end (u v w x y : List Char) :
    u ++ (v ++ (w ++ x)) ++ y = u ++ (v ++ (w ++ (x ++ y))) := by
  simp only [List.append_assoc]

/-! ### Modules -/

lemma onlyAtStart_moduleLine : RemoteShape.moduleLine.OnlyAtStart :=
  ((onlyAtStart_textStart.append _).append _).append _

lemma ways_moduleLine (s : Progress) :
    RemoteShape.moduleLine.ways s =
      (textStart ++ (lit "module" ++ (blanks ++ group 1 Pattern.name))).ways s := by
  rw [RemoteShape.moduleLine, ways_append_assoc, ways_append_assoc]

lemma find?_moduleLine_of_ne (hc : c ≠ 'm') : RemoteShape.moduleLine.find? (c :: rest) = none := by
  have hkeyword : (lit "module").SilentAt (c :: rest) := silentAt_lit_of_ne rfl hc.symm
  have hsilent := (hkeyword.append (blanks ++ group 1 Pattern.name)).textStart_append
  rw [onlyAtStart_moduleLine.find?_eq_matchAt?]
  exact matchAt?_of_ways_eq_nil ((ways_moduleLine _).trans (hsilent [] []))

lemma Module.find?_moduleLine (m : Module) :
    ∃ found, RemoteShape.moduleLine.find? m.headLine = some found ∧
      found.groupText 1 = m.name.text := by
  have htext : m.headLine = "module".toList ++ ([' '] ++ (m.name.text ++ ([' '] ++ ['\x7b']))) :=
    append_at_end _ _ _ _ _
  have hblanks := takes_blanks (m.name.head_not_blank ([' '] ++ ['\x7b']))
  have hname := m.name.takes (space_not_word ['\x7b'])
  have hreads := (takes_lit "module" _).reads.append (hblanks.reads.append (hname.reads.group 1))
  rw [htext]
  exact ⟨_, hreads.find?_behind (first_textStart _ _) ways_moduleLine, Span.text_between _ _ _⟩

/-! ### Interfaces -/

/-- What may stand in front of the name of an interface. -/
def interfaceModifiers : Pattern :=
  optional (either (lit "abstract" ++ blanks) (lit "local" ++ blanks))

/-- What may stand behind the name of an interface. -/
def inheritance : Pattern :=
  optional (anyBlanks ++ lit ":" ++ run Text.isBlank 0 ++
    group 2 (all RemoteShape.isInheritanceChar 1))

lemma onlyAtStart_interfaceLine : RemoteShape.interfaceLine.OnlyAtStart :=
  ((((onlyAtStart_textStart.append _).append _).append _).append _).append _

lemma ways_interfaceLine (s : Progress) :
    RemoteShape.interfaceLine.ways s =
      (textStart ++ (interfaceModifiers ++ (lit "interface" ++ (blanks ++
        (group 1 Pattern.name ++ inheritance))))).ways s := by
  rw [RemoteShape.interfaceLine, ways_append_assoc, ways_append_assoc, ways_append_assoc,
    ways_append_assoc]
  rfl

lemma takes_interfaceModifiers (ha : c ≠ 'a') (hl : c ≠ 'l') :
    interfaceModifiers.Takes [] (c :: rest) := by
  have habstract : (lit "abstract").SilentAt (c :: rest) := silentAt_lit_of_ne rfl ha.symm
  have hlocal : (lit "local").SilentAt (c :: rest) := silentAt_lit_of_ne rfl hl.symm
  exact ((habstract.append blanks).either (hlocal.append blanks)).optional

/-- The head of an interface begins with its keyword or with one of two modifiers. -/
lemma find?_interfaceLine_of_ne (ha : c ≠ 'a') (hi : c ≠ 'i') (hl : c ≠ 'l') :
    RemoteShape.interfaceLine.find? (c :: rest) = none := by
  have hkeyword : (lit "interface").SilentAt (c :: rest) := silentAt_lit_of_ne rfl hi.symm
  have hsilent := ((takes_interfaceModifiers ha hl).silentAt_append
    (hkeyword.append (blanks ++ (group 1 Pattern.name ++ inheritance)))).textStart_append
  rw [onlyAtStart_interfaceLine.find?_eq_matchAt?]
  exact matchAt?_of_ways_eq_nil ((ways_interfaceLine _).trans (hsilent [] []))

lemma find?_interfaceLine_close : RemoteShape.interfaceLine.find? ['\x7d', ';'] = none :=
  find?_interfaceLine_of_ne (by decide) (by decide) (by decide)

namespace Interface

lemma takes_noInheritance (rest : List Char) : inheritance.Takes [] ([' '] ++ ('\x7b' :: rest)) := by
  have hblanks : anyBlanks.Takes [' '] ('\x7b' :: rest) :=
    takes_anyBlanks_space (head?_not_mem (c := '\x7b') rfl (by decide))
  have hcolon : (lit ":").SilentAt ('\x7b' :: rest) := silentAt_lit_of_ne rfl (by decide)
  exact (((hblanks.silentAt_append hcolon).append _).append _).optional

lemma isInheritanceChar_of_isBaseChar (h : isBaseChar c = true) :
    RemoteShape.isInheritanceChar c = true := by
  simp only [isBaseChar, Bool.or_eq_true] at h
  rcases h with h | h <;> simp [RemoteShape.isInheritanceChar, h]

/-- A list of interfaces begins with the first of them. -/
lemma printBases_head_not_blank (base : Base) (more : List Base) (rest : List Char) :
    ∀ c ∈ (printBases (base :: more) ++ rest).head?, isBlank c = false := by
  have hhead := base.toTypeWord.head_not_blank
  cases more with
  | nil =>
    have hprint : printBases [base] = base.text := List.intercalate_singleton
    exact hprint ▸ hhead rest
  | cons next more =>
    rw [printBases_cons, List.append_assoc]
    exact hhead _

/-- The list of inherited interfaces is read with the space behind it. -/
lemma reads_inheritance (base : Base) (more : List Base) (rest : List Char) :
    inheritance.Reads ([' '] ++ [':'] ++ [' '] ++ (printBases (base :: more) ++ [' ']))
      ([' '] ++ ([':'] ++ ([' '] ++ (printBases (base :: more) ++ [' '] ++ '\x7b' :: rest))))
      ('\x7b' :: rest)
      fun front => [(2, .between (front ++ ([' '] ++ [':'] ++ [' ']))
        (printBases (base :: more) ++ [' ']) ('\x7b' :: rest))] := by
  have hlist : ∀ c ∈ printBases (base :: more) ++ [' '], RemoteShape.isInheritanceChar c = true :=
    List.forall_mem_append.2 ⟨forall_mem_printBases (fun c hc => isInheritanceChar_of_isBaseChar hc)
      (by decide) (by decide) (base :: more), List.forall_mem_singleton.2 (by decide)⟩
  have hany : anyBlanks.Takes [' '] ([':'] ++ ([' '] ++
      (printBases (base :: more) ++ [' '] ++ '\x7b' :: rest))) :=
    takes_anyBlanks_space (head?_not_mem (c := ':') rfl (by decide))
  have hrun : (run Text.isBlank 0).Reads [' ']
      ([' '] ++ (printBases (base :: more) ++ [' '] ++ '\x7b' :: rest)) _ fun _ => [] :=
    reads_run (List.forall_mem_singleton.2 rfl) (Nat.zero_le _) (by
      rw [List.append_assoc]
      exact printBases_head_not_blank base more _)
  have hall : (all RemoteShape.isInheritanceChar 1).Takes (printBases (base :: more) ++ [' '])
      ('\x7b' :: rest) :=
    takes_all hlist (by simp) (head?_not_mem (c := '\x7b') rfl (by decide))
  exact (((hany.reads.append (takes_lit ":" _).reads).append hrun).append
    (hall.reads.group 2)).optional

lemma splitCommas_printBases (bases : List Base) :
    splitCommas (printBases bases ++ [' ']) = bases.map (·.text) := by
  rw [splitCommas_append_of_blank_right (List.forall_mem_singleton.2 rfl), printBases]
  refine splitCommas_intercalate (List.forall_mem_map.2 fun base _ => ?_)
    (List.forall_mem_map.2 fun base _ hmem => ?_)
  · exact ⟨base.ne_nil, base.toTypeWord.trim_text⟩
  · exact absurd (base.all_cls ',' hmem) (by decide)

/-- The head of an interface is read with the interfaces that it inherits from. -/
lemma find?_interfaceLine (i : Interface) :
    ∃ found, RemoteShape.interfaceLine.find? i.headLine = some found ∧
      found.groupText 1 = i.name.text ∧
      splitCommas (found.groupText 2) = i.bases.map (·.text) := by
  have htext : i.headLine = "interface".toList ++ ([' '] ++ (i.name.text ++
      ((if i.bases.isEmpty then [] else [' '] ++ ([':'] ++ ([' '] ++ printBases i.bases))) ++
        [' '] ++ ['\x7b']))) :=
    append_at_end _ _ _ _ _
  have hmodifiers (rest : List Char) : interfaceModifiers.Takes [] ("interface".toList ++ rest) :=
    takes_interfaceModifiers (c := 'i') (by decide) (by decide)
  have hblanks (rest : List Char) := takes_blanks (i.name.head_not_blank rest)
  have hname (rest : List Char) := i.name.takes (space_not_word rest)
  -- the keyword and the name are read in front of whatever is inherited
  have hhead {u text back : List Char} {spans : List Char → List (Nat × Span)} (rest : List Char)
      (htext : text = ' ' :: rest) (hreads : inheritance.Reads u text back spans) :=
    (hmodifiers _).reads.append ((takes_lit "interface" _).reads.append ((hblanks _).reads.append
      (((hname rest).reads.group 1).append (htext ▸ hreads))))
  rw [htext]
  cases hbases : i.bases with
  | nil =>
    have hreads := hhead ['\x7b'] rfl (takes_noInheritance []).reads
    exact ⟨_, hreads.find?_behind (first_textStart _ _) ways_interfaceLine,
      Span.text_between _ _ _, rfl⟩
  | cons base more =>
    have hreads := hhead _ rfl (reads_inheritance base more [])
    refine ⟨_, hreads.find?_behind (first_textStart _ _) ways_interfaceLine,
      Span.text_between _ _ _, ?_⟩
    rw [← splitCommas_printBases]
    exact congrArg _ (Span.text_between _ _ _)

end Interface

/-! ### Operations -/

lemma text_line_operation (returnType : TypeWord) (name : Word) (parameters : RawParameters) :
    (Member.operation returnType name parameters).line =
      returnType.text ++ ([' '] ++ (name.text ++ (['('] ++ (parameters.text ++ ([')'] ++ [';']))))) := by
  simp only [Member.line, Member.text, List.append_assoc]

/-- An operation with a return type of one word is read from the word on, whatever stands before it. -/
lemma matchAt?_operationLine (front : List Char) (returnType : TypeWord) (name : Word)
    (parameters : RawParameters) :
    ∃ found, RemoteShape.operationLine.matchAt?
        (.between front (Member.operation returnType name parameters).line) = some found ∧
      found.groupText 1 = returnType.text ∧ found.groupText 2 = name.text ∧
      found.groupText 3 = parameters.text := by
  have htype := returnType.takes (space_not_typeChar
    (name.text ++ (['('] ++ (parameters.text ++ ([')'] ++ [';'])))))
  have hblanks := takes_blanks (name.head_not_blank (['('] ++ (parameters.text ++ ([')'] ++ [';']))))
  have hname : Pattern.name.Takes name.text (['('] ++ (parameters.text ++ ([')'] ++ [';']))) :=
    name.takes (head?_not_mem (c := '(') rfl (by decide))
  have hany : anyBlanks.Takes [] (['('] ++ (parameters.text ++ ([')'] ++ [';']))) :=
    takes_anyBlanks_nil (head?_not_mem (c := '(') rfl (by decide))
  have hparameters : (allBefore ')' 0).Takes parameters.text ([')'] ++ [';']) := by
    refine takes_all (fun c hc => ?_) (Nat.zero_le _) (head?_not_mem (c := ')') rfl (by decide))
    have hne : c ≠ ')' := fun h => parameters.not_closed (h ▸ hc)
    simpa using hne
  have hreads := ((((((htype.reads.group 1).append hblanks.reads).append
    (hname.reads.group 2)).append hany.reads).append (takes_lit "(" _).reads).append
      (hparameters.reads.group 3)).append (takes_lit ")" [';']).reads
  rw [text_line_operation]
  exact ⟨_, hreads.matchAt? front, Span.text_between _ _ _, Span.text_between _ _ _,
    Span.text_between _ _ _⟩

lemma find?_operationLine (returnType : TypeWord) (name : Word) (parameters : RawParameters) :
    ∃ found, RemoteShape.operationLine.find? (Member.operation returnType name parameters).line =
        some found ∧
      found.groupText 1 = returnType.text ∧ found.groupText 2 = name.text ∧
      found.groupText 3 = parameters.text := by
  obtain ⟨found, hmatch, hgroups⟩ := matchAt?_operationLine [] returnType name parameters
  exact ⟨found, findFrom?_of_matchAt? hmatch, hgroups⟩

/-! ### Attributes -/

/-- What may stand in front of the keyword of an attribute. -/
def attributeModifier : Pattern := optional (group 1 (lit "readonly" ++ blanks))

/-- The type of an attribute. -/
def attributeType : Pattern :=
  group 2 (all RemoteShape.isTypeChar 1 ++
    rounds (blanks ++ all RemoteShape.isTypeChar 1) .fewest)

/-- The end of a member. -/
def memberEnd : Pattern := either (lit ";") textEnd

/-- What stands behind the type of an attribute. -/
def attributeEnd : Pattern := blanks ++ (group 3 Pattern.name ++ (anyBlanks ++ memberEnd))

lemma ways_attributeLine (s : Progress) :
    RemoteShape.attributeLine.ways s =
      (wordBoundary ++ (attributeModifier ++ (lit "attribute" ++ (blanks ++
        (attributeType ++ attributeEnd))))).ways s := by
  rw [RemoteShape.attributeLine]
  simp only [ways_append_assoc]
  rfl

lemma silentAt_memberEnd (hc : c ≠ ';') : memberEnd.SilentAt (c :: rest) := by
  refine (silentAt_lit_of_ne rfl hc.symm).either fun front groups => ?_
  rw [ways_textEnd]
  rfl

/-- Behind a word of the type that is not the last one no name ends the member. -/
lemma silentAt_attributeEnd (w next : TypeWord) (rest : List Char) :
    attributeEnd.SilentAt ([' '] ++ (w.text ++ ([' '] ++ (next.text ++ rest)))) := by
  refine silentAt_name_append (fun c rest hc => silentAt_memberEnd ?_) 3 w next rest
  rintro rfl
  exact absurd hc (by decide)

/-- What comes next behind a word of the type is a space and one more word. -/
lemma exists_next (more : List TypeWord) (name : Word) (rest : List Char) :
    ∃ (next : TypeWord) (rest' : List Char),
      more.flatMap (fun w => ' ' :: w.text) ++ ([' '] ++ (name.text ++ rest)) =
        [' '] ++ (next.text ++ rest') := by
  cases more with
  | nil => exact ⟨name.toTypeWord, rest, rfl⟩
  | cons w more =>
    exact ⟨w, more.flatMap (fun w => ' ' :: w.text) ++ ([' '] ++ (name.text ++ rest)), by simp⟩

lemma takes_typeWord (w next : TypeWord) (rest : List Char) :
    (all RemoteShape.isTypeChar 1).Takes w.text ([' '] ++ (next.text ++ rest)) :=
  w.takes (space_not_typeChar _)

/-- All words of the type are taken before the name is found. -/
lemma firstInFrontOf_rounds (more : List TypeWord) (name : Word) (rest front : List Char)
    (groups : List (Nat × Span)) :
    attributeEnd.FirstInFrontOf (rounds (blanks ++ all RemoteShape.isTypeChar 1) .fewest)
      ⟨.between front (more.flatMap (fun w => ' ' :: w.text) ++ ([' '] ++ (name.text ++ rest))),
        groups⟩
      ⟨.between (front ++ more.flatMap (fun w => ' ' :: w.text)) ([' '] ++ (name.text ++ rest)),
        groups⟩ := by
  induction more generalizing front with
  | nil =>
    have hnone := firstInFrontOf_rounds_none (blanks ++ all RemoteShape.isTypeChar 1) attributeEnd
      ⟨.between front ([' '] ++ (name.text ++ rest)), groups⟩
    rwa [List.flatMap_nil, List.nil_append, List.append_nil]
  | cons w more ih =>
    obtain ⟨next, rest', hnext⟩ := exists_next more name rest
    have hmore := ih (front ++ ([' '] ++ w.text))
    have hround := (takes_blanks (w.head_not_blank ([' '] ++ (next.text ++ rest')))).append
      (takes_typeWord w next rest')
    have hpasses := Cursor.passes_between front ([' '] ++ w.text) ([' '] ++ (next.text ++ rest'))
    rw [hnext] at hmore
    have htext : (w :: more).flatMap (fun w => ' ' :: w.text) ++ ([' '] ++ (name.text ++ rest)) =
        [' '] ++ w.text ++ ([' '] ++ (next.text ++ rest')) := by
      rw [← hnext]
      simp
    have hfront : front ++ (w :: more).flatMap (fun w => ' ' :: w.text) =
        front ++ ([' '] ++ w.text) ++ more.flatMap fun w => ' ' :: w.text := by
      simp
    rw [htext, hfront]
    refine FirstInFrontOf.rounds (hround front groups) (hpasses.offset_lt_iff.2 (by simp)) ?_ hmore
    rw [Cursor.after_between, List.append_assoc]
    exact silentAt_attributeEnd w next rest'

/-- The type and the name of an attribute. -/
lemma reads_attributeType (first : TypeWord) (more : List TypeWord) (name : Word) :
    (attributeType ++ attributeEnd).Reads
      (Member.printType first more ++ ([' '] ++ (name.text ++ ([] ++ [';']))))
      (Member.printType first more ++ ([' '] ++ (name.text ++ [';']))) []
      fun front => [(3, .between (front ++ Member.printType first more ++ [' ']) name.text [';']),
        (2, .between front (Member.printType first more) ([' '] ++ (name.text ++ [';'])))] := by
  have hname : Pattern.name.Takes name.text [';'] := name.takes (head?_not_mem (c := ';') rfl (by decide))
  have hany : anyBlanks.Takes [] [';'] := takes_anyBlanks_nil (head?_not_mem (c := ';') rfl (by decide))
  have hend : attributeEnd.Reads _ ([' '] ++ (name.text ++ [';'])) [] _ :=
    (takes_blanks (name.head_not_blank [';'])).reads.append ((hname.reads.group 3).append
      (hany.reads.append (takes_lit ";" []).reads.either_left))
  have htype (front : List Char) (groups : List (Nat × Span)) :
      attributeEnd.FirstInFrontOf attributeType
        ⟨.between front (Member.printType first more ++ ([' '] ++ (name.text ++ [';']))), groups⟩
        ⟨.between (front ++ Member.printType first more) ([' '] ++ (name.text ++ [';'])),
          [(2, .between front (Member.printType first more) ([' '] ++ (name.text ++ [';'])))] ++
            groups⟩ := by
    obtain ⟨next, rest, hnext⟩ := exists_next more name [';']
    have hfirst := takes_typeWord first next rest front groups
    have hrounds := firstInFrontOf_rounds more name [';'] (front ++ first.text) groups
    rw [← hnext] at hfirst
    simpa [attributeType, Member.printType, Span.between] using
      (FirstInFrontOf.of_ways_eq hfirst hrounds).group 2
  exact Reads.append_of_firstInFrontOf rfl htype hend

/-- The line of an attribute. -/
lemma find?_attributeLine (readonly : Bool) (first : TypeWord) (more : List TypeWord) (name : Word) :
    ∃ found, RemoteShape.attributeLine.find? (Member.attribute readonly first more name).line =
        some found ∧
      (found.group? 1).isSome = readonly ∧
      found.groupText 2 = Member.printType first more ∧ found.groupText 3 = name.text := by
  have htext : (Member.attribute readonly first more name).line =
      (if readonly then "readonly".toList ++ [' '] else []) ++ ("attribute".toList ++ ([' '] ++
        (Member.printType first more ++ ([' '] ++ (name.text ++ [';']))))) := by
    refine (append_at_end _ _ _ _ _).trans ?_
    simp only [List.append_assoc]
  have hhead : ∀ c ∈ (Member.printType first more ++ ([' '] ++ (name.text ++ [';']))).head?,
      isBlank c = false := by
    rw [Member.printType, List.append_assoc]
    exact first.head_not_blank _
  have hkeyword := (takes_lit "attribute" _).reads.append
    ((takes_blanks hhead).reads.append (reads_attributeType first more name))
  rw [htext]
  cases readonly with
  | true =>
    have hreadonly : attributeModifier.Reads _ ("readonly".toList ++ ([' '] ++ ("attribute".toList ++
        ([' '] ++ (Member.printType first more ++ ([' '] ++ (name.text ++ [';']))))))) _ _ :=
      (((takes_lit "readonly" _).reads.append (takes_blanks
        (head?_not_mem (c := 'a') rfl (by decide))).reads).group 1).optional
    have hreads := hreadonly.append hkeyword
    exact ⟨_, hreads.find?_behind (first_wordBoundary rfl rfl []) ways_attributeLine, rfl,
      Span.text_between _ _ _, Span.text_between _ _ _⟩
  | false =>
    have hreadonly : attributeModifier.Takes [] ("attribute".toList ++
        ([' '] ++ (Member.printType first more ++ ([' '] ++ (name.text ++ [';']))))) := by
      have hkeyword : (lit "readonly").SilentAt ('a' :: ("ttribute".toList ++
          ([' '] ++ (Member.printType first more ++ ([' '] ++ (name.text ++ [';'])))))) :=
        silentAt_lit_of_ne rfl (by decide)
      exact ((hkeyword.append blanks).group 1).optional
    have hreads := hreadonly.reads.append hkeyword
    exact ⟨_, hreads.find?_behind (first_wordBoundary rfl rfl []) ways_attributeLine, rfl,
      Span.text_between _ _ _, Span.text_between _ _ _⟩

end Survey.RemoteDocument
