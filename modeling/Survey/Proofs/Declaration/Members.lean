/-
# Searching printed members

The shapes of methods and of fields are shapes of heads.  Over the members of a canonical unit each
of them matches the members of its own kind, from the first keyword on, and is silent over all
others: a field has no parenthesis behind its name, and in a method neither the name nor a parameter
stands in front of a semicolon or an equals sign.
-/
import Survey.Proofs.Declaration.Annotations
import Survey.Proofs.Declaration.Heads
import Survey.Proofs.Declaration.Printed
import Survey.Proofs.Text.Lines

namespace Survey

open Survey.Text Survey.Pattern Survey.Canonical Survey.Canonical.Member

variable {back rest : List Char} {c : Char}

/-! ### The two shapes -/

/-- What stands behind the name of a method. -/
def methodTail : Pattern :=
  anyBlanks ++ (lit "(" ++ (group 4 (allBefore ')' 0) ++ (lit ")" ++
    optional (anyBlanks ++ lit "throws" ++ run isBlank 1 ++ group 5 (all Shape.isThrowsChar 1)))))

/-- What stands behind the name of a field. -/
def fieldTail : Pattern :=
  optional (anyBlanks ++ lit "=" ++ run isBlank 0 ++ group 4 (allBefore ';' 1)) ++ lit ";"

lemma silentAt_anyBlanks_append {p : Pattern} (hc : isBlank c = false) (hp : p.SilentAt (c :: rest)) :
    (anyBlanks ++ p).SilentAt (c :: rest) ∧ (anyBlanks ++ p).SilentAt (' ' :: c :: rest) := by
  have hhead : ∀ d ∈ (c :: rest).head?, isBlank d = false := head?_not_mem rfl hc
  exact ⟨(takes_anyBlanks_nil hhead).silentAt_append hp,
    (takes_anyBlanks_space hhead).silentAt_append hp⟩

lemma methodKeywords_subset : methodKeywords ⊆ reservedWords := by decide

lemma fieldKeywords_subset : fieldKeywords ⊆ reservedWords := by decide

/-- The shape of methods. -/
def HeadShape.method : HeadShape where
  keywords := methodKeywords
  tail := methodTail
  openers := ['(']
  plainWord_of_mem := plainWord_of_methodKeywords
  openers_subset := by decide
  silentAt_tail c rest hblank hopen := by
    have hne : '(' ≠ c := fun heq => hopen (heq ▸ by simp)
    exact silentAt_anyBlanks_append hblank ((silentAt_lit_of_ne rfl hne).append _)

/-- The shape of fields. -/
def HeadShape.field : HeadShape where
  keywords := fieldKeywords
  tail := fieldTail
  openers := [';', '=']
  plainWord_of_mem := plainWord_of_fieldKeywords
  openers_subset := by decide
  silentAt_tail c rest hblank hopen := by
    have hsemicolon : ';' ≠ c := fun heq => hopen (heq ▸ by simp)
    have hequals : '=' ≠ c := fun heq => hopen (heq ▸ by simp)
    have hlit : (lit "=").SilentAt (c :: rest) := silentAt_lit_of_ne rfl hequals
    obtain ⟨hnil, hspace⟩ := silentAt_anyBlanks_append hblank hlit
    exact ⟨((hnil.append _).append _).optional.silentAt_append (silentAt_lit_of_ne rfl hsemicolon),
      ((hspace.append _).append _).optional.silentAt_append (silentAt_lit_of_ne rfl (by decide))⟩

lemma ways_method (s : Progress) : Shape.method.ways s = HeadShape.method.pattern.ways s := by
  rw [Shape.method, HeadShape.pattern, HeadShape.typed, HeadShape.named]
  simp only [HeadShape.method, methodTail, ways_append, List.flatMap_assoc]
  rfl

lemma ways_field (s : Progress) : Shape.field.ways s = HeadShape.field.pattern.ways s := by
  rw [Shape.field, HeadShape.pattern, HeadShape.typed, HeadShape.named]
  simp only [HeadShape.field, fieldTail, ways_append, List.flatMap_assoc]
  rfl

/-! ### Members of the other kind -/

namespace Canonical.Member

/-- No method is seen in a field. -/
lemma silent_method_field (keywords : Keywords fieldKeywords) (type : SimpleType)
    (name : Identifier) (back : List Char) :
    Shape.method.Silent (field keywords type name).print back := by
  have hend : HeadShape.method.pattern.Silent ";\n".toList back :=
    HeadShape.silent_of_not_word (by decide)
  have hhead : HeadShape.method.pattern.Silent (printHead keywords type name)
      (";\n".toList ++ back) :=
    HeadShape.silent_head plainWord_of_fieldKeywords keywords type name (c := ';') (by decide)
      (by decide)
  have hindent : HeadShape.method.pattern.Silent "  ".toList
      (printHead keywords type name ++ ";\n".toList ++ back) :=
    HeadShape.silent_of_not_word (by decide)
  exact (hindent.append (hhead.append hend)).congr ways_method

/-- No field is seen in a method. -/
lemma silent_field_method (keywords : Keywords methodKeywords) (type : SimpleType)
    (name : Identifier) (parameters : List Canonical.Parameter) (back : List Char) :
    Shape.field.Silent (method keywords type name parameters).print back := by
  have hend : HeadShape.field.pattern.Silent ") \x7b\n  \x7d\n".toList back :=
    HeadShape.silent_of_not_word (by decide)
  have hparameters : HeadShape.field.pattern.Silent (printParameters parameters)
      (") \x7b\n  \x7d\n".toList ++ back) :=
    HeadShape.silent_parameters parameters (by decide) (by decide)
  have hopen : HeadShape.field.pattern.Silent ['(']
      (printParameters parameters ++ ") \x7b\n  \x7d\n".toList ++ back) :=
    HeadShape.silent_singleton (by decide)
  have htail := hopen.append (hparameters.append hend)
  have hhead : HeadShape.field.pattern.Silent (printHead keywords type name)
      ('(' :: (printParameters parameters ++ ") \x7b\n  \x7d\n".toList) ++ back) :=
    HeadShape.silent_head plainWord_of_methodKeywords keywords type name (c := '(') (by decide)
      (by decide)
  have hindent : HeadShape.field.pattern.Silent "  ".toList
      (printHead keywords type name ++
        '(' :: (printParameters parameters ++ ") \x7b\n  \x7d\n".toList) ++ back) :=
    HeadShape.silent_of_not_word (by decide)
  exact (hindent.append (hhead.append htail)).congr ways_field

end Canonical.Member

/-! ### Members of the own kind -/

section

variable {u : List Char}

/-- Parameters reach to the first closing parenthesis; no thrown types stand behind it. -/
lemma ways_methodTail (hu : ')' ∉ u) (hc : isBlank c = false) (hthrows : 't' ≠ c)
    (front rest : List Char) (groups : List (Nat × Span)) :
    methodTail.ways ⟨.between front ('(' :: (u ++ ')' :: ' ' :: c :: rest)), groups⟩ =
      [⟨.between (front ++ '(' :: (u ++ [')'])) (' ' :: c :: rest),
        (4, .between (front ++ ['(']) u (')' :: ' ' :: c :: rest)) :: groups⟩] := by
  have hinside : (allBefore ')' 0).Takes u (')' :: ' ' :: c :: rest) := by
    refine takes_all (fun d hd => ?_) (by simp) (by simp)
    have hne : d ≠ ')' := fun heq => hu (heq ▸ hd)
    simpa using hne
  have hlit : (lit "throws").SilentAt (c :: rest) := silentAt_lit_of_ne rfl hthrows
  have hthrown := (((silentAt_anyBlanks_append hc hlit).2.append (run isBlank 1)).append
    (group 5 (all Shape.isThrowsChar 1))).optional
  have hclose := ((takes_lit ")" (' ' :: c :: rest)).append hthrown) (front ++ ['('] ++ u)
    ((4, .between (front ++ ['(']) u (')' :: ' ' :: c :: rest)) :: groups)
  have hblanks : anyBlanks.Takes [] ('(' :: (u ++ ')' :: ' ' :: c :: rest)) :=
    takes_anyBlanks_nil (head?_not_mem rfl (by decide))
  have hopen := takes_lit "(" (u ++ ')' :: ' ' :: c :: rest)
  rw [methodTail]
  refine (hblanks.ways_append _ front groups).trans ?_
  rw [List.append_nil]
  refine (hopen.ways_append _ front groups).trans ?_
  refine (ways_append_of_eq (hinside.ways_group 4 _ _)).trans ?_
  refine hclose.trans ?_
  simp

/-- The semicolon stands right behind the name of a field. -/
lemma takes_fieldTail (rest : List Char) : fieldTail.Takes [';'] rest := by
  have hequals : (lit "=").SilentAt (';' :: rest) := silentAt_lit_of_ne rfl (by decide)
  have hvalue := (((silentAt_anyBlanks_append (by decide) hequals).1.append (run isBlank 0)).append
    (group 4 (allBefore ';' 1))).optional
  exact hvalue.append (takes_lit ";" rest)

end

/-! ### Guards -/

namespace Canonical.SimpleType

lemma isRejectedType_print (type : SimpleType) :
    Shape.isRejectedType (String.ofList type.print) = false := by
  have hdeclaration := type.ofList_print_notMem Shape.declarationKeywords (by decide)
  have hstatement := type.ofList_print_notMem Shape.statementKeywords (by decide)
  simp only [Shape.isRejectedType, Bool.or_eq_false_iff]
  exact ⟨by simpa using hdeclaration, by simpa using hstatement⟩

lemma contains_visibilityKeywords_print (type : SimpleType) :
    Shape.visibilityKeywords.contains (String.ofList type.print) = false := by
  simpa using type.ofList_print_notMem Shape.visibilityKeywords (by decide)

end Canonical.SimpleType

/-! ### Found members -/

section

variable {front u : List Char} (keywords : Keywords methodKeywords)
  (type : SimpleType) (name : Identifier) (parameters : List Canonical.Parameter)

/-- What the shape of methods matches of a printed method. -/
def methodMatch (front back : List Char) : Match where
  whole := .between front
    (printHead keywords type name ++ '(' :: (printParameters parameters ++ [')'])) back
  groups :=
    (4, .between (front ++ printHead keywords type name ++ ['(']) (printParameters parameters)
      (')' :: back)) ::
    HeadShape.headGroups front (printKeywords keywords) type.print name.text
      ('(' :: (printParameters parameters ++ ')' :: back))

lemma matchAt?_method (hc : isBlank c = false) (hthrows : 't' ≠ c) (front rest : List Char) :
    Shape.method.matchAt? (.between front (printHead keywords type name ++
        '(' :: (printParameters parameters ++ [')']) ++ ' ' :: c :: rest)) =
      some (methodMatch keywords type name parameters front (' ' :: c :: rest)) := by
  have hmem : String.ofList type.head.text ∉ methodKeywords := fun hmem =>
    type.head.not_reserved (methodKeywords_subset hmem)
  have hclose : ')' ∉ printParameters parameters :=
    (madeOf_printParameters parameters).notMem (by decide) (by decide)
  have htail := first_of_ways_eq (ways_methodTail hclose hc hthrows
    (front ++ printHead keywords type name) rest
    (HeadShape.headGroups front (printKeywords keywords) type.print name.text
      ('(' :: (printParameters parameters ++ ')' :: ' ' :: c :: rest))))
  have hfirst := HeadShape.first_printHead (h := .method) keywords type name hmem (by decide) front
    htail
  rw [First, ← ways_method] at hfirst
  have hmatch := matchAt?_of_first hfirst
  simp only [methodMatch, Span.between, List.append_assoc, List.cons_append, List.nil_append]
    at hmatch ⊢
  exact hmatch

/-- What is read from the match is the method. -/
lemma ofMatch?_methodMatch (front rest : List Char)
    (hat : '@' ∉ front ++ (printHead keywords type name ++
      '(' :: (printParameters parameters ++ [')']) ++ ' ' :: (Body.printedBlock ++ rest))) :
    Method.ofMatch? (.ofText (front ++ (printHead keywords type name ++
        '(' :: (printParameters parameters ++ [')']) ++ ' ' :: (Body.printedBlock ++ rest))))
      (methodMatch keywords type name parameters front (' ' :: (Body.printedBlock ++ rest))) =
      some (methodAt (1 + newlineCount front) keywords type name parameters) := by
  generalize hm : methodMatch keywords type name parameters front
    (' ' :: (Body.printedBlock ++ rest)) = m
  have hkeywords : m.groupText 1 = printKeywords keywords := hm ▸ Span.text_between _ _ _
  have htype : m.groupText 2 = type.print := hm ▸ Span.text_between _ _ _
  have hname : m.groupText 3 = name.text := hm ▸ Span.text_between _ _ _
  have hparameters : m.groupText 4 = printParameters parameters := hm ▸ Span.text_between _ _ _
  have hthrows : groupItems m 5 = [] := hm ▸ rfl
  have hstart : m.start = byteLength front := hm ▸ rfl
  have hstop : m.stop = byteLength (front ++ (printHead keywords type name ++
      '(' :: (printParameters parameters ++ [')']))) := hm ▸ rfl
  have hbody := Body.after?_printed (front ++ (printHead keywords type name ++
      '(' :: (printParameters parameters ++ [')']))) rest
  have hcalls : Body.calls (some Body.printedBlock) = [] := by decide
  have hlines : Body.lineCount (some Body.printedBlock) = 2 := by decide
  rw [List.append_assoc] at hbody
  have hmodifiers := modifiers_printKeywords plainWord_of_methodKeywords keywords
  simp only [Method.ofMatch?, hkeywords, htype, hname, hparameters, hthrows, hstart, hstop, hbody,
    hcalls, hlines, Annotations.namesAt_eq_nil hat, type.isRejectedType_print,
    type.contains_visibilityKeywords_print, Bool.false_eq_true, if_false, Parameter.parseList_printParameters, hmodifiers,
    Source.index_ofText, lineOf_byteLength]
  rfl

lemma newlineCount_indent (front : List Char) :
    newlineCount (front ++ "  ".toList) = newlineCount front := by
  rw [newlineCount, List.count_append]
  rfl

/-- A printed method is found at its first keyword. -/
lemma findsIn_method {text : List Char}
    (htext : text = front ++ ((method keywords type name parameters).print ++ back))
    (hat : '@' ∉ text) :
    ∃ m, Shape.method.FindsIn front (method keywords type name parameters).print back [m] ∧
      Method.ofMatch? (.ofText text) m =
        some (methodAt (1 + newlineCount front) keywords type name parameters) := by
  have hprint : (method keywords type name parameters).print = "  ".toList ++
      (printHead keywords type name ++ '(' :: (printParameters parameters ++ [')']) ++
        " \x7b\n  \x7d\n".toList) := by
    simp [print]
  have hblock : " \x7b\n  \x7d\n".toList ++ back = ' ' :: (Body.printedBlock ++ '\n' :: back) := rfl
  have htext' : text = front ++ "  ".toList ++ (printHead keywords type name ++
      '(' :: (printParameters parameters ++ [')']) ++ ' ' :: (Body.printedBlock ++ '\n' :: back)) := by
    rw [htext, hprint, ← hblock]
    simp only [List.append_assoc]
  refine ⟨methodMatch keywords type name parameters (front ++ "  ".toList)
    (' ' :: (Body.printedBlock ++ '\n' :: back)), ?_, ?_⟩
  · rw [hprint]
    have hindent : HeadShape.method.pattern.Silent "  ".toList (printHead keywords type name ++
        '(' :: (printParameters parameters ++ [')']) ++ " \x7b\n  \x7d\n".toList ++ back) :=
      HeadShape.silent_of_not_word (by decide)
    have hmatch := matchAt?_method keywords type name parameters (c := '\x7b') (by decide)
      (by decide) (front ++ "  ".toList) ("\n  \x7d\n".toList ++ back)
    have hend : HeadShape.method.pattern.Silent " \x7b\n  \x7d\n".toList back :=
      HeadShape.silent_of_not_word (by decide)
    have hfound := findsIn_of_matchAt? (by simp) hmatch rfl
    exact ((hindent.congr ways_method).findsIn front).append
      (hfound.append ((hend.congr ways_method).findsIn _))
  · rw [htext'] at hat ⊢
    rw [ofMatch?_methodMatch _ _ _ _ _ _ hat, newlineCount_indent]

end

section

variable {front u : List Char} (keywords : Keywords fieldKeywords) (type : SimpleType)
  (name : Identifier)

/-- What the shape of fields matches of a printed field. -/
def fieldMatch (front back : List Char) : Match where
  whole := .between front (printHead keywords type name ++ [';']) back
  groups := HeadShape.headGroups front (printKeywords keywords) type.print name.text (';' :: back)

lemma matchAt?_field (front back : List Char) :
    Shape.field.matchAt? (.between front (printHead keywords type name ++ [';'] ++ back)) =
      some (fieldMatch keywords type name front back) := by
  have hmem : String.ofList type.head.text ∉ fieldKeywords := fun hmem =>
    type.head.not_reserved (fieldKeywords_subset hmem)
  have htail := first_of_ways_eq (takes_fieldTail back
    (front ++ printHead keywords type name)
    (HeadShape.headGroups front (printKeywords keywords) type.print name.text (';' :: back)))
  have hfirst := HeadShape.first_printHead (h := .field) keywords type name hmem (by decide) front
    htail
  rw [First, ← ways_field] at hfirst
  have hmatch := matchAt?_of_first hfirst
  simp only [fieldMatch, Span.between, List.append_assoc, List.cons_append, List.nil_append]
    at hmatch ⊢
  exact hmatch

/-- What is read from the match is the field. -/
lemma ofMatch?_fieldMatch (front rest : List Char)
    (hat : '@' ∉ front ++ (printHead keywords type name ++ [';'] ++ rest)) :
    Field.ofMatch? (.ofText (front ++ (printHead keywords type name ++ [';'] ++ rest)))
      (fieldMatch keywords type name front rest) =
      some (fieldAt (1 + newlineCount front) keywords type name) := by
  generalize hm : fieldMatch keywords type name front rest = m
  have hkeywords : m.groupText 1 = printKeywords keywords := hm ▸ Span.text_between _ _ _
  have htype : m.groupText 2 = type.print := hm ▸ Span.text_between _ _ _
  have hname : m.groupText 3 = name.text := hm ▸ Span.text_between _ _ _
  have hvalue : m.group? 4 = none := hm ▸ rfl
  have hstart : m.start = byteLength front := hm ▸ rfl
  have hmodifiers := modifiers_printKeywords plainWord_of_fieldKeywords keywords
  simp only [Field.ofMatch?, hkeywords, htype, hname, hvalue, hstart,
    Annotations.namesAt_eq_nil hat, type.isRejectedType_print, Bool.false_eq_true, if_false,
    hmodifiers, Source.index_ofText, lineOf_byteLength]
  rfl

/-- A printed field is found at its first keyword. -/
lemma findsIn_field {text : List Char}
    (htext : text = front ++ ((field keywords type name).print ++ back)) (hat : '@' ∉ text) :
    ∃ m, Shape.field.FindsIn front (field keywords type name).print back [m] ∧
      Field.ofMatch? (.ofText text) m =
        some (fieldAt (1 + newlineCount front) keywords type name) := by
  have hprint : (field keywords type name).print =
      "  ".toList ++ (printHead keywords type name ++ [';'] ++ ['\n']) := by
    simp [print]
  have htext' : text = front ++ "  ".toList ++
      (printHead keywords type name ++ [';'] ++ '\n' :: back) := by
    rw [htext, hprint]
    simp only [List.append_assoc, List.cons_append, List.nil_append]
  refine ⟨fieldMatch keywords type name (front ++ "  ".toList) ('\n' :: back), ?_, ?_⟩
  · rw [hprint]
    have hindent : HeadShape.field.pattern.Silent "  ".toList
        (printHead keywords type name ++ [';'] ++ ['\n'] ++ back) :=
      HeadShape.silent_of_not_word (by decide)
    have hmatch := matchAt?_field keywords type name (front ++ "  ".toList) (['\n'] ++ back)
    have hend : HeadShape.field.pattern.Silent ['\n'] back :=
      HeadShape.silent_of_not_word (by decide)
    have hfound := findsIn_of_matchAt? (by simp) hmatch rfl
    exact ((hindent.congr ways_field).findsIn front).append
      (hfound.append ((hend.congr ways_field).findsIn _))
  · rw [htext'] at hat ⊢
    rw [ofMatch?_fieldMatch _ _ _ _ _ hat, newlineCount_indent]

end

end Survey
