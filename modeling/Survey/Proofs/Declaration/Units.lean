/-
# Searching printed units

A search with the shape of methods or of fields passes over the first two lines of a canonical unit,
goes through its members one after the other, and stops at the closing brace.  Hence it finds the
members of its kind, in order and on their lines.

The shape of fields also matches a package clause whose name has one part, since such a clause looks
like a field of the type `package`.  That match is refused when the field is read.
-/
import Survey.Proofs.Declaration.Members

namespace Survey

open Survey.Text Survey.Pattern Survey.Canonical

variable {front back rest : List Char}

/-! ### Members -/

lemma newlineCount_append (u v : List Char) :
    newlineCount (u ++ v) = newlineCount u + newlineCount v := List.count_append

lemma Canonical.MadeOf.newlineCount {extra u : List Char} (hu : MadeOf extra u)
    (hextra : '\n' ∉ extra) : newlineCount u = 0 :=
  List.count_eq_zero.2 (hu.notMem (by decide) hextra)

namespace Canonical

namespace Member

lemma newlineCount_field (keywords : Keywords fieldKeywords) (type : SimpleType)
    (name : Identifier) : newlineCount (field keywords type name).print = 1 := by
  have hhead := (madeOf_printHead plainWord_of_fieldKeywords keywords type name).newlineCount
    (by decide)
  rw [print, newlineCount_append, newlineCount_append, hhead]
  rfl

lemma newlineCount_method (keywords : Keywords methodKeywords) (type : SimpleType)
    (name : Identifier) (parameters : List Canonical.Parameter) :
    newlineCount (method keywords type name parameters).print = 2 := by
  have hhead := (madeOf_printHead plainWord_of_methodKeywords keywords type name).newlineCount
    (by decide)
  have hparameters := (madeOf_printParameters parameters).newlineCount (by decide)
  have hprint : (method keywords type name parameters).print = "  ".toList ++
      (printHead keywords type name ++
        (['('] ++ (printParameters parameters ++ ") \x7b\n  \x7d\n".toList))) := rfl
  rw [hprint]
  simp only [newlineCount_append, hhead, hparameters]
  rfl

end Member

/-- The methods among printed members are found in order and on their lines. -/
lemma findsIn_methods (members : List Member) (front : List Char) {text : List Char}
    (htext : text = front ++ (members.flatMap Member.print ++ back)) (hat : '@' ∉ text) :
    ∃ ms, Shape.method.FindsIn front (members.flatMap Member.print) back ms ∧
      ms.filterMap (Method.ofMatch? (.ofText text)) =
        methodsFrom (1 + newlineCount front) members := by
  induction members generalizing front with
  | nil => exact ⟨[], fun _ hmore => by simpa using hmore, rfl⟩
  | cons member members ih =>
    rw [List.flatMap_cons, List.append_assoc] at htext
    obtain ⟨ms, hfinds, hread⟩ := ih (front ++ member.print) (by rw [htext, List.append_assoc])
    rw [newlineCount_append] at hread
    cases member with
    | field keywords type name =>
      have hsilent := (Member.silent_method_field keywords type name
        (members.flatMap Member.print ++ back)).findsIn front
      refine ⟨ms, hsilent.append hfinds, ?_⟩
      rw [hread, Member.newlineCount_field]
      rfl
    | method keywords type name parameters =>
      obtain ⟨m, hfound, hof⟩ := findsIn_method keywords type name parameters htext hat
      refine ⟨m :: ms, hfound.append hfinds, ?_⟩
      rw [List.filterMap_cons_some hof, hread, Member.newlineCount_method]
      rfl

/-- The fields among printed members are found in order and on their lines. -/
lemma findsIn_fields (members : List Member) (front : List Char) {text : List Char}
    (htext : text = front ++ (members.flatMap Member.print ++ back)) (hat : '@' ∉ text) :
    ∃ ms, Shape.field.FindsIn front (members.flatMap Member.print) back ms ∧
      ms.filterMap (Field.ofMatch? (.ofText text)) =
        fieldsFrom (1 + newlineCount front) members := by
  induction members generalizing front with
  | nil => exact ⟨[], fun _ hmore => by simpa using hmore, rfl⟩
  | cons member members ih =>
    rw [List.flatMap_cons, List.append_assoc] at htext
    obtain ⟨ms, hfinds, hread⟩ := ih (front ++ member.print) (by rw [htext, List.append_assoc])
    rw [newlineCount_append] at hread
    cases member with
    | field keywords type name =>
      obtain ⟨m, hfound, hof⟩ := findsIn_field keywords type name htext hat
      refine ⟨m :: ms, hfound.append hfinds, ?_⟩
      rw [List.filterMap_cons_some hof, hread, Member.newlineCount_field]
      rfl
    | method keywords type name parameters =>
      have hsilent := (Member.silent_field_method keywords type name parameters
        (members.flatMap Member.print ++ back)).findsIn front
      refine ⟨ms, hsilent.append hfinds, ?_⟩
      rw [hread, Member.newlineCount_method]
      rfl

end Canonical

/-! ### The first two lines -/

namespace HeadShape

variable (h : HeadShape) {w : List Char} {c : Char}

/-- No head stands in the line that opens a class. -/
lemma silent_classLine (name : Identifier) :
    h.pattern.Silent ("class ".toList ++ (name.text ++ " \x7b\n".toList)) rest := by
  have hbrace : h.Barren ('\x7b' :: ('\n' :: rest)) :=
    barren_of_not_word (by decide) (notMem_openers (by decide))
  have hopening : h.pattern.Silent " \x7b\n".toList rest := silent_of_not_word (by decide)
  have hname := hbrace.silent_word name.plainWord
  have hclass : h.pattern.Silent "class".toList
      ([' '] ++ (name.text ++ " \x7b\n".toList) ++ rest) := by
    rw [List.append_assoc, List.append_assoc]
    exact (hbrace.word name.plainWord).silent_word (plainWord_of_reserved "class" (by decide))
  have hspace : h.pattern.Silent [' '] (name.text ++ " \x7b\n".toList ++ rest) :=
    silent_singleton (by decide)
  exact hclass.append (hspace.append (hname.append hopening))

/-- Behind the name of a package a point or the semicolon comes. -/
lemma exists_cons_subpackages (parts : List Identifier) (rest : List Char) :
    ∃ c u, (parts.flatMap fun part => '.' :: part.text) ++ ';' :: rest = c :: u ∧
      isStop c = true ∧ (c = '.' ∨ c = ';' ∧ parts = []) := by
  cases parts with
  | nil => exact ⟨';', rest, rfl, by decide, Or.inr ⟨rfl, rfl⟩⟩
  | cons part parts => exact ⟨'.', _, rfl, by decide, Or.inl rfl⟩

/-- The name of a package is passed over by a pattern that does not begin in front of a stop. -/
lemma silent_packageText {p : Pattern}
    (hp : ∀ w c rest, (∀ d ∈ w, isIdentifierChar d = true) → isStop c = true →
      p.SilentAt (w ++ c :: rest)) (c : Canonical.Class) (rest : List Char) :
    p.Silent c.packageText (';' :: rest) := by
  have hparts : ∀ parts : List Identifier,
      p.Silent (parts.flatMap fun part => '.' :: part.text) (';' :: rest) := by
    intro parts
    induction parts with
    | nil => trivial
    | cons part parts ih =>
      obtain ⟨d, u, htext, hd, -⟩ := exists_cons_subpackages parts rest
      have hpart : p.Silent part.text
          ((parts.flatMap fun part => '.' :: part.text) ++ ';' :: rest) := by
        rw [htext]
        exact silent_word (fun w hw => hp w d u hw.all_identifierChar hd) part.plainWord
      have hpoint : p.SilentAt ('.' :: (part.text ++
          ((parts.flatMap fun part => '.' :: part.text) ++ ';' :: rest))) :=
        hp [] '.' _ (by simp) (by decide)
      rw [List.flatMap_cons]
      exact Silent.append ⟨hpoint, hpart⟩ ih
  obtain ⟨d, u, htext, hd, -⟩ := exists_cons_subpackages c.subpackages rest
  refine Silent.append ?_ (hparts c.subpackages)
  rw [htext]
  exact silent_word (fun w hw => hp w d u hw.all_identifierChar hd) c.package.plainWord

lemma silentAt_end (hw : ∀ d ∈ w, isIdentifierChar d = true) (hc : isStop c = true) :
    h.pattern.SilentAt (w ++ c :: rest) := by
  by_cases hne : w = []
  · rw [hne, List.nil_append]
    exact (refused_of_not_word (isStop_iff.1 hc).1.1.1).silentAt
  · exact (refused_end ⟨hne, hw⟩ hc).silentAt

/-- No head stands in a package clause when the character behind the first part of its name does
not open a tail. -/
lemma silent_package (c : Canonical.Class) (hopen : ';' ∈ h.openers → c.subpackages ≠ []) :
    h.pattern.Silent ("package ".toList ++ c.packageText) (';' :: rest) := by
  obtain ⟨d, u, htext, hd, hcases⟩ := exists_cons_subpackages c.subpackages rest
  have hfirst : h.Barren (c.package.text ++ d :: u) := by
    refine barren_end c.package.plainWord hd (fun hmem => ?_) u
    rcases hcases with rfl | ⟨rfl, hnil⟩
    · exact notMem_openers (by decide) hmem
    · exact hopen hmem hnil
  have hpackage : h.pattern.Silent "package".toList ([' '] ++ c.packageText ++ ';' :: rest) := by
    rw [List.append_assoc, Class.packageText, List.append_assoc, htext]
    exact hfirst.silent_word (plainWord_of_reserved "package" (by decide))
  have hspace : h.pattern.Silent [' '] (c.packageText ++ ';' :: rest) :=
    silent_singleton (by decide)
  have hname := silent_packageText (fun w c rest hw hc => h.silentAt_end hw hc) c rest
  exact hpackage.append (hspace.append hname)

end HeadShape

namespace Canonical.Class

variable (c : Canonical.Class)

/-- What is printed between the semicolon of the package clause and the members. -/
def printOpening : List Char := '\n' :: ("class ".toList ++ (c.name.text ++ " \x7b\n".toList))

lemma printHead_eq :
    c.printHead = "package ".toList ++ c.packageText ++ ([';'] ++ c.printOpening) := by
  have hprint : c.printHead = "package ".toList ++ (c.packageText ++ ([';'] ++ c.printOpening)) :=
    rfl
  rw [hprint, List.append_assoc]

lemma silent_printOpening (h : HeadShape) (back : List Char) :
    h.pattern.Silent c.printOpening back :=
  (HeadShape.silent_singleton (c := '\n') (by decide)).append (h.silent_classLine c.name)

lemma silent_printHead (h : HeadShape) (hopen : ';' ∈ h.openers → c.subpackages ≠ []) :
    h.pattern.Silent c.printHead back := by
  have hsemicolon : h.pattern.Silent [';'] (c.printOpening ++ back) :=
    HeadShape.silent_singleton (by decide)
  rw [printHead_eq]
  exact (h.silent_package c hopen).append (hsemicolon.append (c.silent_printOpening h back))

lemma findsIn_method_printHead : Shape.method.FindsIn [] c.printHead back [] :=
  ((c.silent_printHead .method fun hmem => absurd hmem (by decide)).congr ways_method).findsIn []

/-- The match of a package clause whose name has one part. -/
def packageMatch (back : List Char) : Match where
  whole := .between [] ("package ".toList ++ c.package.text ++ [';']) back
  groups := HeadShape.headGroups [] [] "package".toList c.package.text (';' :: back)

lemma matchAt?_package (back : List Char) :
    Shape.field.matchAt? (.between [] ("package ".toList ++ c.package.text ++ [';'] ++ back)) =
      some (c.packageMatch back) := by
  have htail := first_of_ways_eq (takes_fieldTail back
    ("package".toList ++ ' ' :: c.package.text)
    (HeadShape.headGroups [] [] "package".toList c.package.text (';' :: back)))
  have hfirst := HeadShape.first_pattern (h := .field) [] (u := [])
    (plainWord_of_reserved "package" (by decide)) (Or.inl rfl) (by decide) c.package.plainWord
    (by decide) [] htail
  rw [First, ← ways_field] at hfirst
  have hmatch := matchAt?_of_first hfirst
  have hspace : "package ".toList = "package".toList ++ [' '] := rfl
  simp only [packageMatch, Span.between, hspace, printKeywords, List.flatMap_nil, List.nil_append,
    List.append_assoc, List.cons_append] at hmatch ⊢
  exact hmatch

/-- The package clause of a name with one part looks like a field, whose type is refused. -/
lemma findsIn_field_printHead (source : Source) (back : List Char) :
    ∃ ms, Shape.field.FindsIn [] c.printHead back ms ∧
      ms.filterMap (Field.ofMatch? source) = [] := by
  by_cases hsub : c.subpackages = []
  · have htext : c.packageText = c.package.text := by simp [packageText, hsub]
    have hfound := findsIn_of_matchAt? (by simp) (c.matchAt?_package (c.printOpening ++ back)) rfl
    have hopening := ((c.silent_printOpening .field back).congr ways_field).findsIn
      ([] ++ ("package ".toList ++ c.package.text ++ [';']))
    have hrefused : Field.ofMatch? source (c.packageMatch (c.printOpening ++ back)) = none := by
      have hslot : (c.packageMatch (c.printOpening ++ back)).groupText 2 = "package".toList :=
        Span.text_between _ _ _
      have hrejected : Shape.isRejectedType "package" = true := by decide
      rw [Field.ofMatch?, hslot, String.ofList_toList, if_pos hrejected]
    refine ⟨[c.packageMatch (c.printOpening ++ back)], ?_, List.filterMap_cons_none hrefused⟩
    rw [printHead_eq, htext, ← List.append_assoc]
    exact hfound.append hopening
  · exact ⟨[], ((c.silent_printHead .field fun _ => hsub).congr ways_field).findsIn [], rfl⟩

/-! ### The whole unit -/

lemma newlineCount_printHead : newlineCount c.printHead = 2 := by
  have hpackage := c.madeOf_packageText.newlineCount (by decide)
  have hname := c.name.plainWord.madeOf.newlineCount (List.not_mem_nil (a := '\n'))
  have hprint : c.printHead = "package ".toList ++ (c.packageText ++
      ([';', '\n'] ++ ("class ".toList ++ (c.name.text ++ " \x7b\n".toList)))) := rfl
  rw [hprint]
  simp only [newlineCount_append, hpackage, hname]
  rfl

lemma at_notMem_print : '@' ∉ c.print := c.madeOf_print.notMem (by decide) (by decide)

/-- The methods of a unit are its method members. -/
theorem parseAll_methods : Method.parseAll (.ofText c.print) = methodsFrom 3 c.members := by
  have hprint : c.print = [] ++ c.printHead ++ (c.members.flatMap Member.print ++ "\x7d\n".toList) :=
    rfl
  obtain ⟨ms, hmembers, hread⟩ := findsIn_methods c.members ([] ++ c.printHead) hprint
    c.at_notMem_print
  have hclose : HeadShape.method.pattern.Silent "\x7d\n".toList [] :=
    HeadShape.silent_of_not_word (by decide)
  have hall := c.findsIn_method_printHead.append
    (hmembers.append ((hclose.congr ways_method).findsIn _))
  have hend : Shape.method.SilentAt [] :=
    fun front groups => (ways_method _).trans (HeadShape.silentAt_nil front groups)
  have hfound : Shape.method.findAll c.print = [] ++ (ms ++ []) := findAll_of_finds (hall.finds hend)
  rw [List.nil_append, newlineCount_printHead] at hread
  rw [Method.parseAll, Source.text_ofText, hfound, List.nil_append, List.append_nil, hread]

/-- The fields of a unit are its field members. -/
theorem parseAll_fields : Field.parseAll (.ofText c.print) = fieldsFrom 3 c.members := by
  obtain ⟨ms, hhead, hrefused⟩ := c.findsIn_field_printHead (.ofText c.print)
    (c.members.flatMap Member.print ++ "\x7d\n".toList ++ [])
  have hprint : c.print = [] ++ c.printHead ++ (c.members.flatMap Member.print ++ "\x7d\n".toList) :=
    rfl
  obtain ⟨ms', hmembers, hread⟩ := findsIn_fields c.members ([] ++ c.printHead) hprint
    c.at_notMem_print
  have hclose : HeadShape.field.pattern.Silent "\x7d\n".toList [] :=
    HeadShape.silent_of_not_word (by decide)
  have hall := hhead.append (hmembers.append ((hclose.congr ways_field).findsIn _))
  have hend : Shape.field.SilentAt [] :=
    fun front groups => (ways_field _).trans (HeadShape.silentAt_nil front groups)
  have hfound : Shape.field.findAll c.print = ms ++ (ms' ++ []) := findAll_of_finds (hall.finds hend)
  rw [List.nil_append, newlineCount_printHead] at hread
  rw [Field.parseAll, Source.text_ofText, hfound, List.append_nil, List.filterMap_append, hrefused,
    List.nil_append, hread]

end Canonical.Class

end Survey
