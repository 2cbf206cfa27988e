/-
# Classes with type arguments

A class extends one type and implements another, and has a field and a method of one type.  What is
read back of it depends on how deep its types are nested.  Flat types come back whole: the head of
the class is read to its end, and both members are found.  Of an extended type that is not flat only
a part is read, up to a closing bracket that belongs to an argument; and members of such a type are
not found at all.
-/
import Survey.Proofs.Declaration.FlatTypes

namespace Survey

open Survey.Text Survey.Pattern Survey.Canonical

/-! ### Items of extended and implemented lists -/

namespace Canonical

lemma GenericType.trim_print (type : GenericType) :
    trim type.print = type.print ∧ type.print ≠ [] := by
  obtain ⟨d, u, hhead, hd⟩ := type.head.plainWord.exists_cons
  have hprint : type.print = d :: (u ++ type.brackets) := by rw [print_eq, hhead, List.cons_append]
  refine ⟨trim_eq_self ?_ ?_, by simp [hprint]⟩
  · simpa [hprint] using isBlank_of_identifierChar hd
  · intro e he
    rcases type.print_cases with ⟨hplain, -⟩ | ⟨-, v, hv⟩
    · rw [print_eq, brackets_of_plain hplain, List.append_nil] at he
      exact isBlank_of_identifierChar (type.head.all_identifierChar e (List.mem_of_getLast? he))
    · rw [hv, List.getLast?_concat, Option.mem_some_iff] at he
      exact he ▸ by decide

lemma GenericType.splitList_print {type : GenericType} (hflat : type.IsFlat) :
    splitList type.print = [type.print] := by
  obtain ⟨htrim, hne⟩ := type.trim_print
  obtain ⟨simple, hsimple⟩ := exists_simpleType hflat
  have hsplit := splitList_of_keeps (hsimple ▸ simple.keeps) (htrim.symm ▸ hne)
  rwa [htrim] at hsplit

lemma Identifier.splitList_space (name : Identifier) :
    splitList (name.text ++ [' ']) = [name.text] := by
  have htrim : trim (name.text ++ [' ']) = name.text := by
    rw [trim_append_of_blank_right (List.forall_mem_singleton.2 rfl),
      trim_of_no_blank name.plainWord.isBlank]
  have hsplit := splitList_of_keeps (name.keeps.append keeps_space)
    (htrim.symm ▸ name.plainWord.ne_nil)
  rwa [htrim] at hsplit

end Canonical

/-! ### Classes with type arguments -/

namespace Canonical

/-- A class that extends one type and implements another, with a field and a method of one type. -/
structure GenericClass where
  name : Identifier
  extended : GenericType
  implemented : Identifier
  memberType : GenericType
  field : Identifier
  method : Identifier

namespace GenericClass

variable (c : GenericClass)

/-- What stands behind the name of the class on its line. -/
def printClauses : List Char :=
  "extends".toList ++ ' ' :: (c.extended.print ++
    ' ' :: ("implements".toList ++ ' ' :: (c.implemented.text ++ ' ' :: "\x7b\n".toList)))

/-- The line that opens the class. -/
def printHead : List Char := "class".toList ++ ' ' :: (c.name.text ++ ' ' :: c.printClauses)

/-- The line of the field. -/
def printField : List Char :=
  "  private ".toList ++ (c.memberType.print ++ ' ' :: (c.field.text ++ ";\n".toList))

/-- The two lines of the method. -/
def printMethod : List Char :=
  "  public ".toList ++ (c.memberType.print ++ ' ' :: (c.method.text ++ "() \x7b\n  \x7d\n".toList))

/-- A class as it is printed. -/
def print : List Char := c.printHead ++ (c.printField ++ c.printMethod ++ "\x7d\n".toList)

/-- The field as it should be read. -/
def readField : Field where
  name := String.ofList c.field.text
  declaredType := String.ofList c.memberType.print
  modifiers := { isPrivate := true }
  annotations := []
  initialValue := none
  sourceLine := 2

/-- The method as it should be read. -/
def readMethod : Method where
  name := String.ofList c.method.text
  returnType := String.ofList c.memberType.print
  parameters := []
  modifiers := { isPublic := true }
  annotations := []
  declaredThrows := []
  sourceLine := 3
  calledNames := []
  bodyLineCount := 2
  isActionHandler := Shape.actionMethodNames.contains (String.ofList c.method.text)
  isRemoteOperation := false

lemma madeOf_print : MadeOf unitMarks c.print := by
  have hsub : typeMarks ⊆ unitMarks := by decide
  have hspace : MadeOf unitMarks [' '] := by decide
  have hbrace : MadeOf unitMarks "\x7b\n".toList := by decide
  have hprivate : MadeOf unitMarks "  private ".toList := by decide
  have hpublic : MadeOf unitMarks "  public ".toList := by decide
  have hsemicolon : MadeOf unitMarks ";\n".toList := by decide
  have hbody : MadeOf unitMarks "() \x7b\n  \x7d\n".toList := by decide
  have hclose : MadeOf unitMarks "\x7d\n".toList := by decide
  have hkeyword : ∀ k ∈ reservedWords, MadeOf unitMarks k.toList :=
    fun k hk => (plainWord_of_reserved k hk).madeOf
  have hextended : MadeOf unitMarks c.extended.print := c.extended.madeOf_print.mono hsub
  have hmember : MadeOf unitMarks c.memberType.print := c.memberType.madeOf_print.mono hsub
  have himplements := (hkeyword "implements" (by decide)).append (hspace.append
    (c.implemented.plainWord.madeOf.append (hspace.append hbrace)))
  have hclauses := (hkeyword "extends" (by decide)).append (hspace.append
    (hextended.append (hspace.append himplements)))
  have hhead := (hkeyword "class" (by decide)).append (hspace.append
    (c.name.plainWord.madeOf.append (hspace.append hclauses)))
  have hfield := hprivate.append (hmember.append (hspace.append
    (c.field.plainWord.madeOf.append hsemicolon)))
  have hmethod := hpublic.append (hmember.append (hspace.append
    (c.method.plainWord.madeOf.append hbody)))
  exact hhead.append ((hfield.append hmethod).append hclose)

lemma at_notMem_print : '@' ∉ c.print := c.madeOf_print.notMem (by decide) (by decide)

end GenericClass

end Canonical

open Canonical Canonical.GenericType

/-! ### Members -/

namespace HeadShape

variable {h : HeadShape} {w next back : List Char} {type : GenericType}

/-- No head begins in a stretch, nor in front of it. -/
structure Passed (h : HeadShape) (u back : List Char) : Prop where
  barren : h.Barren (u ++ back)
  silent : h.pattern.Silent u back

lemma Passed.word (hnext : h.Passed next back) (hw : PlainWord w) :
    h.Passed (w ++ ' ' :: next) back := by
  have hspace : h.pattern.Silent [' '] (next ++ back) := silent_singleton (by decide)
  have hword := hnext.barren.silent_word hw
  refine ⟨?_, hword.append (hspace.append hnext.silent)⟩
  rw [List.append_assoc]
  exact hnext.barren.word hw

lemma Passed.generic (hnext : h.Passed next back) (type : GenericType) :
    h.Passed (type.print ++ ' ' :: next) back := by
  have hspace : h.pattern.Silent [' '] (next ++ back) := silent_singleton (by decide)
  obtain ⟨hbarren, hsilent⟩ := hnext.barren.generic type
  refine ⟨?_, hsilent.append (hspace.append hnext.silent)⟩
  rw [List.append_assoc]
  exact hbarren

/-- No head stands in the line that opens a class with type arguments. -/
lemma silent_printHead (c : GenericClass) (back : List Char) :
    h.pattern.Silent c.printHead back := by
  have hbrace : h.Passed "\x7b\n".toList back :=
    ⟨barren_of_not_word (by decide) (notMem_openers (by decide)), silent_of_not_word (by decide)⟩
  have himplements := (hbrace.word c.implemented.plainWord).word
    (plainWord_of_reserved "implements" (by decide))
  have hextends := (himplements.generic c.extended).word
    (plainWord_of_reserved "extends" (by decide))
  exact ((hextends.word c.name.plainWord).word (plainWord_of_reserved "class" (by decide))).silent

/-- No head stands in a member whose type is not flat. -/
lemma silent_nested (hw : PlainWord w) (hflat : ¬ type.IsFlat) (name : Identifier) (d : Char)
    (rest : List Char) (hd : isStop d = true) (hrest : (d :: rest).any isWordChar = false) :
    h.pattern.Silent ("  ".toList ++ (w ++ ' ' :: (type.print ++ ' ' :: (name.text ++ d :: rest))))
      back := by
  have hname : h.pattern.Silent (' ' :: (name.text ++ d :: rest)) back :=
    (silent_singleton (c := ' ') (by decide)).append
      ((silent_end name.plainWord hd).append (silent_of_not_word hrest))
  have htype : h.Passed (type.print ++ ' ' :: (name.text ++ d :: rest)) back := by
    obtain ⟨hbarren, hsilent⟩ := barren_nested (h := h) hflat
      (' ' :: (name.text ++ d :: rest) ++ back)
    refine ⟨?_, hsilent.append hname⟩
    rw [List.append_assoc]
    exact hbarren
  exact (silent_of_not_word (by decide)).append (htype.word hw).silent

end HeadShape

namespace Canonical.GenericClass

variable (c : GenericClass)

lemma newlineCount_printHead : newlineCount c.printHead = 1 := by
  have hextended := c.extended.madeOf_print.newlineCount (by decide)
  have hname := c.name.plainWord.madeOf.newlineCount (List.not_mem_nil (a := '\n'))
  have himplemented := c.implemented.plainWord.madeOf.newlineCount (List.not_mem_nil (a := '\n'))
  have hprint : c.printHead = "class ".toList ++ (c.name.text ++ (" extends ".toList ++
      (c.extended.print ++ (" implements ".toList ++ (c.implemented.text ++ " \x7b\n".toList))))) :=
    rfl
  rw [hprint]
  simp only [newlineCount_append, hname, hextended, himplemented]
  rfl

/-- The members of a class whose type is not flat are passed over. -/
lemma silent_members (hflat : ¬ c.memberType.IsFlat) (h : HeadShape) (back : List Char) :
    h.pattern.Silent (c.printField ++ c.printMethod) back := by
  have hfield : h.pattern.Silent c.printField (c.printMethod ++ back) :=
    HeadShape.silent_nested (plainWord_of_reserved "private" (by decide)) hflat c.field ';'
      ['\n'] (by decide) (by decide)
  have hmethod : h.pattern.Silent c.printMethod back :=
    HeadShape.silent_nested (plainWord_of_reserved "public" (by decide)) hflat c.method '('
      ") \x7b\n  \x7d\n".toList (by decide) (by decide)
  exact hfield.append hmethod

/-- One keyword in front of a type and a name. -/
lemma printHead_singleton {allowed : List String} (k : { word : String // word ∈ allowed })
    (type : SimpleType) (name : Identifier) (back : List Char) :
    Canonical.printHead [k] type name ++ back =
      k.1.toList ++ ' ' :: (type.print ++ ' ' :: (name.text ++ back)) := by
  simp [Canonical.printHead, printKeywords]

/-- The members of a class whose type is flat are those of a canonical class. -/
lemma exists_members (hflat : c.memberType.IsFlat) :
    ∃ members : List Member, members.flatMap Member.print = c.printField ++ c.printMethod ∧
      fieldsFrom 2 members = [c.readField] ∧ methodsFrom 2 members = [c.readMethod] := by
  obtain ⟨simple, hsimple⟩ := exists_simpleType hflat
  have hfield : (Member.field [⟨"private", by decide⟩] simple c.field).print = c.printField := by
    rw [Member.print, printHead_singleton, hsimple]
    rfl
  have hmethod : (Member.method [⟨"public", by decide⟩] simple c.method []).print =
      c.printMethod := by
    rw [Member.print, printHead_singleton, hsimple]
    rfl
  refine ⟨[.field [⟨"private", by decide⟩] simple c.field,
    .method [⟨"public", by decide⟩] simple c.method []], ?_, ?_, ?_⟩
  · rw [List.flatMap_cons, List.flatMap_singleton, hfield, hmethod]
  · rw [fieldsFrom, fieldsFrom, fieldsFrom, fieldAt, hsimple]
    rfl
  · have hcontext : containsAny Shape.actionContextTypes (printParameters []) = false := by decide
    rw [methodsFrom, methodsFrom, methodsFrom, methodAt, hsimple, hcontext, Bool.or_false]
    rfl

/-- A search finds what it finds among the members. -/
lemma findAll_print {h : HeadShape} {p : Pattern} (hways : ∀ s, p.ways s = h.pattern.ways s)
    {ms : List Match}
    (hmembers : p.FindsIn c.printHead (c.printField ++ c.printMethod) "\x7d\n".toList ms) :
    p.findAll c.print = ms := by
  have hhead := ((h.silent_printHead c
    (c.printField ++ c.printMethod ++ "\x7d\n".toList ++ [])).congr hways).findsIn []
  have hclose : h.pattern.Silent "\x7d\n".toList [] := HeadShape.silent_of_not_word (by decide)
  have hend : p.SilentAt [] :=
    fun front groups => (hways _).trans (HeadShape.silentAt_nil front groups)
  have hall := hhead.append (hmembers.append ((hclose.congr hways).findsIn _))
  have hfound : p.findAll c.print = [] ++ (ms ++ []) := findAll_of_finds (hall.finds hend)
  rwa [List.nil_append, List.append_nil] at hfound

/-- What is read of the members is read if their type is flat, and else nothing is. -/
lemma read_members {h : HeadShape} {p : Pattern} (hways : ∀ s, p.ways s = h.pattern.ways s)
    {α : Type} {read : Match → Option α} {expected : List α}
    (hmembers : c.memberType.IsFlat → ∃ ms, p.FindsIn c.printHead (c.printField ++ c.printMethod)
      "\x7d\n".toList ms ∧ ms.filterMap read = expected) :
    (c.memberType.IsFlat → (p.findAll c.print).filterMap read = expected) ∧
      (¬ c.memberType.IsFlat → (p.findAll c.print).filterMap read = []) := by
  constructor
  · intro hflat
    obtain ⟨ms, hfound, hread⟩ := hmembers hflat
    rw [c.findAll_print hways hfound, hread]
  · intro hflat
    have hsilent := ((c.silent_members hflat h "\x7d\n".toList).congr hways).findsIn c.printHead
    rw [c.findAll_print hways hsilent, List.filterMap_nil]

lemma parseAll_fields :
    (c.memberType.IsFlat → Field.parseAll (.ofText c.print) = [c.readField]) ∧
      (¬ c.memberType.IsFlat → Field.parseAll (.ofText c.print) = []) := by
  refine c.read_members ways_field fun hflat => ?_
  obtain ⟨members, hprint, hfields, -⟩ := c.exists_members hflat
  have htext : c.print = c.printHead ++ (members.flatMap Member.print ++ "\x7d\n".toList) := by
    rw [hprint, print]
  obtain ⟨ms, hfound, hread⟩ := findsIn_fields members c.printHead htext c.at_notMem_print
  rw [hprint] at hfound
  rw [c.newlineCount_printHead, hfields] at hread
  exact ⟨ms, hfound, hread⟩

lemma parseAll_methods :
    (c.memberType.IsFlat → Method.parseAll (.ofText c.print) = [c.readMethod]) ∧
      (¬ c.memberType.IsFlat → Method.parseAll (.ofText c.print) = []) := by
  refine c.read_members ways_method fun hflat => ?_
  obtain ⟨members, hprint, -, hmethods⟩ := c.exists_members hflat
  have htext : c.print = c.printHead ++ (members.flatMap Member.print ++ "\x7d\n".toList) := by
    rw [hprint, print]
  obtain ⟨ms, hfound, hread⟩ := findsIn_methods members c.printHead htext c.at_notMem_print
  rw [hprint] at hfound
  rw [c.newlineCount_printHead, hmethods] at hread
  exact ⟨ms, hfound, hread⟩

end Canonical.GenericClass

/-! ### The head of the class -/

section

variable {front next : List Char} {d : Char} {type : GenericType} {groups : List (Nat × Span)}

/-- Type arguments are read up to the first closing bracket. -/
lemma takes_typeArguments {v : List Char} (hclose : '>' ∉ v) (hbrace : '\x7b' ∉ v)
    (back : List Char) : Shape.typeArguments.Takes ('<' :: (v ++ ['>'])) back := by
  have hblanks : anyBlanks.Takes [] ("<".toList ++ (v ++ (">".toList ++ back))) :=
    takes_anyBlanks_nil (head?_not_mem rfl (by decide))
  have hinside : (all (fun c => c != '>' && c != '\x7b') 0).Takes v (">".toList ++ back) := by
    refine takes_all (fun c hc => ?_) (Nat.zero_le _) (by simp)
    have hneClose : c ≠ '>' := fun heq => hclose (heq ▸ hc)
    have hneBrace : c ≠ '\x7b' := fun heq => hbrace (heq ▸ hc)
    simp [hneClose, hneBrace]
  have hall := ((hblanks.append (takes_lit "<" _)).append hinside).append (takes_lit ">" back)
  have htext : [] ++ "<".toList ++ v ++ ">".toList = '<' :: (v ++ ['>']) := by simp
  exact htext ▸ hall

/-- The identifier of an extended type is read in front of its brackets. -/
lemma takes_extendedHead (type : GenericType) {back : List Char}
    (hback : ∀ c ∈ back.head?, Shape.isDottedChar c = false) :
    (all Shape.isDottedChar 1).Takes type.head.text (type.brackets ++ back) := by
  refine takes_all (fun c hc => ?_) type.head.plainWord.length_pos ?_
  · rw [Shape.isDottedChar, type.head.plainWord.isWordChar c hc, Bool.true_or]
  · by_cases hplain : type.IsPlain
    · rwa [brackets_of_plain hplain]
    · rw [brackets_of_not_plain hplain]
      exact head?_not_mem rfl (by decide)

/-- A flat type is read whole as an extended one. -/
lemma first_extendedType (hflat : type.IsFlat) (hblank : isBlank d = false) (hangle : '<' ≠ d)
    (front next : List Char) (groups : List (Nat × Span)) :
    Shape.extendedType.First ⟨.between front (type.print ++ ' ' :: d :: next), groups⟩
      ⟨.between (front ++ type.print) (' ' :: d :: next), groups⟩ := by
  have harguments : (optional Shape.typeArguments).First
      ⟨.between (front ++ type.head.text) (type.brackets ++ ' ' :: d :: next), groups⟩
      ⟨.between (front ++ type.head.text ++ type.brackets) (' ' :: d :: next), groups⟩ := by
    by_cases hplain : type.IsPlain
    · rw [brackets_of_plain hplain]
      exact (takes_noArguments hblank hangle next).first _ _
    · obtain ⟨v, rest, hbrackets, -, hclose, -, hrest⟩ := exists_brackets_eq hplain
      have hbrace : '\x7b' ∉ v := by
        have hprint : '\x7b' ∉ type.print := type.madeOf_print.notMem (by decide) (by decide)
        intro hmem
        refine hprint ?_
        rw [print_eq, hbrackets]
        simp [hmem]
      rw [hbrackets, hrest.2 hflat]
      exact ((takes_typeArguments hclose hbrace _).first _ _).optional
  rw [print_eq, List.append_assoc, ← List.append_assoc front]
  have hhead : (all Shape.isDottedChar 1).Takes type.head.text
      (type.brackets ++ ' ' :: d :: next) :=
    takes_extendedHead type (head?_not_mem rfl (by decide))
  exact (hhead.first front groups).append harguments

/-- A flat type is all that is read of extended types. -/
lemma first_extendedTypes (hflat : type.IsFlat) (hblank : isBlank d = false) (hangle : '<' ≠ d)
    (hcomma : ',' ≠ d) (front next : List Char) (groups : List (Nat × Span)) :
    extendedTypes.First ⟨.between front (type.print ++ ' ' :: d :: next), groups⟩
      ⟨.between (front ++ type.print) (' ' :: d :: next), groups⟩ := by
  have hlit : (lit ",").SilentAt (d :: next) := silentAt_lit_of_ne rfl hcomma
  have hmore := ((silentAt_anyBlanks_append hblank hlit).2.append anyBlanks).append Shape.extendedType
  exact (first_extendedType hflat hblank hangle front next groups).append
    (first_of_ways_eq (ways_rounds_of_nil (hmore _ _)))

/-- Something is read of any type. -/
lemma exists_first_extendedTypes (type : GenericType) {back : List Char}
    (hback : ∀ c ∈ back.head?, Shape.isDottedChar c = false) (front : List Char)
    (groups : List (Nat × Span)) :
    ∃ t, extendedTypes.First ⟨.between front (type.print ++ back), groups⟩ t := by
  have hhead := (takes_extendedHead type hback).first front groups
  rw [← List.append_assoc, ← print_eq] at hhead
  obtain ⟨r, harguments⟩ := exists_first_optional Shape.typeArguments
    ⟨.between (front ++ type.head.text) (type.brackets ++ back), groups⟩
  obtain ⟨t, hmore⟩ := exists_first_rounds (anyBlanks ++ lit "," ++ anyBlanks ++ Shape.extendedType) r
  exact ⟨t, (hhead.append harguments).append hmore⟩

/-- A keyword behind one space. -/
lemma takes_spacedWord {word : String} (hword : PlainWord word.toList) (back : List Char) :
    (blanks ++ lit word).Takes ([' '] ++ word.toList) back :=
  (takes_blanks (hword.head_not_blank back)).append (takes_lit word back)

/-- One implemented type is read with the space behind it. -/
lemma first_implementsClause (name : Identifier) (front rest : List Char)
    (groups : List (Nat × Span)) :
    implementsClause.First
      ⟨.between front
        ([' '] ++ ("implements".toList ++ ([' '] ++ (name.text ++ [' '] ++ '\x7b' :: rest)))), groups⟩
      ⟨.between (front ++ ([' '] ++ "implements".toList) ++ [' '] ++ (name.text ++ [' ']))
          ('\x7b' :: rest),
        (5, .between (front ++ ([' '] ++ "implements".toList) ++ [' ']) (name.text ++ [' '])
          ('\x7b' :: rest)) :: groups⟩ := by
  have hkeyword := (takes_spacedWord (plainWord_of_reserved "implements" (by decide))
    ([' '] ++ (name.text ++ [' '] ++ '\x7b' :: rest))).first front groups
  have hnext : ∀ c ∈ (name.text ++ [' '] ++ '\x7b' :: rest).head?, isBlank c = false := by
    rw [List.append_assoc]
    exact name.plainWord.head_not_blank _
  have hspace : (run isBlank 1).First _ _ :=
    first_run (u := [' ']) (List.forall_mem_singleton.2 rfl) (by decide) hnext
      (front ++ ([' '] ++ "implements".toList)) groups
  have hitem : (all Shape.isImplementsChar 1).Takes (name.text ++ [' ']) ('\x7b' :: rest) := by
    refine takes_all (fun c hc => ?_) (by simp) (head?_not_mem rfl (by decide))
    rcases List.mem_append.1 hc with hc | hc
    · simp [Shape.isImplementsChar, name.plainWord.isWordChar c hc]
    · rw [List.mem_singleton.1 hc]
      decide
  exact (hkeyword.append hspace).append
    (hitem.first_group 5 (front ++ ([' '] ++ "implements".toList) ++ [' ']) groups)

end

namespace Canonical.GenericClass

variable (c : GenericClass)

/-- What stands behind the brace that opens the class. -/
def printBody : List Char := '\n' :: (c.printField ++ c.printMethod ++ "\x7d\n".toList)

/-- What stands behind the extended type. -/
def printRest : List Char :=
  [' '] ++ ("implements".toList ++ ([' '] ++ (c.implemented.text ++ [' '] ++ '\x7b' :: c.printBody)))

/-- What stands behind the name of the class. -/
def printExtends : List Char :=
  [' '] ++ ("extends".toList ++ ([' '] ++ (c.extended.print ++ c.printRest)))

lemma print_eq_printExtends :
    c.print = "class".toList ++ ([' '] ++ (c.name.text ++ c.printExtends)) := by
  have hbrace : "\x7b\n".toList = ['\x7b', '\n'] := rfl
  unfold print printHead printClauses printExtends printRest printBody
  rw [hbrace]
  -- the words themselves do not matter
  generalize "class".toList = keyword, "extends".toList = keyword', "implements".toList = keyword''
  simp only [List.append_assoc, List.cons_append, List.nil_append]

/-- What stands in front of the extended type. -/
def extendedFront : List Char :=
  "class".toList ++ [' '] ++ c.name.text ++ ([' '] ++ "extends".toList ++ [' '])

/-- The place in front of the extended type. -/
def extendedPlace : Cursor := .between c.extendedFront (c.extended.print ++ c.printRest)

/-- What is remembered there. -/
def nameGroups : List (Nat × Span) := classGroups [] c.name.text c.printExtends

/-- The head of the class is found at the start of the text. -/
lemma find?_typeDeclaration {r t : Progress}
    (hextended : extendedTypes.First ⟨c.extendedPlace, c.nameGroups⟩ r)
    (himplemented : (optional implementsClause).First
      { r with groups := (4, ⟨c.extendedPlace, r.place⟩) :: r.groups } t) :
    Shape.typeDeclaration.find? c.print = some ⟨⟨.ofText c.print, t.place⟩, t.groups⟩ := by
  have hback : ∀ d ∈ c.printExtends.head?, isWordChar d = false := head?_not_mem rfl (by decide)
  have hhead : classHead.First
      ⟨.between [] ("class".toList ++ ([' '] ++ (c.name.text ++ c.printExtends))), []⟩ _ :=
    first_classHead rfl c.name.plainWord hback
  have harguments : (optional Shape.typeArguments).Takes [] c.printExtends :=
    takes_noArguments (by decide) (by decide) _
  have hnoArguments := harguments.first ("class".toList ++ [' '] ++ c.name.text) c.nameGroups
  have hnext : ∀ d ∈ (c.extended.print ++ c.printRest).head?, isBlank d = false := by
    rw [GenericType.print_eq, List.append_assoc]
    exact c.extended.head.plainWord.head_not_blank _
  have hkeyword := ((takes_spacedWord (plainWord_of_reserved "extends" (by decide))
    ([' '] ++ (c.extended.print ++ c.printRest))).append (takes_blanks hnext)).first
    ("class".toList ++ [' '] ++ c.name.text) c.nameGroups
  have hextends : extendsClause.First _ _ := hkeyword.append (hextended.group 4)
  rw [List.append_nil, List.nil_append] at hnoArguments
  have hfirst := ((hhead.append hnoArguments).append hextends.optional).append himplemented
  rw [← typeDeclaration_eq, ← print_eq_printExtends] at hfirst
  exact findFrom?_of_matchAt? (matchAt?_of_first hfirst)

/-- The keyword and the name of the class are found, and its clauses if the extended type is flat. -/
lemma exists_match : ∃ m, Shape.typeDeclaration.find? c.print = some m ∧
    m.groupText 2 = "class".toList ∧ m.groupText 3 = c.name.text ∧
    (c.extended.IsFlat → groupItems m 4 = [String.ofList c.extended.print] ∧
      groupItems m 5 = [String.ofList c.implemented.text]) := by
  by_cases hflat : c.extended.IsFlat
  · have hextended := first_extendedTypes hflat (d := 'i') (by decide) (by decide) (by decide)
      c.extendedFront ("mplements".toList ++ ([' '] ++ (c.implemented.text ++ [' '] ++
        '\x7b' :: c.printBody))) c.nameGroups
    have himplemented := (first_implementsClause c.implemented (c.extendedFront ++ c.extended.print)
      c.printBody ((4, .between c.extendedFront c.extended.print c.printRest) ::
        c.nameGroups)).optional
    refine ⟨_, c.find?_typeDeclaration hextended himplemented, Span.text_between _ _ _,
      Span.text_between _ _ _, fun _ => ⟨?_, ?_⟩⟩
    · exact congrArg (List.map String.ofList)
        ((congrArg splitList (Span.text_between _ _ _)).trans (splitList_print hflat))
    · exact congrArg (List.map String.ofList)
        ((congrArg splitList (Span.text_between _ _ _)).trans c.implemented.splitList_space)
  · have hrest : ∀ d ∈ c.printRest.head?, Shape.isDottedChar d = false :=
      head?_not_mem rfl (by decide)
    obtain ⟨r, hextended⟩ := exists_first_extendedTypes c.extended hrest c.extendedFront c.nameGroups
    obtain ⟨t, himplemented⟩ := exists_first_optional implementsClause
      { r with groups := (4, ⟨c.extendedPlace, r.place⟩) :: r.groups }
    -- neither clause remembers the keyword or the name
    have hlookup {n : Nat} (hextendedParts : extendedTypes.parts n = [])
        (himplementedParts : (optional implementsClause).parts n = []) (hne : n ≠ 4) :
        t.groups.lookup n = c.nameGroups.lookup n := by
      rw [lookup_groups_of_mem_ways (List.mem_of_mem_head? himplemented) himplementedParts,
        List.lookup_cons, beq_false_of_ne hne,
        lookup_groups_of_mem_ways (List.mem_of_mem_head? hextended) hextendedParts]
    refine ⟨_, c.find?_typeDeclaration hextended himplemented, ?_, ?_, fun h => absurd h hflat⟩
    · rw [Match.groupText, Match.group?, hlookup rfl rfl (by decide)]
      exact Span.text_between _ _ _
    · rw [Match.groupText, Match.group?, hlookup rfl rfl (by decide)]
      exact Span.text_between _ _ _

end Canonical.GenericClass

namespace TypeDeclaration

/-- **Type arguments are read back as far as they are flat.**  The extended type is given exactly if it
is flat, and then so is the implemented one; the members are found exactly if their type is flat. -/
theorem parse_generic (c : GenericClass) (path : String) :
    ∃ d, parse (String.ofList c.print) path = .ok d ∧
      d.simpleName = String.ofList c.name.text ∧
      (d.superclassName = some (String.ofList c.extended.print) ↔ c.extended.IsFlat) ∧
      (c.extended.IsFlat → d.implementedNames = [String.ofList c.implemented.text]) ∧
      (c.memberType.IsFlat → d.fields = [c.readField] ∧ d.methods = [c.readMethod]) ∧
      (¬ c.memberType.IsFlat → d.fields = [] ∧ d.methods = []) := by
  obtain ⟨m, hfind, hkeyword, hname, hclauses⟩ := c.exists_match
  have hclass : TypeKind.ofKeyword? (String.ofList (m.groupText 2)) = some .classType := by
    rw [hkeyword, String.ofList_toList]
    exact TypeKind.ofKeyword?_keyword .classType
  have hparse : parse (String.ofList c.print) path = .ok (ofMatch c.print path .classType m) := by
    simp only [parse, String.toList_ofList, hfind, hclass]
  obtain ⟨hfields, hnoFields⟩ := c.parseAll_fields
  obtain ⟨hmethods, hnoMethods⟩ := c.parseAll_methods
  refine ⟨_, hparse, congrArg String.ofList hname, ⟨?_, fun hflat => ?_⟩, fun hflat => ?_,
    fun hflat => ⟨hfields hflat, hmethods hflat⟩, fun hflat => ⟨hnoFields hflat, hnoMethods hflat⟩⟩
  · exact (flatTyped_of_parse hparse).superclass c.extended
  · exact congrArg List.head? (hclauses hflat).1
  · exact congrArg₂ (fun extended implemented => extended.tail ++ implemented) (hclauses hflat).1
      (hclauses hflat).2

/-- A type whose argument has an argument is cut off where it is extended, and hides the implemented
type; a field and a method of this type are not found. -/
theorem nested_arguments_lost :
    (parse? ("class C extends A<B<D>> implements J \x7b\n  private A<B<D>> f;\n" ++
        "  public A<B<D>> m() \x7b\n  \x7d\n\x7d\n") "C.java").map
      (fun d => (d.superclassName, d.implementedNames, d.fields, d.methods)) =
      some (some "A<B<D>", [], [], []) := by
  decide +kernel

end TypeDeclaration

end Survey
