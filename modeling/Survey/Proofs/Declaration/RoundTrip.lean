/-
# Reading a canonical unit back

Reading the print of a canonical unit gives the unit back: its package, its name, its kind, and all
its members in order.  The members are found by the searches of the whole text; what is left here is
the package clause at the start of the text and the head of the class on the second line.
-/
import Mathlib.Data.List.Infix
import Survey.Proofs.Declaration.Imports
import Survey.Proofs.Declaration.Units

namespace Survey

open Survey.Text Survey.Pattern Survey.Canonical

/-! ### The package clause -/

namespace Canonical.Class

variable (c : Canonical.Class)

/-- What stands behind the package clause. -/
def printBody : List Char := c.printOpening ++ (c.members.flatMap Member.print ++ "\x7d\n".toList)

lemma print_eq :
    c.print = "package".toList ++ ([' '] ++ (c.packageText ++ ([';'] ++ c.printBody))) := by
  have hprint : c.print = c.printHead ++ (c.members.flatMap Member.print ++ "\x7d\n".toList) := rfl
  rw [hprint, printHead_eq, printBody]
  have hspace : "package ".toList = "package".toList ++ [' '] := rfl
  rw [hspace]
  simp only [List.append_assoc]

end Canonical.Class

/-! ### The head of the class -/

/-- The modifiers of types. -/
def typeModifiers : List String :=
  ["public", "private", "protected", "static", "final", "abstract", "strictfp"]

lemma plainWord_of_typeModifiers : ∀ k ∈ typeModifiers, PlainWord k.toList :=
  plainWord_of_all (by decide)

lemma plainWord_of_declarationKeywords : ∀ k ∈ Shape.declarationKeywords, PlainWord k.toList :=
  plainWord_of_all (by decide)

section

variable {w rest : List Char} {c : Char}

/-- No type is declared at a word without a blank behind it, or at a word that is neither a modifier
nor the keyword of a kind. -/
lemma silentAt_typeDeclaration (hw : ∀ d ∈ w, isIdentifierChar d = true)
    (hc : isWordChar c = false)
    (hother : isBlank c = false ∨
      String.ofList w ∉ typeModifiers ∧ String.ofList w ∉ Shape.declarationKeywords) :
    Shape.typeDeclaration.SilentAt (w ++ c :: rest) := by
  have hmodifiers := takes_no_keywords plainWord_of_typeModifiers hw hc
    (hother.imp_right And.left) rest
  have hkinds := (silentAt_oneOf_blanks plainWord_of_declarationKeywords hw hc
    (hother.imp_right And.right) rest).group_append_all 2
  have hstart : (wordBoundary ++ group 1 (Shape.keywords typeModifiers) ++
      group 2 (oneOf Shape.declarationKeywords) ++ blanks).SilentAt (w ++ c :: rest) := by
    intro front groups
    rw [ways_append_assoc, ways_append_eq_nil_iff]
    intro t ht
    rw [ways_append, List.mem_flatMap] at ht
    obtain ⟨r, hr, ht⟩ := ht
    rw [(mem_ways_wordBoundary.1 hr).2] at ht
    have hgroup := hmodifiers.ways_group 1 front groups
    rw [List.nil_append, List.append_nil] at hgroup
    rw [hgroup, List.mem_singleton] at ht
    rw [ht]
    exact hkinds _ _
  exact (((hstart.append _).append _).append _).append _

end

namespace Canonical.Class

variable (c : Canonical.Class)

/-- The first line of a unit with its newline. -/
def printPackage : List Char :=
  "package".toList ++ ([' '] ++ (c.packageText ++ [';'])) ++ ['\n']

/-- What stands behind the name of the class. -/
def printMembers : List Char :=
  " \x7b\n".toList ++ (c.members.flatMap Member.print ++ "\x7d\n".toList)

lemma print_eq_printPackage :
    c.print = c.printPackage ++ ("class".toList ++ ([' '] ++ (c.name.text ++ c.printMembers))) := by
  have hopening : c.printOpening =
      ['\n'] ++ ("class".toList ++ ([' '] ++ (c.name.text ++ " \x7b\n".toList))) := rfl
  rw [print_eq, printBody, hopening]
  unfold printPackage printMembers
  -- the words themselves do not matter
  generalize "package".toList = package, "class".toList = keyword, " \x7b\n".toList = brace
  simp only [List.append_assoc, List.cons_append, List.nil_append]

/-- No type is declared on the first line. -/
lemma silent_printPackage (rest : List Char) :
    Shape.typeDeclaration.Silent c.printPackage rest := by
  have hwords : ∀ v ∈ "package".toList.tails,
      String.ofList v ∉ typeModifiers ∧ String.ofList v ∉ Shape.declarationKeywords := by
    decide
  have hpackage : Shape.typeDeclaration.Silent "package".toList
      ([' '] ++ (c.packageText ++ [';']) ++ ('\n' :: rest)) := by
    refine silent_of_suffixes fun v hv hne => ?_
    refine silentAt_typeDeclaration (fun d hd => ?_) (by decide)
      (Or.inr (hwords v ((List.mem_tails _ _).2 hv)))
    exact (plainWord_of_reserved "package" (by decide)).all_identifierChar d (hv.mem hd)
  have hblank : ∀ d rest, isWordChar d = false → Shape.typeDeclaration.SilentAt (d :: rest) :=
    fun d rest hd => silentAt_typeDeclaration (w := []) (by simp) hd (Or.inr (by decide))
  have hname : Shape.typeDeclaration.Silent c.packageText (';' :: '\n' :: rest) :=
    HeadShape.silent_packageText (fun w d rest hw hd => by
      obtain ⟨⟨⟨hword, hnotBlank⟩, -⟩, -⟩ := HeadShape.isStop_iff.1 hd
      exact silentAt_typeDeclaration hw hword (Or.inl hnotBlank)) c _
  have hspace : Shape.typeDeclaration.Silent [' '] (c.packageText ++ [';'] ++ '\n' :: rest) :=
    ⟨hblank _ _ (by decide), trivial⟩
  have hsemicolon : Shape.typeDeclaration.Silent [';'] ('\n' :: rest) :=
    ⟨hblank _ _ (by decide), trivial⟩
  have hnewline : Shape.typeDeclaration.Silent ['\n'] rest := ⟨hblank _ _ (by decide), trivial⟩
  exact (hpackage.append (hspace.append (hname.append hsemicolon))).append hnewline

lemma touchesWord_printPackage : touchesWord c.printPackage.reverse = false := by
  unfold printPackage
  rw [List.reverse_concat, touchesWord_cons]
  decide

end Canonical.Class

section

variable {front w : List Char}

/-- The head of a class up to its name. -/
def classHead : Pattern :=
  wordBoundary ++ group 1 (Shape.keywords typeModifiers) ++ group 2 (oneOf Shape.declarationKeywords) ++
    blanks ++ group 3 name

/-- One or more extended types with commas between them. -/
def extendedTypes : Pattern :=
  Shape.extendedType ++ rounds (anyBlanks ++ lit "," ++ anyBlanks ++ Shape.extendedType) .most

/-- What a class may extend. -/
def extendsClause : Pattern := blanks ++ lit "extends" ++ blanks ++ group 4 extendedTypes

/-- What a class may implement. -/
def implementsClause : Pattern :=
  blanks ++ lit "implements" ++ run isBlank 1 ++ group 5 (all Shape.isImplementsChar 1)

lemma typeDeclaration_eq : Shape.typeDeclaration =
    classHead ++ optional Shape.typeArguments ++ optional extendsClause ++
      optional implementsClause := rfl

/-- The groups of the head of a class up to its name. -/
def classGroups (front name back : List Char) : List (Nat × Span) :=
  [(3, .between (front ++ "class".toList ++ [' ']) name back),
    (2, .between front "class".toList ([' '] ++ (name ++ back))),
    (1, .between front [] ("class".toList ++ ([' '] ++ (name ++ back))))]

/-- The keyword and the name of a class without modifiers. -/
lemma first_classHead (hfront : touchesWord front.reverse = false) (hw : PlainWord w)
    {back : List Char} (hback : ∀ c ∈ back.head?, isWordChar c = false) :
    classHead.First ⟨.between front ("class".toList ++ ([' '] ++ (w ++ back))), []⟩
      ⟨.between (front ++ "class".toList ++ [' '] ++ w) back, classGroups front w back⟩ := by
  have hnext := hw.head_not_blank back
  have hboundary : wordBoundary.First
      ⟨.between front ("class".toList ++ ([' '] ++ (w ++ back))), []⟩ _ :=
    first_wordBoundary hfront rfl []
  have hmodifiers := (takes_no_keywords (w := "class".toList) (c := ' ')
    plainWord_of_typeModifiers
    (plainWord_of_reserved "class" (by decide)).all_identifierChar (by decide) (Or.inr (by decide))
    (w ++ back)).first_group 1 front []
  have hkind : (oneOf Shape.declarationKeywords).First _ _ :=
    ((takes_lit "class" ([' '] ++ (w ++ back))).first front
      [(1, .between front [] ("class".toList ++ ([' '] ++ (w ++ back))))]).either_left
  have hblanks := (takes_blanks hnext).first (front ++ "class".toList)
    [(2, .between front "class".toList ([' '] ++ (w ++ back))),
      (1, .between front [] ("class".toList ++ ([' '] ++ (w ++ back))))]
  have hnamed := (takes_name hw hback).first_group 3 (front ++ "class".toList ++ [' '])
    [(2, .between front "class".toList ([' '] ++ (w ++ back))),
      (1, .between front [] ("class".toList ++ ([' '] ++ (w ++ back))))]
  rw [List.append_nil] at hmodifiers
  exact (((hboundary.append hmodifiers).append (hkind.group 2)).append hblanks).append hnamed

/-- No type arguments stand in front of a character that does not open them. -/
lemma takes_noArguments {c : Char} (hblank : isBlank c = false) (hangle : '<' ≠ c)
    (rest : List Char) : (optional Shape.typeArguments).Takes [] (' ' :: c :: rest) := by
  have hopen : (lit "<").SilentAt (c :: rest) := silentAt_lit_of_ne rfl hangle
  exact (((silentAt_anyBlanks_append hblank hopen).2.append _).append _).optional

/-- Nothing is extended or implemented, and there are no type arguments. -/
lemma takes_noClauses (rest : List Char) :
    (optional Shape.typeArguments).Takes [] (' ' :: '\x7b' :: rest) ∧
      (optional extendsClause).Takes [] (' ' :: '\x7b' :: rest) ∧
      (optional implementsClause).Takes [] (' ' :: '\x7b' :: rest) := by
  have hblanks : blanks.Takes [' '] ('\x7b' :: rest) := takes_blanks (by simp; decide)
  have hextends : (blanks ++ lit "extends").SilentAt (' ' :: '\x7b' :: rest) :=
    hblanks.silentAt_append (silentAt_lit_of_ne rfl (by decide))
  have himplements : (blanks ++ lit "implements").SilentAt (' ' :: '\x7b' :: rest) :=
    hblanks.silentAt_append (silentAt_lit_of_ne rfl (by decide))
  exact ⟨takes_noArguments (by decide) (by decide) rest, ((hextends.append _).append _).optional,
    ((himplements.append _).append _).optional⟩

/-- The head of a class without modifiers and clauses. -/
lemma first_typeDeclaration (hfront : touchesWord front.reverse = false) (hw : PlainWord w)
    (rest : List Char) :
    Shape.typeDeclaration.First
      ⟨.between front ("class".toList ++ ([' '] ++ (w ++ ' ' :: '\x7b' :: rest))), []⟩
      ⟨.between (front ++ "class".toList ++ [' '] ++ w) (' ' :: '\x7b' :: rest),
        classGroups front w (' ' :: '\x7b' :: rest)⟩ := by
  obtain ⟨harguments, hextends, himplements⟩ := takes_noClauses rest
  have hclause {p : Pattern} (hp : p.Takes [] (' ' :: '\x7b' :: rest)) front groups :
      p.First ⟨.between front (' ' :: '\x7b' :: rest), groups⟩
        ⟨.between front (' ' :: '\x7b' :: rest), groups⟩ := by
    have hfirst := hp.first front groups
    rwa [List.nil_append, List.append_nil] at hfirst
  have hhead := first_classHead hfront hw (head?_not_mem (c := ' ') (u := ' ' :: '\x7b' :: rest) rfl
    (by decide))
  rw [typeDeclaration_eq]
  exact ((hhead.append (hclause harguments _ _)).append (hclause hextends _ _)).append
    (hclause himplements _ _)

end

/-! ### Reading back -/

namespace Canonical.Class

variable (c : Canonical.Class)

/-- The match of the head of the class. -/
def headMatch : Match where
  whole := .between c.printPackage ("class".toList ++ [' '] ++ c.name.text) c.printMembers
  groups :=
    [(3, .between (c.printPackage ++ "class".toList ++ [' ']) c.name.text c.printMembers),
      (2, .between c.printPackage "class".toList ([' '] ++ (c.name.text ++ c.printMembers))),
      (1, .between c.printPackage []
        ("class".toList ++ ([' '] ++ (c.name.text ++ c.printMembers))))]

/-- The head of the class is found on the second line. -/
lemma find?_typeDeclaration : Shape.typeDeclaration.find? c.print = some c.headMatch := by
  have hmatch := matchAt?_of_first (first_typeDeclaration c.touchesWord_printPackage
    c.name.plainWord ('\n' :: (c.members.flatMap Member.print ++ "\x7d\n".toList)))
  have hskip := findFrom?_of_skips ((c.silent_printPackage
    ("class".toList ++ ([' '] ++ (c.name.text ++ c.printMembers)))).skips [])
  rw [← print_eq_printPackage] at hskip
  refine hskip.trans ((findFrom?_of_matchAt? hmatch).trans ?_)
  simp only [headMatch, classGroups, Span.between, List.append_assoc]
  rfl

end Canonical.Class

namespace TypeDeclaration

end TypeDeclaration

end Survey
