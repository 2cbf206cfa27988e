/-
# Canonical units

A canonical unit is a package clause and one class, with its members on lines of their own and
single spaces between words.  Its parts carry what makes them well-formed: identifiers are ASCII
words that start with a letter and are not reserved, and modifiers are among the keywords that the
shape of their member allows.  This file says how a canonical unit is printed, and which members
one expects to read back from the print.
-/
import Mathlib.Data.List.Basic
import Survey.Declaration.Parse

namespace Survey.Canonical

open Survey.Text

/-! ### Words -/

/-- The words that no identifier may be. -/
def reservedWords : List String :=
  ["abstract", "assert", "boolean", "break", "byte", "case", "catch", "char", "class", "const",
   "continue", "default", "do", "double", "else", "enum", "extends", "final", "finally", "float",
   "for", "goto", "if", "implements", "import", "instanceof", "int", "interface", "long", "native",
   "new", "package", "private", "protected", "public", "return", "short", "static", "strictfp",
   "super", "switch", "synchronized", "this", "throw", "throws", "transient", "try", "void",
   "volatile", "while", "yield"]

/-- Whether a character may stand in an identifier. -/
def isIdentifierChar (c : Char) : Bool := isLetter c || isDigit c || c == '_'

lemma toNat_of_identifierChar {c : Char} (h : isIdentifierChar c = true) :
    48 ≤ c.toNat ∧ c.toNat ≤ 122 := by
  simp only [isIdentifierChar, isLetter, isDigit, Bool.or_eq_true, Bool.and_eq_true,
    decide_eq_true_eq, beq_iff_eq] at h
  rcases h with ((⟨h₁, h₂⟩ | ⟨h₁, h₂⟩) | ⟨h₁, h₂⟩) | rfl
  · have hlow : 97 ≤ c.toNat := h₁
    have hhigh : c.toNat ≤ 122 := h₂
    omega
  · have hlow : 65 ≤ c.toNat := h₁
    have hhigh : c.toNat ≤ 90 := h₂
    omega
  · have hlow : 48 ≤ c.toNat := h₁
    have hhigh : c.toNat ≤ 57 := h₂
    omega
  · decide

lemma isWordChar_of_identifierChar {c : Char} (h : isIdentifierChar c = true) :
    isWordChar c = true := by
  have hascii : c.toNat < 128 := by
    have := (toNat_of_identifierChar h).2
    omega
  rw [isWordChar, if_pos hascii]
  exact h

lemma isBlank_of_identifierChar {c : Char} (h : isIdentifierChar c = true) :
    isBlank c = false := by
  obtain ⟨hlow, hhigh⟩ := toNat_of_identifierChar h
  have hcontrol : ¬ c.toNat ≤ 0xd := by omega
  have hspace : ¬ c.toNat ≤ 0x20 := by omega
  have hnextLine : c.toNat < 0x85 := by omega
  simp [isBlank, blankRanges, inRanges, hcontrol, hspace, hnextLine]

/-- A text of such characters, at least one of them. -/
structure PlainWord (w : List Char) : Prop where
  ne_nil : w ≠ []
  all_identifierChar : ∀ c ∈ w, isIdentifierChar c = true

lemma plainWord_of_all {words : List String}
    (h : words.all (fun k => k.toList ≠ [] && k.toList.all isIdentifierChar) = true) :
    ∀ k ∈ words, PlainWord k.toList := by
  intro k hk
  have hword := List.all_eq_true.1 h k hk
  rw [Bool.and_eq_true, decide_eq_true_eq, List.all_eq_true] at hword
  exact ⟨hword.1, hword.2⟩

namespace PlainWord

variable {w : List Char}

lemma isWordChar (hw : PlainWord w) : ∀ c ∈ w, isWordChar c = true :=
  fun c hc => isWordChar_of_identifierChar (hw.all_identifierChar c hc)

lemma isBlank (hw : PlainWord w) : ∀ c ∈ w, isBlank c = false :=
  fun c hc => isBlank_of_identifierChar (hw.all_identifierChar c hc)

lemma length_pos (hw : PlainWord w) : 1 ≤ w.length := List.length_pos_of_ne_nil hw.ne_nil

/-- A word begins with one of its characters. -/
lemma exists_cons (hw : PlainWord w) : ∃ c u, w = c :: u ∧ isIdentifierChar c = true := by
  cases w with
  | nil => exact absurd rfl hw.ne_nil
  | cons c u => exact ⟨c, u, rfl, hw.all_identifierChar c (by simp)⟩

/-- A text that begins with a word does not begin with a blank. -/
lemma head_not_blank (hw : PlainWord w) (back : List Char) :
    ∀ c ∈ (w ++ back).head?, Text.isBlank c = false := by
  obtain ⟨c, u, rfl, hc⟩ := hw.exists_cons
  simpa using isBlank_of_identifierChar hc

end PlainWord

/-- An ASCII word that starts with a letter and is not reserved. -/
structure Identifier where
  text : List Char
  starts_with_letter : text.head?.any isLetter = true
  all_identifierChar : ∀ c ∈ text, isIdentifierChar c = true
  not_reserved : String.ofList text ∉ reservedWords

lemma Identifier.plainWord (name : Identifier) : PlainWord name.text where
  ne_nil := by
    intro hnil
    have hletter := name.starts_with_letter
    simp [hnil] at hletter
  all_identifierChar := name.all_identifierChar

/-- Texts with commas and spaces between them. -/
def commaList : List (List Char) → List Char
  | [] => []
  | [text] => text
  | text :: next :: rest => text ++ ',' :: ' ' :: commaList (next :: rest)

lemma mem_commaList {c : Char} {texts : List (List Char)} (h : c ∈ commaList texts) :
    c = ',' ∨ c = ' ' ∨ ∃ text ∈ texts, c ∈ text := by
  induction texts using commaList.induct with
  | case1 => simp [commaList] at h
  | case2 text => exact Or.inr (Or.inr ⟨text, by simp, h⟩)
  | case3 text next rest ih =>
    simp only [commaList, List.mem_append, List.mem_cons] at h
    rcases h with h | rfl | rfl | h
    · exact Or.inr (Or.inr ⟨text, by simp, h⟩)
    · exact Or.inl rfl
    · exact Or.inr (Or.inl rfl)
    · refine (ih h).imp_right fun hcase => hcase.imp_right ?_
      rintro ⟨text', hmem, hc⟩
      exact ⟨text', List.mem_cons_of_mem _ hmem, hc⟩

/-- What may stand between the word of a type and the space behind it. -/
def Brackets (u : List Char) : Prop :=
  u = [] ∨ u = ['[', ']'] ∨ ∃ v, u = '<' :: (v ++ ['>']) ∧ v ≠ [] ∧ '>' ∉ v

/-- An identifier, alone, with square brackets, or with type arguments. -/
inductive SimpleType where
  | plain (name : Identifier)
  | array (element : Identifier)
  | generic (name first : Identifier) (more : List Identifier)

namespace SimpleType

/-- The identifier that a type starts with. -/
def head : SimpleType → Identifier
  | plain name => name
  | array element => element
  | generic name _ _ => name

/-- What stands behind the identifier of a type. -/
def brackets : SimpleType → List Char
  | plain _ => []
  | array _ => ['[', ']']
  | generic _ first more => '<' :: (commaList ((first :: more).map (·.text)) ++ ['>'])

/-- A type as it is printed. -/
def print (type : SimpleType) : List Char := type.head.text ++ type.brackets

/-- The characters behind the word of a type are nothing, square brackets or type arguments. -/
lemma brackets_of_type (type : SimpleType) : Brackets type.brackets := by
  cases type with
  | plain name => exact Or.inl rfl
  | array element => exact Or.inr (Or.inl rfl)
  | generic name first more =>
    refine Or.inr (Or.inr ⟨_, rfl, ?_, ?_⟩)
    · obtain ⟨c, u, hfirst, -⟩ := first.plainWord.exists_cons
      cases more <;> simp [commaList, hfirst]
    · intro hmem
      rcases mem_commaList hmem with h | h | ⟨text, htext, h⟩
      · simp at h
      · simp at h
      · obtain ⟨part, -, rfl⟩ := List.mem_map.1 htext
        exact absurd (part.all_identifierChar _ h) (by decide)

end SimpleType

/-! ### Members -/

/-- A parameter of a method: its type and its name. -/
structure Parameter where
  type : SimpleType
  name : Identifier

/-- A parameter as it is printed. -/
def Parameter.print (parameter : Parameter) : List Char :=
  parameter.type.print ++ ' ' :: parameter.name.text

/-- Parameters as they are printed. -/
def printParameters (parameters : List Parameter) : List Char :=
  commaList (parameters.map Parameter.print)

/-- The keywords that may stand in front of a field. -/
def fieldKeywords : List String :=
  ["public", "private", "protected", "static", "final", "transient", "volatile"]

/-- The keywords that may stand in front of a method. -/
def methodKeywords : List String :=
  ["public", "private", "protected", "static", "final", "abstract", "synchronized", "native",
   "default", "strictfp"]

lemma plainWord_of_fieldKeywords : ∀ k ∈ fieldKeywords, PlainWord k.toList :=
  plainWord_of_all (by decide)

lemma plainWord_of_methodKeywords : ∀ k ∈ methodKeywords, PlainWord k.toList :=
  plainWord_of_all (by decide)

/-- Some of the given keywords, in any order and any number. -/
abbrev Keywords (allowed : List String) : Type := List { word : String // word ∈ allowed }

/-- Keywords as they are printed, each with a space behind it. -/
def printKeywords {allowed : List String} (keywords : Keywords allowed) : List Char :=
  keywords.flatMap fun word => word.1.toList ++ [' ']

/-- What a member starts with as it is printed. -/
def printHead {allowed : List String} (keywords : Keywords allowed) (type : SimpleType)
    (name : Identifier) : List Char :=
  printKeywords keywords ++ (type.print ++ ' ' :: name.text)

/-- A field or a method. -/
inductive Member where
  | field (keywords : Keywords fieldKeywords) (type : SimpleType) (name : Identifier)
  | method (keywords : Keywords methodKeywords) (type : SimpleType) (name : Identifier)
      (parameters : List Parameter)

namespace Member

/-- A member as it is printed: a field on one line, a method on two. -/
def print : Member → List Char
  | field keywords type name => "  ".toList ++ (printHead keywords type name ++ ";\n".toList)
  | method keywords type name parameters =>
    "  ".toList ++ (printHead keywords type name ++
      '(' :: (printParameters parameters ++ ") \x7b\n  \x7d\n".toList))

end Member

/-! ### Units -/

/-- A class in a package, with its members. -/
structure Class where
  /-- The first part of the name of the package. -/
  package : Identifier
  /-- The other parts of the name of the package. -/
  subpackages : List Identifier
  name : Identifier
  members : List Member

namespace Class

/-- The name of the package with dots between its parts. -/
def packageText (c : Class) : List Char :=
  c.package.text ++ c.subpackages.flatMap fun part => '.' :: part.text

/-- What is printed in front of the members. -/
def printHead (c : Class) : List Char :=
  "package ".toList ++ (c.packageText ++ ';' :: '\n' ::
    ("class ".toList ++ (c.name.text ++ " \x7b\n".toList)))

/-- A unit as it is printed. -/
def print (c : Class) : List Char :=
  c.printHead ++ (c.members.flatMap Member.print ++ "\x7d\n".toList)

end Class

/-! ### What is read back -/

/-- The modifiers that some keywords set. -/
def modifiersOf {allowed : List String} (keywords : Keywords allowed) : Modifiers :=
  .ofWords (keywords.map (·.1))

/-- A parameter as it is read: not marked and not annotated. -/
def Parameter.read (parameter : Parameter) : Survey.Parameter where
  name := String.ofList parameter.name.text
  declaredType := String.ofList parameter.type.print
  isFinal := false
  annotations := []

/-- A printed field as it is read from a line. -/
def fieldAt (line : Nat) (keywords : Keywords fieldKeywords) (type : SimpleType)
    (name : Identifier) : Field where
  name := String.ofList name.text
  declaredType := String.ofList type.print
  modifiers := modifiersOf keywords
  annotations := []
  initialValue := none
  sourceLine := line

/-- A printed method as it is read from a line.  It has a body of two lines that calls nothing, and
declares nothing to throw. -/
def methodAt (line : Nat) (keywords : Keywords methodKeywords) (type : SimpleType)
    (name : Identifier) (parameters : List Parameter) : Method where
  name := String.ofList name.text
  returnType := String.ofList type.print
  parameters := parameters.map Parameter.read
  modifiers := modifiersOf keywords
  annotations := []
  declaredThrows := []
  sourceLine := line
  calledNames := []
  bodyLineCount := 2
  isActionHandler :=
    Shape.actionMethodNames.contains (String.ofList name.text) ||
      containsAny Shape.actionContextTypes (printParameters parameters)
  isRemoteOperation := false

/-- The fields among some members, the first of which stands on a given line. -/
def fieldsFrom (line : Nat) : List Member → List Field
  | [] => []
  | .field keywords type name :: rest =>
    fieldAt line keywords type name :: fieldsFrom (line + 1) rest
  | .method _ _ _ _ :: rest => fieldsFrom (line + 2) rest

/-- The methods among some members, the first of which stands on a given line. -/
def methodsFrom (line : Nat) : List Member → List Method
  | [] => []
  | .field _ _ _ :: rest => methodsFrom (line + 1) rest
  | .method keywords type name parameters :: rest =>
    methodAt line keywords type name parameters :: methodsFrom (line + 2) rest

end Survey.Canonical
