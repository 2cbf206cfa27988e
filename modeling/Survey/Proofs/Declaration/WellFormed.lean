/-
# What a parsed unit never lacks

Whatever the text of a unit, the names of its type and of its members are words with at least one
character, the types that it extends or implements are named by trimmed texts that are not empty, and
the lists of thrown types and of called names have no repetition and no empty item.  Each of these
rests on one shape: a name is the text of a group that takes part in every match and asks for a
character, and the lists are the items of a split.
-/
import Survey.Proofs.Declaration.Names
import Survey.Proofs.Text.Trim

namespace Survey

open Survey.Text

/-! ### Names and items -/

/-- A name has at least one character and is made of word characters. -/
def IsName (name : String) : Prop := name ≠ "" ∧ IsWord name

/-- A text is trimmed and not empty. -/
def IsItem (text : String) : Prop := text ≠ "" ∧ trim text.toList = text.toList

/-- A list names things: none is named twice or by an empty text. -/
def ListsOnce (names : List String) : Prop := names.Nodup ∧ "" ∉ names

lemma ofList_ne_empty {text : List Char} (h : text ≠ []) : String.ofList text ≠ "" := by
  intro hempty
  have hnil := congrArg String.toList hempty
  rw [String.toList_ofList] at hnil
  exact h hnil

/-- The text of a group that always takes part and takes a whole word is a name. -/
lemma isName_groupText {p : Pattern} {place : Cursor} {m : Match} {n : Nat}
    (hparts : p.parts n = [Pattern.name]) (hreq : p.requires n = true)
    (h : p.matchAt? place = some m) : IsName (String.ofList (m.groupText n)) := by
  refine ⟨ofList_ne_empty fun hnil => ?_, isWord_groupText hparts h⟩
  obtain ⟨q, hq, hover⟩ := Pattern.goesOver_groupText_of_requires h hreq
  rw [hparts, List.mem_singleton] at hq
  have hleast : 1 ≤ (m.groupText n).length := by
    have hname := Pattern.leastLength_le_of_goesOver hover
    rwa [hq] at hname
  simp [hnil] at hleast

lemma isItem_of_mem_groupItems {m : Match} {n : Nat} {item : String}
    (h : item ∈ groupItems m n) : IsItem item := by
  rw [groupItems] at h
  split at h
  · obtain ⟨text, htext, rfl⟩ := List.mem_map.1 h
    obtain ⟨hne, htrim⟩ := mem_of_mem_splitList htext
    exact ⟨ofList_ne_empty hne, by rwa [String.toList_ofList]⟩
  · simp at h

lemma listsOnce_distinct {names : List String} (h : ∀ name ∈ names, name ≠ "") :
    ListsOnce (distinct names) :=
  ⟨nodup_distinct names, fun hempty => h "" (mem_of_mem_distinctBy hempty) rfl⟩

/-- The names called in a text: none twice, and none without a character. -/
lemma listsOnce_calledNames (text : List Char) : ListsOnce (calledNames text) := by
  refine listsOnce_distinct fun name hname => ?_
  obtain ⟨m, hm, hcalled⟩ := List.mem_filterMap.1 hname
  obtain ⟨place, -, hmatch⟩ := Pattern.matchAt?_of_mem_findAll hm
  rw [calledName?] at hcalled
  split at hcalled
  · simp at hcalled
  · rw [← Option.some.inj hcalled]
    obtain ⟨q, hq, hover⟩ := Pattern.goesOver_groupText_of_requires hmatch (n := 2) rfl
    have hleast := Pattern.leastLength_le_of_goesOver hover
    -- the only part with this number begins with one letter or underscore
    have hparts : Shape.call.parts 2 =
        [Pattern.one (fun c => isLetter c || c == '_') ++ Pattern.all isWordChar 0] := rfl
    rw [hparts, List.mem_singleton] at hq
    subst hq
    refine ofList_ne_empty fun hnil => ?_
    rw [hnil] at hleast
    exact absurd hleast (by decide)

lemma listsOnce_calls (body : Option (List Char)) : ListsOnce (Body.calls body) := by
  cases body with
  | none => exact ⟨List.nodup_nil, List.not_mem_nil⟩
  | some body => exact listsOnce_calledNames _

/-! ### Members and types -/

/-- A method has a name, and lists its thrown types and called names once. -/
structure Method.WellFormed (method : Method) : Prop where
  name : IsName method.name
  declaredThrows : ListsOnce method.declaredThrows
  calledNames : ListsOnce method.calledNames

lemma Method.wellFormed_of_mem {source : Source} {method : Method}
    (h : method ∈ Method.parseAll source) : method.WellFormed := by
  obtain ⟨m, hm, hof⟩ := List.mem_filterMap.1 h
  obtain ⟨place, -, hmatch⟩ := Pattern.matchAt?_of_mem_findAll hm
  rw [Method.ofMatch?] at hof
  split at hof
  · simp at hof
  · rw [← Option.some.inj hof]
    constructor
    case name => exact isName_groupText rfl rfl hmatch
    case declaredThrows =>
      exact listsOnce_distinct fun name hname => (isItem_of_mem_groupItems hname).1
    case calledNames => exact listsOnce_calls _

lemma Field.isName_of_mem {source : Source} {field : Field} (h : field ∈ Field.parseAll source) :
    IsName field.name := by
  obtain ⟨m, hm, hof⟩ := List.mem_filterMap.1 h
  obtain ⟨place, -, hmatch⟩ := Pattern.matchAt?_of_mem_findAll hm
  rw [Field.ofMatch?] at hof
  split at hof
  · simp at hof
  · rw [← Option.some.inj hof]
    exact isName_groupText rfl rfl hmatch

namespace TypeDeclaration

/-- The parts of a type are well-formed, and its qualified name is made of its package and its
name. -/
structure WellFormed (type : TypeDeclaration) : Prop where
  qualifiedName_eq : type.qualifiedName = qualify type.package type.simpleName
  simpleName : IsName type.simpleName
  superclassName : ∀ name ∈ type.superclassName, IsItem name
  implementedNames : ∀ name ∈ type.implementedNames, IsItem name
  methods : ∀ method ∈ type.methods, method.WellFormed
  fields : ∀ field ∈ type.fields, IsName field.name

/-- Every unit that parses declares a well-formed type. -/
theorem wellFormed_of_parse {source path : String} {type : TypeDeclaration}
    (h : parse source path = .ok type) : type.WellFormed := by
  obtain ⟨kind, m, hfind, -, rfl⟩ := eq_ofMatch_of_parse h
  obtain ⟨place, -, hmatch⟩ := Pattern.matchAt?_of_find? hfind
  constructor
  case qualifiedName_eq => rfl
  case simpleName => exact isName_groupText rfl rfl hmatch
  case superclassName =>
    exact fun name hname => isItem_of_mem_groupItems (List.mem_of_mem_head? hname)
  case implementedNames =>
    intro name hname
    rcases List.mem_append.1 hname with hname | hname
    · exact isItem_of_mem_groupItems (List.mem_of_mem_tail hname)
    · exact isItem_of_mem_groupItems hname
  case methods => exact fun method => Method.wellFormed_of_mem
  case fields => exact fun field => Field.isName_of_mem

end TypeDeclaration

end Survey
