/-
# The names of members

The name of a method or a field is the text of a group that takes all word characters, so it is made
of word characters.  In particular it has no dot, and a qualified name of a member can be cut into
its owner and the member at the last dot.
-/
import Survey.Declaration.Parse
import Survey.Proofs.Pattern.Groups

namespace Survey

open Survey.Text

/-- A name is made of word characters. -/
def IsWord (name : String) : Prop := ∀ c ∈ name.toList, isWordChar c = true

lemma IsWord.dot_notMem {name : String} (h : IsWord name) : '.' ∉ name.toList := by
  intro hmem
  exact absurd (h '.' hmem) (by decide)

/-- All members of a type have names made of word characters. -/
structure TypeDeclaration.WordNamed (type : TypeDeclaration) : Prop where
  methods : ∀ m ∈ type.methods, IsWord m.name
  fields : ∀ f ∈ type.fields, IsWord f.name

lemma isWord_groupText {p : Pattern} {place : Cursor} {m : Match} {n : Nat}
    (hparts : p.parts n = [Pattern.name]) (h : p.matchAt? place = some m) :
    IsWord (String.ofList (m.groupText n)) := by
  intro c hc
  rw [String.toList_ofList] at hc
  exact Pattern.forall_mem_groupText hparts h c hc

lemma Method.isWord_name {source : Source} {method : Method}
    (h : method ∈ Method.parseAll source) : IsWord method.name := by
  obtain ⟨m, hm, hof⟩ := List.mem_filterMap.1 h
  obtain ⟨place, -, hmatch⟩ := Pattern.matchAt?_of_mem_findAll hm
  rw [Method.ofMatch?] at hof
  split at hof
  · simp at hof
  · have hname : method.name = String.ofList (m.groupText 3) := by
      rw [← Option.some.inj hof]
    exact hname ▸ isWord_groupText rfl hmatch

lemma Field.isWord_name {source : Source} {field : Field}
    (h : field ∈ Field.parseAll source) : IsWord field.name := by
  obtain ⟨m, hm, hof⟩ := List.mem_filterMap.1 h
  obtain ⟨place, -, hmatch⟩ := Pattern.matchAt?_of_mem_findAll hm
  rw [Field.ofMatch?] at hof
  split at hof
  · simp at hof
  · have hname : field.name = String.ofList (m.groupText 3) := by
      rw [← Option.some.inj hof]
    exact hname ▸ isWord_groupText rfl hmatch

namespace TypeDeclaration

/-- What a parsed type declares was read off a match of the type shape. -/
lemma eq_ofMatch_of_parse {source path : String} {type : TypeDeclaration}
    (h : parse source path = .ok type) :
    ∃ kind m, Shape.typeDeclaration.find? source.toList = some m ∧
      TypeKind.ofKeyword? (String.ofList (m.groupText 2)) = some kind ∧
      type = ofMatch source.toList path kind m := by
  rw [parse] at h
  split at h
  · simp at h
  · rename_i m hfind
    split at h
    · simp at h
    · rename_i kind hkind
      exact ⟨kind, m, hfind, hkind, (Except.ok.inj h).symm⟩

lemma parse?_eq_some_iff {source path : String} {type : TypeDeclaration} :
    parse? source path = some type ↔ parse source path = .ok type := by
  rw [parse?]
  cases parse source path <;> simp [Except.toOption]

lemma wordNamed_of_parse {source path : String} {type : TypeDeclaration}
    (h : parse source path = .ok type) : type.WordNamed := by
  obtain ⟨kind, m, -, -, rfl⟩ := eq_ofMatch_of_parse h
  exact ⟨fun _ => Method.isWord_name, fun _ => Field.isWord_name⟩

end TypeDeclaration

end Survey
