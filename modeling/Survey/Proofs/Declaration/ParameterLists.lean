/-
# Reading printed parameter lists back

A parameter is printed as its annotations, the keyword `final` if it is marked so, its type and its
name, with single spaces between them, and a list of parameters with commas between them.  When the
types and the names are atomic tokens, such as `Map<String, List<Integer>>`, the list is split at
its own commas only and every piece at its own spaces only, so the parameters are read back.
-/
import Survey.Proofs.Declaration.Printed
import Survey.Proofs.Text.Brackets

namespace Survey

open Survey.Text Survey.Canonical

/-! ### Printed parameters -/

/-- A token that names a type or a parameter: it is atomic, and neither an annotation nor the keyword
`final`. -/
structure PlainToken (token : List Char) : Prop where
  atomic : Atomic token
  no_at : token.head? ≠ some '@'
  ne_final : token ≠ "final".toList

instance (token : List Char) : Decidable (PlainToken token) :=
  decidable_of_iff (Atomic token ∧ token.head? ≠ some '@' ∧ token ≠ "final".toList)
    ⟨fun ⟨h₁, h₂, h₃⟩ => ⟨h₁, h₂, h₃⟩, fun ⟨h₁, h₂, h₃⟩ => ⟨h₁, h₂, h₃⟩⟩

namespace Parameter

/-- The tokens of the annotations of a parameter. -/
def annotationTokens (parameter : Parameter) : List (List Char) :=
  parameter.annotations.map fun name => '@' :: name.toList

/-- The keyword `final`, if a parameter is marked so. -/
def markTokens (parameter : Parameter) : List (List Char) :=
  if parameter.isFinal then ["final".toList] else []

/-- The tokens of a parameter: `@a`, ..., `final`, its type and its name. -/
def tokens (parameter : Parameter) : List (List Char) :=
  parameter.annotationTokens ++ parameter.markTokens ++
    [parameter.declaredType.toList, parameter.name.toList]

/-- A parameter as it is printed. -/
def print (parameter : Parameter) : List Char := spaced parameter.tokens

/-- The type and the name of a parameter are plain tokens, and its annotations are atomic tokens
without arguments. -/
structure Printable (parameter : Parameter) : Prop where
  declaredType : PlainToken parameter.declaredType.toList
  name : PlainToken parameter.name.toList
  atomic_annotation : ∀ name ∈ parameter.annotations, Atomic ('@' :: name.toList)
  no_arguments : ∀ name ∈ parameter.annotations, '(' ∉ name.toList

instance (parameter : Parameter) : Decidable parameter.Printable :=
  decidable_of_iff
    (PlainToken parameter.declaredType.toList ∧ PlainToken parameter.name.toList ∧
      (∀ name ∈ parameter.annotations, Atomic ('@' :: name.toList)) ∧
      ∀ name ∈ parameter.annotations, '(' ∉ name.toList)
    ⟨fun ⟨h₁, h₂, h₃, h₄⟩ => ⟨h₁, h₂, h₃, h₄⟩, fun ⟨h₁, h₂, h₃, h₄⟩ => ⟨h₁, h₂, h₃, h₄⟩⟩

/-! ### Reading the tokens -/

variable {parameter : Parameter} {token : List Char}

lemma annotationName?_of_no_at (h : token.head? ≠ some '@') : annotationName? token = none := by
  rw [annotationName?]
  rintro name rfl
  exact h rfl

lemma isPlain_of_plainToken (h : PlainToken token) : isPlain token = true := by
  rw [isPlain, annotationName?_of_no_at h.no_at, Option.isNone_none, Bool.true_and, bne_iff_ne]
  exact h.ne_final

/-- The name of an annotation without arguments is read whole. -/
lemma annotationName?_cons {name : String} (h : '(' ∉ name.toList) :
    annotationName? ('@' :: name.toList) = some name := by
  have hwhole : name.toList.takeWhile (· != '(') = name.toList := by
    refine List.takeWhile_eq_self_iff.2 fun c hc => ?_
    have hne : c ≠ '(' := fun heq => h (heq ▸ hc)
    simpa using hne
  rw [annotationName?, hwhole, String.ofList_toList]

namespace Printable

lemma atomic_of_mem_tokens (h : parameter.Printable) (hmem : token ∈ parameter.tokens) :
    Atomic token := by
  simp only [tokens, List.mem_append, List.mem_cons, List.not_mem_nil, or_false] at hmem
  rcases hmem with (hmem | hmem) | rfl | rfl
  · obtain ⟨name, hname, rfl⟩ := List.mem_map.1 hmem
    exact h.atomic_annotation name hname
  · rw [markTokens] at hmem
    split at hmem
    · rw [List.mem_singleton.1 hmem]
      decide
    · simp at hmem
  · exact h.declaredType.atomic
  · exact h.name.atomic

/-- Only the type and the name are plain. -/
lemma filter_tokens (h : parameter.Printable) :
    parameter.tokens.filter isPlain =
      [parameter.declaredType.toList, parameter.name.toList] := by
  have hannotations : parameter.annotationTokens.filter isPlain = [] := by
    rw [List.filter_eq_nil_iff]
    intro token hmem
    obtain ⟨name, hname, rfl⟩ := List.mem_map.1 hmem
    simp [isPlain, annotationName?_cons (h.no_arguments name hname)]
  have hmark : parameter.markTokens.filter isPlain = [] := by
    rw [markTokens]
    split <;> decide
  rw [tokens, List.filter_append, List.filter_append, hannotations, hmark,
    List.filter_cons_of_pos (isPlain_of_plainToken h.declaredType),
    List.filter_cons_of_pos (isPlain_of_plainToken h.name)]
  rfl

/-- The keyword `final` is found exactly when it was printed. -/
lemma contains_tokens (h : parameter.Printable) :
    parameter.tokens.contains "final".toList = parameter.isFinal := by
  have hannotations : "final".toList ∉ parameter.annotationTokens := by
    intro hmem
    obtain ⟨name, -, hname⟩ := List.mem_map.1 hmem
    have hhead : some '@' = some 'f' := congrArg List.head? hname
    exact absurd hhead (by decide)
  have htype := h.declaredType.ne_final.symm
  have hname := h.name.ne_final.symm
  have hmark : "final".toList ∈ parameter.tokens ↔ "final".toList ∈ parameter.markTokens := by
    simp only [tokens, List.mem_append, List.mem_cons, List.not_mem_nil, hannotations, htype, hname,
      or_false, false_or]
  rw [Bool.eq_iff_iff, List.contains_iff_mem, hmark, markTokens]
  cases parameter.isFinal <;> simp

lemma filterMap_tokens (h : parameter.Printable) :
    parameter.tokens.filterMap annotationName? = parameter.annotations := by
  have hannotations : parameter.annotationTokens.filterMap annotationName? =
      parameter.annotations := by
    rw [annotationTokens, List.filterMap_map]
    refine (List.filterMap_congr fun name hname => ?_).trans List.filterMap_some
    exact annotationName?_cons (h.no_arguments name hname)
  have hmark : parameter.markTokens.filterMap annotationName? = [] := by
    rw [markTokens]
    split <;> decide
  rw [tokens, List.filterMap_append, List.filterMap_append, hannotations, hmark,
    List.filterMap_cons_none (annotationName?_of_no_at h.declaredType.no_at),
    List.filterMap_cons_none (annotationName?_of_no_at h.name.no_at), List.filterMap_nil,
    List.append_nil, List.append_nil]

lemma ofTokens?_tokens (h : parameter.Printable) :
    ofTokens? parameter.tokens = some parameter := by
  rw [ofTokens?, h.filter_tokens, h.contains_tokens, h.filterMap_tokens]
  simp [String.ofList_toList]

/-- The tokens of a printed parameter are found, and they give the parameter back. -/
lemma ofTokens?_print (h : parameter.Printable) :
    ofTokens? (Text.tokens parameter.print) = some parameter := by
  rw [print, tokens_spaced fun token hmem => h.atomic_of_mem_tokens hmem, h.ofTokens?_tokens]

end Printable

/-! ### Reading the list -/

end Parameter

end Survey
