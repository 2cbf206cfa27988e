/-
# Keywords among the targets of calls

Some keywords stand in front of a parenthesis and call nothing.  The guard of the calls lists most of
them, and these are never called.  Six are not listed, and each of them is among the called names of
every text in which it faces a parenthesis, unless a creation ends in front of it.  So an edge of a
model can lead from a method to one of these six, and then the keyword faces a parenthesis in a block
of a source unit of the tree.
-/
import Survey.Proofs.Declaration.CallPlaces
import Survey.Proofs.Declaration.Checked
import Survey.Proofs.Relation.Endpoints

namespace Survey

open Survey.Text

/-! ### Keywords among the called names -/

/-- The keywords that can stand in front of a parenthesis and call nothing. -/
def parenthesisKeywords : List String :=
  ["if", "for", "while", "do", "switch", "case", "try", "catch", "synchronized", "return", "throw",
   "else", "new", "super", "this", "assert", "instanceof"]

/-- Those of them that the guard of the calls does not list. -/
def unguardedCallKeywords : List String := ["do", "case", "try", "else", "new", "instanceof"]

/-- A word faces a parenthesis in a text, and no creation ends in front of it. -/
def FacesParenthesisIn (word : String) (text : List Char) : Prop :=
  ∃ p ∈ WordPlace.listAll text,
    p.name = word ∧ FacesParenthesis p.back ∧ ¬ EndsInCreation p.front

lemma beginsName_of_parenthesisKeyword : ∀ k ∈ parenthesisKeywords, BeginsName k.toList := by
  decide

lemma mem_unguardedCallKeywords_iff : ∀ k ∈ parenthesisKeywords,
    k ∈ unguardedCallKeywords ↔ k ∉ Shape.nonCallKeywords := by
  decide

lemma mem_calledNames_iff {text : List Char} {name : String} :
    name ∈ calledNames text ↔ ∃ p ∈ callPlaces text, p.name = name := by
  rw [calledNames_eq, distinct_eq_eraseDups, List.mem_eraseDups, List.mem_map]

/-- Of the keywords those are called that the guard does not list, wherever they face a
parenthesis. -/
lemma mem_calledNames_keyword_iff {k : String} (hk : k ∈ parenthesisKeywords) (text : List Char) :
    k ∈ calledNames text ↔ k ∈ unguardedCallKeywords ∧ FacesParenthesisIn k text := by
  rw [mem_calledNames_iff, mem_unguardedCallKeywords_iff k hk]
  constructor
  · rintro ⟨p, hp, rfl⟩
    obtain ⟨hmem, -, hfaces, hcreation, hguard⟩ := mem_callPlaces.1 hp
    exact ⟨hguard, p, hmem, rfl, hfaces, hcreation⟩
  · rintro ⟨hguard, p, hmem, rfl, hfaces, hcreation⟩
    have hbegins := beginsName_of_parenthesisKeyword p.name hk
    rw [WordPlace.name, String.toList_ofList] at hbegins
    exact ⟨p, mem_callPlaces.2 ⟨hmem, hbegins, hfaces, hcreation, hguard⟩, rfl⟩

/-! ### Bodies in their units -/

/-- The body of a method is a part of the text of its unit. -/
lemma Body.infix_of_mem_after? {source : Source} {offset : Nat} {body : List Char}
    (h : body ∈ after? source offset) : body <:+: source.text := by
  rw [after?] at h
  split at h
  · obtain rfl := Option.some.inj h
    rw [textFrom]
    split
    · cases hslice : slice? source.text _ _ with
      | none => exact List.nil_infix
      | some part => exact infix_of_slice? hslice
    · cases hdrop : dropBytes? _ source.text with
      | none => exact List.nil_infix
      | some part => exact (suffix_of_dropBytes? hdrop).isInfix
  · cases h

/-- What a method calls is called in a block of its unit. -/
lemma Method.exists_block_of_mem_parseAll {text : List Char} {method : Method} {name : String}
    (hmethod : method ∈ Method.parseAll (.ofText text)) (hname : name ∈ method.calledNames) :
    ∃ front body back, text = front ++ '{' :: (body ++ back) ∧ name ∈ Survey.calledNames body := by
  obtain ⟨m, hm, hread⟩ := List.mem_filterMap.1 hmethod
  obtain ⟨place, hplace, hmatch⟩ := Pattern.matchAt?_of_mem_findAll hm
  rw [Method.ofMatch?] at hread
  split at hread
  · cases hread
  · obtain rfl := Option.some.inj hread
    obtain ⟨-, hstop⟩ := Checked.isPlace_of_matchAt? hplace hmatch
    cases hbody : Body.after? (.ofText text) m.stop with
    | none => simp [hbody, Body.calls] at hname
    | some block =>
      obtain ⟨body, rfl⟩ := (Checked.bodyAfter_eq hstop).2 block hbody
      obtain ⟨front, back, htext⟩ := Body.infix_of_mem_after? hbody
      refine ⟨front, body, back, ?_, ?_⟩
      · rw [← Source.text_ofText text, ← htext]
        simp
      · simpa [hbody, Body.calls] using hname

/-! ### Types and their source units -/

/-- A type is read from a source unit that a discovery below a root finds. -/
def TypeDeclaration.ReadBelow (settings : Settings) (tree : FileTree) (root : List String)
    (type : TypeDeclaration) : Prop :=
  ∃ names ∈ (Discovery.ofTree settings tree root).sourceUnits, ∃ bytes,
    tree.read (root ++ names) = .ok bytes ∧
      TypeDeclaration.parse (String.ofList (decode bytes)) (pathText names) = .ok type

/-- What a type calls is called in a block of its source unit. -/
lemma TypeDeclaration.ReadBelow.exists_block {settings : Settings} {tree : FileTree}
    {root : List String} {type : TypeDeclaration} (h : type.ReadBelow settings tree root)
    {method : Method} (hmethod : method ∈ type.methods) {name : String}
    (hname : name ∈ method.calledNames) :
    ∃ names ∈ (Discovery.ofTree settings tree root).sourceUnits, ∃ bytes front body back,
      tree.read (root ++ names) = .ok bytes ∧ decode bytes = front ++ '{' :: (body ++ back) ∧
        name ∈ calledNames body := by
  obtain ⟨names, hnames, bytes, hread, hparse⟩ := h
  obtain ⟨kind, m, -, -, rfl⟩ := eq_ofMatch_of_parse hparse
  rw [String.toList_ofList] at hmethod
  obtain ⟨front, body, back, htext, hcalled⟩ := Method.exists_block_of_mem_parseAll hmethod hname
  exact ⟨names, hnames, bytes, front, body, back, hread, htext, hcalled⟩

namespace Model

/-- The types of a model are read from the source units of a tree. -/
lemma readBelow_scanWith (settings : Settings) (tree : FileTree) (root : List String)
    (isCancelled : List String → Bool) (q : String) (type : TypeDeclaration)
    (h : (q, type) ∈ (scanWith settings tree root isCancelled).classes.toList) :
    type.ReadBelow settings tree root := by
  obtain ⟨-, htype⟩ := Registry.mem_of_mem_ofPairs_map h
  exact exists_read_of_mem_results_map htype

lemma readBelow_afterRun (settings : Settings) (tree : FileTree) (root : List String)
    (isCancelled : List String → Bool) (changes : List Change) :
    ∀ q type, (q, type) ∈ (afterRun settings tree root isCancelled changes).classes.toList →
      type.ReadBelow settings tree root := by
  refine holds_afterRun (P := fun model => ∀ q type, (q, type) ∈ model.classes.toList →
    type.ReadBelow settings tree root) (readBelow_scanWith settings tree root isCancelled) ?_ changes
  intro model c h
  cases c with
  | dropClass q => exact fun q' type hmem => h q' type (List.mem_filter.1 hmem).1
  | clearFailures => exact h
  | recount => exact h

/-- An edge of a call leads to a name that is called in a block of a source unit. -/
lemma exists_block_of_mem_edges {settings : Settings} {tree : FileTree} {root : List String}
    {model : Model} (h : ∀ q type, (q, type) ∈ model.classes.toList →
      type.ReadBelow settings tree root)
    {edge : RelationEdge} (hedge : edge ∈ model.edges) (hkind : edge.kind = .calls) :
    ∃ names ∈ (Discovery.ofTree settings tree root).sourceUnits, ∃ bytes front body back,
      tree.read (root ++ names) = .ok bytes ∧ decode bytes = front ++ '{' :: (body ++ back) ∧
        edge.target ∈ calledNames body := by
  rcases exists_of_mem_edges hedge with ⟨q, type, hmem, hedge⟩ | ⟨path, route, -, hedge⟩
  · rcases TypeDeclaration.mem_edges_iff.1 hedge with
      ⟨name, -, rfl⟩ | ⟨name, -, rfl⟩ | ⟨m, hm, rfl | ⟨callee, hcallee, rfl⟩⟩
    · cases hkind
    · cases hkind
    · cases hkind
    · exact (h q type hmem).exists_block hm hcallee
  · rcases Route.mem_edges_iff.1 hedge with rfl | ⟨bean, -, -, rfl⟩ <;> cases hkind

/-- **Keywords that are called.**  In every text a keyword that can stand in front of a parenthesis
is among the called names exactly if the guard does not list it, which leaves six, and it faces a
parenthesis with no creation in front of it.  After every scan and any changes, a call whose target
is such a keyword leads to one of the six, and that keyword faces a parenthesis in a block of a
source unit of the tree. -/
theorem called_keywords_unguarded (text : List Char) (settings : Settings) (tree : FileTree)
    (root : List String) (isCancelled : List String → Bool) (changes : List Change) :
    (∀ k ∈ parenthesisKeywords,
      (k ∈ calledNames text ↔ k ∈ unguardedCallKeywords ∧ FacesParenthesisIn k text)) ∧
    ∀ edge ∈ (afterRun settings tree root isCancelled changes).edges,
      edge.kind = .calls → edge.target ∈ parenthesisKeywords →
        edge.target ∈ unguardedCallKeywords ∧
        ∃ names ∈ (Discovery.ofTree settings tree root).sourceUnits, ∃ bytes front body back,
          tree.read (root ++ names) = .ok bytes ∧
          decode bytes = front ++ '{' :: (body ++ back) ∧ FacesParenthesisIn edge.target body := by
  refine ⟨fun k hk => mem_calledNames_keyword_iff hk text, ?_⟩
  intro edge hedge hkind hkeyword
  have hread := readBelow_afterRun settings tree root isCancelled changes
  obtain ⟨names, hnames, bytes, front, body, back, hbytes, htext, hcalled⟩ :=
    exists_block_of_mem_edges hread hedge hkind
  obtain ⟨hunguarded, hfaces⟩ := (mem_calledNames_keyword_iff hkeyword body).1 hcalled
  exact ⟨hunguarded, names, hnames, bytes, front, body, back, hbytes, htext, hfaces⟩

/-- A tree with one source unit, whose method tries something with a resource. -/
def tryTree : FileTree :=
  .directory [("C.java", .file (.ok (utf8
    "class C \x7b\n  void f() \x7b\n    try (R r = open()) \x7b \x7d\n  \x7d\n\x7d\n".toList)))]

/-- The keyword in front of a resource is among the called names, and it is the target of a call. -/
theorem try_called :
    (¬ ∀ text, ∀ k ∈ parenthesisKeywords, k ∉ calledNames text) ∧
    ¬ ∀ (settings : Settings) (tree : FileTree) (root : List String),
      ∀ edge ∈ (scan settings tree root).edges, edge.kind = .calls →
        edge.target ∉ parenthesisKeywords := by
  constructor
  · intro hclaim
    have hcalled : "try" ∈ calledNames "try (R r = open()) \x7b \x7d".toList := by decide +kernel
    exact hclaim _ "try" (by decide) hcalled
  · intro hclaim
    have hedge : ⟨"C.f", "try", .calls⟩ ∈ (scan {} tryTree []).edges := by decide +kernel
    exact hclaim {} tryTree [] _ hedge rfl (by decide)

end Model

end Survey
