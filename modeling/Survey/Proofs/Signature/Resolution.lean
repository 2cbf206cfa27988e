/-
# Keys of signatures and their resolution

A model lists its signatures in two ways: as entries, one for every type, every method and every
embeddable field, where only the first member of a name counts; and through the resolver, which cuts
a key into kind and identifier, the identifier of a member into owner and name, and looks the first
member of that name up.  The main result `signatureEntries_resolve` says that the two agree on every
model that comes from a scan, also after types were taken out: keys do not repeat, every entry
resolves to its own signature, and a key that resolves belongs to exactly one entry with the
signature found, unless it names a field that is not embeddable.

The cut at the first colon gives the kind back because no kind has a colon in its label.  The cut at
the last dot gives the owner back because names of members have no dot, whatever the package is.
-/
import Survey.Proofs.Model.WellKeyed
import Survey.Signature

namespace Survey

/-! ### Keys -/

/-- The key of a kind and an identifier. -/
def SignatureKind.keyOf (kind : SignatureKind) (identifier : String) : String :=
  kind.label ++ ":" ++ identifier

namespace SignatureKind

lemma ofLabel?_eq_some_iff {label : String} {kind : SignatureKind} :
    ofLabel? label = some kind ↔ kind.label = label := by
  constructor
  · intro h
    simpa using List.find?_some h
  · rintro rfl
    cases kind <;> decide

lemma toList_keyOf (kind : SignatureKind) (identifier : String) :
    (kind.keyOf identifier).toList = kind.label.toList ++ ':' :: identifier.toList := by
  simp [keyOf, String.toList_append]

lemma colon_notMem_label (kind : SignatureKind) : ':' ∉ kind.label.toList := by
  cases kind <;> decide

lemma splitFirst?_keyOf (kind : SignatureKind) (identifier : String) :
    Text.splitFirst? ':' (kind.keyOf identifier).toList =
      some (kind.label.toList, identifier.toList) :=
  Text.splitFirst?_eq_some_iff.2 ⟨toList_keyOf kind identifier, kind.colon_notMem_label⟩

/-- A key determines its kind and its identifier. -/
lemma keyOf_inj {kind kind' : SignatureKind} {identifier identifier' : String} :
    kind.keyOf identifier = kind'.keyOf identifier' ↔ kind = kind' ∧ identifier = identifier' := by
  constructor
  · intro h
    have hsplit := splitFirst?_keyOf kind identifier
    rw [h, splitFirst?_keyOf] at hsplit
    simp only [Option.some.injEq, Prod.mk.injEq, String.toList_inj] at hsplit
    refine ⟨?_, hsplit.2.symm⟩
    rw [← Option.some.injEq, ← ofLabel?_eq_some_iff.2 hsplit.1, ofLabel?_eq_some_iff.2 rfl]
  · rintro ⟨rfl, rfl⟩
    rfl

end SignatureKind

/-! ### Members by their qualified names -/

namespace TypeDeclaration

lemma toList_memberName (type : TypeDeclaration) (name : String) :
    (type.memberName name).toList = type.qualifiedName.toList ++ '.' :: name.toList := by
  simp [memberName, String.toList_append]

/-- The qualified name of a member determines its owner's name and its own, as names of members
have no dot. -/
lemma memberName_inj {type type' : TypeDeclaration} {name name' : String}
    (hname : '.' ∉ name.toList) (hname' : '.' ∉ name'.toList)
    (h : type.memberName name = type'.memberName name') :
    type.qualifiedName = type'.qualifiedName ∧ name = name' := by
  have hsplit := Text.splitLast?_eq_some_iff.2 ⟨toList_memberName type name, hname⟩
  rw [h, Text.splitLast?_eq_some_iff.2 ⟨toList_memberName type' name', hname'⟩] at hsplit
  simp only [Option.some.injEq, Prod.mk.injEq, String.toList_inj] at hsplit
  exact ⟨hsplit.1.symm, hsplit.2.symm⟩

lemma name_of_method? {type : TypeDeclaration} {name : String} {m : Method}
    (h : type.method? name = some m) : m.name = name ∧ m ∈ type.methods :=
  ⟨by simpa using List.find?_some h, List.mem_of_find?_eq_some h⟩

lemma name_of_field? {type : TypeDeclaration} {name : String} {f : Field}
    (h : type.field? name = some f) : f.name = name ∧ f ∈ type.fields :=
  ⟨by simpa using List.find?_some h, List.mem_of_find?_eq_some h⟩

end TypeDeclaration

namespace Model

variable {model : Model}

/-- A name of a member is cut into the type of the model that owns it and its name there. -/
lemma ownerAndMember?_eq_some_iff (h : model.WellKeyed) {identifier name : String}
    {type : TypeDeclaration} :
    model.ownerAndMember? identifier = some (type, name) ↔
      type ∈ model.sortedClasses ∧ identifier = type.memberName name ∧ '.' ∉ name.toList := by
  rw [ownerAndMember?]
  constructor
  · intro hfound
    split at hfound
    · rename_i owner member hsplit
      rw [Option.map_eq_some_iff] at hfound
      obtain ⟨type', hclass, heq⟩ := hfound
      obtain ⟨rfl, rfl⟩ := Prod.mk.inj heq
      obtain ⟨hmem, hname⟩ := (class?_eq_some_iff h).1 hclass
      obtain ⟨htext, hdot⟩ := Text.splitLast?_eq_some_iff.1 hsplit
      refine ⟨hmem, ?_, by simpa using hdot⟩
      rw [← String.toList_inj, TypeDeclaration.toList_memberName, hname]
      simpa using htext
    · simp at hfound
  · rintro ⟨hmem, rfl, hdot⟩
    rw [Text.splitLast?_eq_some_iff.2 ⟨type.toList_memberName name, hdot⟩]
    simp [(class?_eq_some_iff h).2 ⟨hmem, rfl⟩]

lemma method?_eq_some_iff (h : model.WellKeyed) {identifier : String} {m : Method} :
    model.method? identifier = some m ↔
      ∃ type ∈ model.sortedClasses, type.method? m.name = some m ∧
        identifier = type.memberName m.name := by
  simp only [method?, Option.bind_eq_some_iff, Prod.exists]
  constructor
  · rintro ⟨type, name, howner, hmethod⟩
    obtain ⟨hmem, rfl, -⟩ := (ownerAndMember?_eq_some_iff h).1 howner
    obtain ⟨rfl, -⟩ := TypeDeclaration.name_of_method? hmethod
    exact ⟨type, hmem, hmethod, rfl⟩
  · rintro ⟨type, hmem, hmethod, rfl⟩
    have hword := (wordNamed_of_mem h hmem).methods m (TypeDeclaration.name_of_method? hmethod).2
    exact ⟨type, m.name, (ownerAndMember?_eq_some_iff h).2 ⟨hmem, rfl, hword.dot_notMem⟩, hmethod⟩

lemma field?_eq_some_iff (h : model.WellKeyed) {identifier : String} {f : Field} :
    model.field? identifier = some f ↔
      ∃ type ∈ model.sortedClasses, type.field? f.name = some f ∧
        identifier = type.memberName f.name := by
  simp only [field?, Option.bind_eq_some_iff, Prod.exists]
  constructor
  · rintro ⟨type, name, howner, hfield⟩
    obtain ⟨hmem, rfl, -⟩ := (ownerAndMember?_eq_some_iff h).1 howner
    obtain ⟨rfl, -⟩ := TypeDeclaration.name_of_field? hfield
    exact ⟨type, hmem, hfield, rfl⟩
  · rintro ⟨type, hmem, hfield, rfl⟩
    have hword := (wordNamed_of_mem h hmem).fields f (TypeDeclaration.name_of_field? hfield).2
    exact ⟨type, f.name, (ownerAndMember?_eq_some_iff h).2 ⟨hmem, rfl, hword.dot_notMem⟩, hfield⟩

/-! ### The resolver by kind -/

/-- The signature of what a kind and an identifier describe, if it is in the model. -/
def describe? (model : Model) : SignatureKind → String → Option String
  | .ofClass, identifier => (model.class? identifier).map (·.signature)
  | .ofMethod, identifier => (model.method? identifier).map (·.signature)
  | .ofField, identifier => (model.field? identifier).map (·.signature)

lemma signatureFor?_keyOf (model : Model) (kind : SignatureKind) (identifier : String) :
    model.signatureFor? (kind.keyOf identifier) = model.describe? kind identifier := by
  rw [signatureFor?, SignatureKind.splitFirst?_keyOf]
  have hkind : SignatureKind.ofLabel? (String.ofList kind.label.toList) = some kind :=
    SignatureKind.ofLabel?_eq_some_iff.2 (by simp)
  simp only [hkind]
  cases kind <;> simp [describe?]

/-- Only keys of a kind and an identifier resolve. -/
lemma exists_keyOf_of_signatureFor? {key s : String} (h : model.signatureFor? key = some s) :
    ∃ kind identifier, key = SignatureKind.keyOf kind identifier ∧
      model.describe? kind identifier = some s := by
  rw [signatureFor?] at h
  split at h
  · simp at h
  · rename_i label identifier hsplit
    obtain ⟨htext, -⟩ := Text.splitFirst?_eq_some_iff.1 hsplit
    cases hlabel : SignatureKind.ofLabel? (String.ofList label) with
    | none => simp [hlabel] at h
    | some kind =>
      have hkey : key = kind.keyOf (String.ofList identifier) := by
        rw [← String.toList_inj, SignatureKind.toList_keyOf,
          SignatureKind.ofLabel?_eq_some_iff.1 hlabel]
        simpa using htext
      refine ⟨kind, String.ofList identifier, hkey, ?_⟩
      simp only [hlabel] at h
      cases kind <;> exact h

end Model

/-! ### Entries -/

lemma SignatureEntry.key_make (kind : SignatureKind) (identifier : String) (owner : Option String)
    (signature : String) :
    (make kind identifier owner signature).key = kind.keyOf identifier := rfl

namespace TypeDeclaration

/-- The entries of a type: the type itself, and the first member of every name, a field only when
it is embeddable. -/
lemma mem_signatureEntries_iff {type : TypeDeclaration} {e : SignatureEntry} :
    e ∈ type.signatureEntries ↔
      e = .make .ofClass type.qualifiedName none type.signature ∨
      (∃ m, type.method? m.name = some m ∧
        e = .make .ofMethod (type.memberName m.name) (some type.qualifiedName) m.signature) ∨
      ∃ f, type.field? f.name = some f ∧ f.isEmbeddable = true ∧
        e = .make .ofField (type.memberName f.name) (some type.qualifiedName) f.signature := by
  simp only [signatureEntries, List.cons_append, List.mem_cons, List.mem_append, List.mem_map,
    List.mem_filter, mem_distinctBy_iff, method?, field?, and_assoc, eq_comm (a := e)]

/-- The keys of one type do not repeat: within a kind the first member of a name is taken, and keys
of different kinds differ. -/
lemma nodup_keys (type : TypeDeclaration) : (type.signatureEntries.map (·.key)).Nodup := by
  have hinj : ∀ kind : SignatureKind,
      Function.Injective fun name => kind.keyOf (type.memberName name) := by
    intro kind a b hab
    exact String.append_right_inj _ |>.1 (SignatureKind.keyOf_inj.1 hab).2
  have hmethods : ((distinctBy (·.name) type.methods).map fun m =>
      SignatureKind.ofMethod.keyOf (type.memberName m.name)).Nodup := by
    have := (nodup_map_distinctBy (·.name) type.methods).map (hinj .ofMethod)
    rwa [List.map_map] at this
  have hfields : (((distinctBy (·.name) type.fields).filter (·.isEmbeddable)).map fun f =>
      SignatureKind.ofField.keyOf (type.memberName f.name)).Nodup := by
    have := (nodup_map_distinctBy (·.name) type.fields).map (hinj .ofField)
    rw [List.map_map] at this
    exact (List.filter_sublist.map _).nodup this
  simp only [signatureEntries, List.cons_append, List.map_cons, List.map_append, List.map_map,
    Function.comp_def, SignatureEntry.key_make, List.nodup_cons, List.nodup_append, List.mem_append,
    List.mem_map]
  refine ⟨?_, hmethods, hfields, ?_⟩
  · rintro (⟨m, -, hm⟩ | ⟨f, -, hf⟩)
    · exact absurd (SignatureKind.keyOf_inj.1 hm).1 (by decide)
    · exact absurd (SignatureKind.keyOf_inj.1 hf).1 (by decide)
  · rintro _ ⟨m, -, rfl⟩ _ ⟨f, -, rfl⟩ hkey
    exact absurd (SignatureKind.keyOf_inj.1 hkey).1 (by decide)

/-- The key of an entry determines the name of the type that it belongs to. -/
lemma qualifiedName_eq_of_key {type type' : TypeDeclaration} (h : type.WordNamed)
    (h' : type'.WordNamed) {e e' : SignatureEntry} (he : e ∈ type.signatureEntries)
    (he' : e' ∈ type'.signatureEntries) (hkey : e.key = e'.key) :
    type.qualifiedName = type'.qualifiedName := by
  have hmethod : ∀ {t : TypeDeclaration} {m : Method}, t.WordNamed → t.method? m.name = some m →
      '.' ∉ m.name.toList := fun ht hm => (ht.methods _ (name_of_method? hm).2).dot_notMem
  have hfield : ∀ {t : TypeDeclaration} {f : Field}, t.WordNamed → t.field? f.name = some f →
      '.' ∉ f.name.toList := fun ht hf => (ht.fields _ (name_of_field? hf).2).dot_notMem
  rcases mem_signatureEntries_iff.1 he with rfl | ⟨m, hm, rfl⟩ | ⟨f, hf, -, rfl⟩ <;>
    rcases mem_signatureEntries_iff.1 he' with rfl | ⟨m', hm', rfl⟩ | ⟨f', hf', -, rfl⟩ <;>
    obtain ⟨hkind, hid⟩ := SignatureKind.keyOf_inj.1 hkey
  · exact hid
  · exact absurd hkind (by decide)
  · exact absurd hkind (by decide)
  · exact absurd hkind (by decide)
  · exact (memberName_inj (hmethod h hm) (hmethod h' hm') hid).1
  · exact absurd hkind (by decide)
  · exact absurd hkind (by decide)
  · exact absurd hkind (by decide)
  · exact (memberName_inj (hfield h hf) (hfield h' hf') hid).1

end TypeDeclaration

/-- In a list whose keys do not repeat, one element has the key of a given one. -/
lemma filter_key_eq_singleton {α κ : Type} [DecidableEq κ] {key : α → κ} {l : List α} {a : α}
    (hnodup : (l.map key).Nodup) (ha : a ∈ l) : l.filter (fun b => key b = key a) = [a] := by
  induction l with
  | nil => simp at ha
  | cons b l ih =>
    rw [List.map_cons, List.nodup_cons] at hnodup
    rcases List.mem_cons.1 ha with rfl | ha
    · have hnone : l.filter (fun b => key b = key a) = [] := by
        rw [List.filter_eq_nil_iff]
        intro c hc hkey
        exact hnodup.1 (of_decide_eq_true hkey ▸ List.mem_map_of_mem hc)
      simp [hnone]
    · have hne : key b ≠ key a := fun h => hnodup.1 (h ▸ List.mem_map_of_mem ha)
      rw [List.filter_cons_of_neg (by simpa using hne)]
      exact ih hnodup.2 ha

namespace Model

variable {model : Model}

lemma nodup_keys (h : model.WellKeyed) : (model.signatureEntries.map (·.key)).Nodup := by
  rw [signatureEntries, List.map_flatMap, List.nodup_flatMap]
  refine ⟨fun type _ => type.nodup_keys, ?_⟩
  have hpairwise := List.pairwise_map.1 (nodup_qualifiedName h)
  refine hpairwise.imp_of_mem fun {type type'} hmem hmem' hne => ?_
  intro key hkey hkey'
  obtain ⟨e, he, rfl⟩ := List.mem_map.1 hkey
  obtain ⟨e', he', hkeys⟩ := List.mem_map.1 hkey'
  exact hne (TypeDeclaration.qualifiedName_eq_of_key (wordNamed_of_mem h hmem)
    (wordNamed_of_mem h hmem') he he' hkeys.symm)

/-- An entry of a model describes what its kind and its identifier describe. -/
lemma describe?_of_mem (h : model.WellKeyed) {e : SignatureEntry}
    (he : e ∈ model.signatureEntries) :
    e.key = e.kind.keyOf e.identifier ∧ e.cacheKey = signatureHash e.kind e.signature ∧
      model.describe? e.kind e.identifier = some e.signature := by
  obtain ⟨type, hmem, he⟩ := List.mem_flatMap.1 he
  rcases TypeDeclaration.mem_signatureEntries_iff.1 he with rfl | ⟨m, hm, rfl⟩ | ⟨f, hf, -, rfl⟩
  · refine ⟨rfl, rfl, ?_⟩
    have hclass := (class?_eq_some_iff h).2 ⟨hmem, rfl⟩
    simp [describe?, SignatureEntry.make, hclass]
  · refine ⟨rfl, rfl, ?_⟩
    have hmethod := (method?_eq_some_iff h).2 ⟨type, hmem, hm, rfl⟩
    simp [describe?, SignatureEntry.make, hmethod]
  · refine ⟨rfl, rfl, ?_⟩
    have hfield := (field?_eq_some_iff h).2 ⟨type, hmem, hf, rfl⟩
    simp [describe?, SignatureEntry.make, hfield]

/-- What can be described has an entry, unless it is a field that is not embeddable. -/
lemma exists_mem_of_describe? (h : model.WellKeyed) {kind : SignatureKind} {identifier s : String}
    (hdescribe : model.describe? kind identifier = some s)
    (hembeddable : kind = .ofField → ∀ f, model.field? identifier = some f →
      f.isEmbeddable = true) :
    ∃ e ∈ model.signatureEntries, e.key = kind.keyOf identifier ∧ e.signature = s := by
  cases kind with
  | ofClass =>
    obtain ⟨type, hclass, rfl⟩ := Option.map_eq_some_iff.1 hdescribe
    obtain ⟨hmem, rfl⟩ := (class?_eq_some_iff h).1 hclass
    exact ⟨_, List.mem_flatMap.2 ⟨type, hmem,
      TypeDeclaration.mem_signatureEntries_iff.2 (Or.inl rfl)⟩, rfl, rfl⟩
  | ofMethod =>
    obtain ⟨m, hmethod, rfl⟩ := Option.map_eq_some_iff.1 hdescribe
    obtain ⟨type, hmem, hm, rfl⟩ := (method?_eq_some_iff h).1 hmethod
    exact ⟨_, List.mem_flatMap.2 ⟨type, hmem,
      TypeDeclaration.mem_signatureEntries_iff.2 (Or.inr (Or.inl ⟨m, hm, rfl⟩))⟩, rfl, rfl⟩
  | ofField =>
    obtain ⟨f, hfield, rfl⟩ := Option.map_eq_some_iff.1 hdescribe
    obtain ⟨type, hmem, hf, rfl⟩ := (field?_eq_some_iff h).1 hfield
    exact ⟨_, List.mem_flatMap.2 ⟨type, hmem, TypeDeclaration.mem_signatureEntries_iff.2
      (Or.inr (Or.inr ⟨f, hf, hembeddable rfl f hfield, rfl⟩))⟩, rfl, rfl⟩

/-- A field that is not embeddable has no entry. -/
lemma key_ne_of_not_embeddable (h : model.WellKeyed) {identifier : String} {f : Field}
    (hfield : model.field? identifier = some f) (hf : f.isEmbeddable = false)
    {e : SignatureEntry} (he : e ∈ model.signatureEntries) :
    e.key ≠ SignatureKind.ofField.keyOf identifier := by
  intro hkey
  obtain ⟨type, hmem, he⟩ := List.mem_flatMap.1 he
  rcases TypeDeclaration.mem_signatureEntries_iff.1 he with rfl | ⟨m, hm, rfl⟩ | ⟨f', hf', hemb, rfl⟩
  · exact absurd (SignatureKind.keyOf_inj.1 hkey).1 (by decide)
  · exact absurd (SignatureKind.keyOf_inj.1 hkey).1 (by decide)
  · obtain ⟨-, rfl⟩ := SignatureKind.keyOf_inj.1 hkey
    have hfound := (field?_eq_some_iff h).2 ⟨type, hmem, hf', rfl⟩
    rw [hfield, Option.some.injEq] at hfound
    rw [← hfound, hf] at hemb
    exact Bool.false_ne_true hemb

/-- A key names a field that is in the model and is not embeddable. -/
def NamesPlainField (model : Model) (key : String) : Prop :=
  ∃ name f, key = "field:" ++ name ∧ model.field? name = some f ∧ f.isEmbeddable = false

/-- **Entries and resolver agree.**  In the model of any scan, also after any types were taken out:
the keys of the entries do not repeat; every entry resolves to its own signature and carries the
digest of it; and a key that resolves belongs to exactly one entry, with the signature found, or to
none when it names a field that is not embeddable. -/
theorem signatureEntries_resolve (settings : Settings) (tree : FileTree) (root : List String)
    (isCancelled : List String → Bool) (drops : List String) :
    let model := drops.foldl dropClass (scanWith settings tree root isCancelled)
    (model.signatureEntries.map (·.key)).Nodup ∧
    (∀ e ∈ model.signatureEntries, model.signatureFor? e.key = some e.signature ∧
      e.cacheKey = signatureHash e.kind e.signature) ∧
    ∀ key s, model.signatureFor? key = some s →
      (model.NamesPlainField key → ∀ e ∈ model.signatureEntries, e.key ≠ key) ∧
      (¬ model.NamesPlainField key →
        (model.signatureEntries.filter (·.key = key)).map (·.signature) = [s]) := by
  intro model
  have h : model.WellKeyed :=
    wellKeyed_dropClasses (wellKeyed_scanWith settings tree root isCancelled) drops
  refine ⟨nodup_keys h, fun e he => ?_, fun key s hkey => ?_⟩
  · obtain ⟨hkey, hcache, hdescribe⟩ := describe?_of_mem h he
    exact ⟨by rw [hkey, signatureFor?_keyOf, hdescribe], hcache⟩
  · obtain ⟨kind, identifier, rfl, hdescribe⟩ := exists_keyOf_of_signatureFor? hkey
    constructor
    · rintro ⟨name, f, hname, hfield, hf⟩ e he
      exact hname ▸ key_ne_of_not_embeddable h hfield hf he
    · intro hlisted
      have hembeddable : kind = .ofField → ∀ f, model.field? identifier = some f →
          f.isEmbeddable = true := by
        rintro rfl f hfield
        by_contra hf
        exact hlisted ⟨identifier, f, rfl, hfield, by simpa using hf⟩
      obtain ⟨e, he, hkeyEq, rfl⟩ := exists_mem_of_describe? h hdescribe hembeddable
      rw [← hkeyEq, filter_key_eq_singleton (nodup_keys h) he, List.map_singleton]

end Model

end Survey
