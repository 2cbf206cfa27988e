/-
# Printed interface documents are read back

The lines of a document are read one after the other, so what is read of a document is put together
from what its lines add: a member adds itself to the open interface, a closing brace finishes it, and
the head of a module names the module of the interfaces that follow.
-/
import Survey.Proofs.RemoteInterface.Shapes

namespace Survey

open Survey.Text Survey.LogicalLines

/-! ### Members -/

namespace RemoteInterface.Reading

/-- A line that begins like a word of a type does not close the open interface, so it is a member. -/
lemma read_eq_addMember {r : Reading} {i : RemoteInterface} (hcurrent : r.current = some i)
    {line : List Char} {c : Char} (hhead : line.head? = some c)
    (hc : RemoteShape.isTypeChar c = true) :
    r.read line = { r with current := some (i.addMember line) } := by
  have hopen : line.head? ≠ some '\x7d' := by
    rw [hhead]
    rintro ⟨rfl⟩
    exact absurd hc (by decide)
  simp only [read, hcurrent]
  exact if_neg hopen

end RemoteInterface.Reading

namespace RemoteDocument

lemma ne_paren_of_isTypeChar {c : Char} (hc : RemoteShape.isTypeChar c = true) : c ≠ '(' := by
  rintro rfl
  exact absurd hc (by decide)

namespace Member

/-- No attribute can be taken for an operation. -/
lemma paren_notMem_line (readonly : Bool) (first : TypeWord) (more : List TypeWord) (name : Word) :
    '(' ∉ (Member.attribute readonly first more name).line := by
  have hmodifier : '(' ∉ (if readonly then "readonly".toList ++ [' '] else []) := by
    cases readonly with
    | true => decide +kernel
    | false => simp
  have hkeyword : '(' ∉ "attribute".toList := by decide +kernel
  have htype : '(' ∉ printType first more := fun hmem =>
    forall_mem_printType (fun _ => ne_paren_of_isTypeChar) (by decide) first more _ hmem rfl
  have hname : '(' ∉ name.text := fun hmem => ne_paren_of_isTypeChar (name.isTypeChar _ hmem) rfl
  simp only [line, text, List.mem_append, not_or]
  exact ⟨⟨hmodifier, hkeyword, by decide, htype, by decide, hname⟩, by decide⟩

/-- A line that declares a member adds it. -/
lemma addMember_line (i : RemoteInterface) (member : Member) :
    i.addMember member.line =
      { i with
        operations := i.operations ++ member.operation?.toList
        attributes := i.attributes ++ member.attribute?.toList } := by
  cases member with
  | operation returnType name parameters =>
    obtain ⟨found, hfind, htype, hname, hparameters⟩ :=
      find?_operationLine returnType name parameters
    have hopen : (Member.operation returnType name parameters).line.contains '(' = true := by
      simp [line, text]
    have hclose : (Member.operation returnType name parameters).line.contains ')' = true := by
      simp [line, text]
    rw [RemoteInterface.addMember, hopen, hclose]
    simp [RemoteInterface.operation?, hfind, htype, hname, hparameters, parameters.trimmed,
      operation?, attribute?]
  | «attribute» readonly first more name =>
    obtain ⟨found, hfind, hreadonly, htype, hname⟩ := find?_attributeLine readonly first more name
    have hopen : (Member.attribute readonly first more name).line.contains '(' = false := by
      simpa using paren_notMem_line readonly first more name
    have hkeyword : contains "attribute".toList (Member.attribute readonly first more name).line =
        true := by
      have happend (u v w x : List Char) : u ++ v ++ (w ++ x) = u ++ (v ++ w) ++ x := by
        simp only [List.append_assoc]
      exact contains_iff.2 ⟨_, _, happend _ _ _ _⟩
    rw [RemoteInterface.addMember, hopen, Bool.false_and, if_neg Bool.false_ne_true, if_pos hkeyword]
    simp [RemoteInterface.attribute?, hfind, hreadonly, htype, hname, operation?, attribute?]

/-- Reading the line of a member adds it to the open interface. -/
lemma read_line (member : Member) {r : RemoteInterface.Reading} {i : RemoteInterface}
    (hcurrent : r.current = some i) :
    r.read member.line = { r with current := some (i.addMember member.line) } := by
  obtain ⟨c, hhead, hc⟩ := member.exists_head_line
  exact RemoteInterface.Reading.read_eq_addMember hcurrent hhead hc

/-- The lines of some members add them one after the other. -/
lemma foldl_read_lines (members : List Member) {r : RemoteInterface.Reading} {i : RemoteInterface}
    (hcurrent : r.current = some i) :
    (members.map line).foldl RemoteInterface.Reading.read r =
      { r with
        current := some { i with
          operations := i.operations ++ members.filterMap operation?
          attributes := i.attributes ++ members.filterMap attribute? } } := by
  induction members generalizing r i with
  | nil => simp [← hcurrent]
  | cons member members ih =>
    rw [List.map_cons, List.foldl_cons, member.read_line hcurrent, ih rfl, member.addMember_line]
    have hoperations : (member :: members).filterMap operation? =
        member.operation?.toList ++ members.filterMap operation? := by
      cases h : member.operation? <;> simp [h]
    have hattributes : (member :: members).filterMap Member.attribute? =
        member.attribute?.toList ++ members.filterMap Member.attribute? := by
      cases h : member.attribute? <;> simp [h]
    rw [hoperations, hattributes]
    simp only [List.append_assoc]

end Member

/-! ### Interfaces and modules -/

namespace Interface

/-- The head of an interface opens it. -/
lemma read_headLine (i : Interface) {r : RemoteInterface.Reading} (hcurrent : r.current = none) :
    r.read i.headLine = { r with
      current := some {
        name := String.ofList i.name.text
        module := r.module
        operations := []
        attributes := []
        inheritedNames := i.bases.map fun base => String.ofList base.text } } := by
  obtain ⟨found, hfind, hname, hbases⟩ := i.find?_interfaceLine
  have hmodule : RemoteShape.moduleLine.find? i.headLine = none :=
    find?_moduleLine_of_ne (c := 'i') (by decide)
  have hlast : i.headLine.getLast? ≠ some ';' := by simp [headLine]
  have hinherited : nonEmpty ((cutAt (· == ',') (found.groupText 2)).map trim) =
      i.bases.map (·.text) := hbases
  simp only [RemoteInterface.Reading.read, hcurrent, hmodule, RemoteInterface.opened?, hfind,
    if_neg hlast, hname, hinherited, List.map_map]
  rfl

/-- The lines of an interface add it to the finished ones, in the module that was named last. -/
lemma foldl_read_lines (i : Interface) (module : String) (finished : List RemoteInterface) :
    i.lines.foldl RemoteInterface.Reading.read ⟨module, none, finished⟩ =
      ⟨module, none, finished ++ [{
        name := String.ofList i.name.text
        module
        operations := i.members.filterMap Member.operation?
        attributes := i.members.filterMap Member.attribute?
        inheritedNames := i.bases.map fun base => String.ofList base.text }]⟩ := by
  rw [lines, List.foldl_cons, i.read_headLine rfl, List.foldl_append,
    Member.foldl_read_lines i.members rfl]
  rfl

end Interface

namespace Module

/-- The head of a module names it. -/
lemma read_headLine (m : Module) (before : String) (finished : List RemoteInterface) :
    RemoteInterface.Reading.read ⟨before, none, finished⟩ m.headLine =
      ⟨String.ofList m.name.text, none, finished⟩ := by
  obtain ⟨found, hfind, hname⟩ := m.find?_moduleLine
  simp only [RemoteInterface.Reading.read, hfind, hname]

/-- No interface is open when the brace of a module comes, so it closes nothing. -/
lemma read_close (module : String) (finished : List RemoteInterface) :
    RemoteInterface.Reading.read ⟨module, none, finished⟩ ['\x7d', ';'] =
      ⟨module, none, finished⟩ := by
  have hmodule : RemoteShape.moduleLine.find? ['\x7d', ';'] = none :=
    find?_moduleLine_of_ne (by decide)
  simp only [RemoteInterface.Reading.read, hmodule, RemoteInterface.opened?,
    find?_interfaceLine_close]

lemma foldl_read_interfaces (module : Word) (interfaces : List Interface)
    (finished : List RemoteInterface) :
    (interfaces.flatMap Interface.lines).foldl RemoteInterface.Reading.read
        ⟨String.ofList module.text, none, finished⟩ =
      ⟨String.ofList module.text, none, finished ++ interfaces.map (Interface.read module)⟩ := by
  induction interfaces generalizing finished with
  | nil => simp
  | cons i interfaces ih =>
    rw [List.flatMap_cons, List.foldl_append, i.foldl_read_lines, ih]
    simp [Interface.read]

/-- The lines of a module add its interfaces to the finished ones. -/
lemma foldl_read_lines (m : Module) (before : String) (finished : List RemoteInterface) :
    m.lines.foldl RemoteInterface.Reading.read ⟨before, none, finished⟩ =
      ⟨String.ofList m.name.text, none, finished ++ m.interfaces.map (Interface.read m.name)⟩ := by
  rw [lines, List.foldl_cons, m.read_headLine, List.foldl_append, foldl_read_interfaces,
    List.foldl_cons, read_close, List.foldl_nil]

end Module

/-- The lines of a document declare its interfaces. -/
lemma ofLines_lines (modules : List Module) :
    RemoteInterface.ofLines (modules.flatMap Module.lines) = interfaces modules := by
  -- the name of the last module stays behind, so it is left open which one it is
  have hfold : ∀ before finished,
      ∃ last, (modules.flatMap Module.lines).foldl RemoteInterface.Reading.read
        ⟨before, none, finished⟩ = ⟨last, none, finished ++ interfaces modules⟩ := by
    induction modules with
    | nil => exact fun before finished => ⟨before, by simp [interfaces]⟩
    | cons m modules ih =>
      intro before finished
      obtain ⟨last, hlast⟩ := ih (String.ofList m.name.text)
        (finished ++ m.interfaces.map (Interface.read m.name))
      refine ⟨last, ?_⟩
      rw [List.flatMap_cons, List.foldl_append, m.foldl_read_lines, hlast]
      simp [interfaces]
  obtain ⟨last, hlast⟩ := hfold "" []
  rw [RemoteInterface.ofLines, RemoteInterface.Reading.start, hlast]
  simp [RemoteInterface.Reading.interfaces]

/-! ### Blocks -/

/-- Only the last character of a line opens a block. -/
lemma count_append_end {u : List Char} (hu : ∀ c ∈ u, isMark c = false) {c : Char}
    (hc : isMark c = true) (d : Char) : (u ++ [d]).count c = if d = c then 1 else 0 := by
  have hnone : u.count c = 0 := List.count_eq_zero.2 fun hmem => by simp [hu c hmem] at hc
  rw [List.count_append, hnone, Nat.zero_add, List.count_singleton]
  simp [beq_iff_eq]

/-- Some lines open and close the same number of blocks. -/
def Balanced (lines : List (List Char)) : Prop :=
  RemoteInterface.countIn '\x7b' lines = RemoteInterface.countIn '\x7d' lines

lemma Balanced.append {lines lines' : List (List Char)} (h : Balanced lines)
    (h' : Balanced lines') : Balanced (lines ++ lines') := by
  simp only [Balanced, RemoteInterface.countIn] at h h' ⊢
  rw [List.flatten_append, List.count_append, List.count_append, h, h']

lemma balanced_flatMap {α : Type} {items : List α} {lines : α → List (List Char)}
    (h : ∀ item ∈ items, Balanced (lines item)) : Balanced (items.flatMap lines) := by
  induction items with
  | nil => rfl
  | cons item items ih =>
    have hitem : Balanced (lines item) := h item (by simp)
    have hitems := ih fun item hmem => h item (List.mem_cons_of_mem _ hmem)
    exact hitem.append hitems

/-- Balanced lines stay balanced between a line that opens a block and one that closes it. -/
lemma Balanced.block {lines : List (List Char)} (h : Balanced lines) {u : List Char}
    (hu : ∀ c ∈ u, isLineChar c = true) :
    Balanced ((u ++ ['\x7b']) :: (lines ++ [['\x7d', ';']])) := by
  have hmark : ∀ c ∈ u, isMark c = false := fun c hc => isMark_of_isLineChar (hu c hc)
  have hopen : (u ++ ['\x7b']).count '\x7b' = 1 := count_append_end hmark rfl _
  have hclose : (u ++ ['\x7b']).count '\x7d' = 0 := count_append_end hmark rfl _
  have hend : ['\x7d', ';'].count '\x7b' = 0 ∧ ['\x7d', ';'].count '\x7d' = 1 := by decide
  simp only [Balanced, RemoteInterface.countIn] at h ⊢
  simp only [List.flatten_cons, List.flatten_append, List.flatten_nil, List.append_nil,
    List.count_append, hopen, hclose, hend.1, hend.2, h]
  omega

lemma Member.balanced_lines (members : List Member) : Balanced (members.map Member.line) := by
  rw [List.map_eq_flatMap]
  refine balanced_flatMap fun member _ => ?_
  have hopen : member.line.count '\x7b' = 0 := count_append_end member.not_isMark_text rfl _
  have hclose : member.line.count '\x7d' = 0 := count_append_end member.not_isMark_text rfl _
  simp only [Balanced, RemoteInterface.countIn, List.flatten_singleton, hopen, hclose]

/-- A document opens and closes the same number of blocks. -/
lemma balanced_lines (modules : List Module) : Balanced (modules.flatMap Module.lines) :=
  balanced_flatMap fun m _ => (balanced_flatMap fun i _ =>
    (Member.balanced_lines i.members).block i.isLineChar_headText).block m.isLineChar_headText

end RemoteDocument

open RemoteDocument

/-- **Canonical interface documents are read back**, with every module, interface and member in
order, in every layout. -/
theorem RemoteInterface.parse_printed (layout : Layout) (modules : List Module) (path : String) :
    parse (String.ofList (print layout modules)) path = .ok (interfaces modules) := by
  rw [parse, String.toList_ofList, logicalLines_print, balanced_lines, ofLines_lines]
  exact if_neg fun h => h.2 rfl

end Survey
