/-
# Reading a unit with every access checked

A reader that looks into its text by byte counts and line numbers can go wrong: a difference can
fall below zero, an index can be out of range, a slice can cut a character in two, and a group that
took no part has no text.  Here the whole reader is written once more with every such access
checked, so that it answers nothing when one of them fails.  It never does: for every source, the
checked reader answers what the reader answers.

Matches start and end at places of the text, line starts are places, and the braces that the search
for a closing brace looks at are ASCII bytes, which have places on both sides.
-/
import Survey.Declaration.Parse
import Survey.Proofs.Declaration.BlockIndex
import Survey.Proofs.Pattern.Groups
import Survey.Proofs.Text.Places

namespace Survey

open Survey.Text

namespace Checked

/-! ### Accesses -/

/-- A difference that may not fall below zero. -/
def sub (a b : Nat) : Option Nat := if b ≤ a then some (a - b) else none

/-- The text of a group that must have taken part in a match. -/
def groupText (m : Match) (number : Nat) : Option (List Char) := (m.group? number).map Span.text

/-- What some matches declare, if the reading of all of them succeeds. -/
def collect {α : Type} (read : Match → Option (Option α)) (found : List Match) :
    Option (List α) :=
  (found.mapM read).map fun results => results.filterMap id

/-- The start of the line that holds an offset. -/
def lineStart (index : LineIndex) (offset : Nat) : Option Nat :=
  (sub (index.lineOf offset) 1).bind fun line => index.starts[line]?

/-- The byte offset of the last character of a class, from the offset of a text. -/
def lastOffset? (cls : Char → Bool) (offset : Nat) : List Char → Option Nat
  | [] => none
  | c :: rest =>
    (lastOffset? cls (offset + c.utf8Size) rest).or (if cls c then some offset else none)

/-! ### Annotations -/

/-- The names of the annotations in a text. -/
def namesIn (text : List Char) : Option (List String) :=
  (Shape.annotationMark.findAll text).mapM fun m => (groupText m 1).map String.ofList

/-- The annotations above a line that has so many lines above it. -/
def namesAbove (lines : List (List Char)) : Nat → Option (List String)
  | 0 => some []
  | index + 1 => do
    let line ← lines[index]?
    if Annotations.isPassedOver (trim line) then namesAbove lines index
    else
      let found ← namesIn (trim line)
      if found.isEmpty then some [] else return (← namesAbove lines index) ++ found

/-- The annotations above the line with a given index. -/
def namesBefore (lines : List (List Char)) (index : Nat) : Option (List String) :=
  namesAbove lines (min index lines.length)

/-- The text after the last statement boundary, and whether there is a boundary at all. -/
def afterLastBoundary (text : List Char) : Option (List Char × Bool) :=
  match lastOffset? Annotations.isStatementBoundary 0 text with
  | some offset => (dropBytes? (offset + 1) text).map (·, true)
  | none => some (text, false)

/-- The annotations of the declaration that starts at a byte offset of a source. -/
def namesAt (source : Source) (offset : Nat) : Option (List String) := do
  let start ← lineStart source.index offset
  let lineText ← slice? source.text start offset
  let (ownText, sharesLine) ← afterLastBoundary lineText
  let above ←
    if sharesLine then some []
    else (sub (source.index.lineOf offset) 1).bind (namesBefore source.lines)
  return above ++ (← namesIn ownText)

/-! ### Bodies -/

/-- The text of the block that opens at a byte offset. -/
def textFrom (source : Source) (start : Nat) : Option (List Char) :=
  match Block.closingBraceFrom? source.bytes 0 start with
  | some close => slice? source.text start (close + 1)
  | none => dropBytes? start source.text

/-- The body that follows a byte offset, if a block follows. -/
def bodyAfter (source : Source) (offset : Nat) : Option (Option (List Char)) := do
  let rest ← dropBytes? offset source.text
  let blanks ← sub (byteLength rest) (byteLength (trimStart rest))
  match ← dropBytes? blanks rest with
  | '{' :: _ => (textFrom source (offset + blanks)).map some
  | _ => return none

/-- The name that a match of the call shape calls, if it calls one. -/
def calledName (m : Match) : Option (Option String) :=
  if (m.group? 1).isSome then some none
  else do
    let name ← groupText m 2
    return if Shape.nonCallKeywords.contains (String.ofList name) then none
      else some (String.ofList name)

/-- The names called in a text. -/
def calledNames (text : List Char) : Option (List String) :=
  (collect calledName (Shape.call.findAll text)).map distinct

/-- The names called in a body, behind its opening brace. -/
def calls : Option (List Char) → Option (List String)
  | some body => (dropBytes? 1 body).bind calledNames
  | none => some []

/-! ### Members -/

/-- The method that a match of the method shape declares, unless its return type is refused. -/
def method (source : Source) (m : Match) : Option (Option Method) := do
  let modifierText ← groupText m 1
  let slotText ← groupText m 2
  let nameText ← groupText m 3
  let parameterText ← groupText m 4
  let slot := String.ofList slotText
  let name := String.ofList nameText
  if Shape.isRejectedType slot then return none
  let isConstructor := Shape.visibilityKeywords.contains slot
  let annotations ← namesAt source m.start
  let declaredThrows := distinct (groupItems m 5)
  let body ← bodyAfter source m.stop
  let called ← calls body
  return some {
    name
    returnType := if isConstructor then name else slot
    parameters := Parameter.parseList parameterText
    modifiers :=
      Modifiers.ofText (if isConstructor then modifierText ++ ' ' :: slotText else modifierText)
    annotations
    declaredThrows
    sourceLine := source.index.lineOf m.start
    calledNames := called
    bodyLineCount := Body.lineCount body
    isActionHandler :=
      Shape.actionMethodNames.contains name ||
        containsAny Shape.actionContextTypes parameterText
    isRemoteOperation := (annotations ++ declaredThrows).any isRemoteText }

/-- The methods of a unit in textual order. -/
def methods (source : Source) : Option (List Method) :=
  collect (method source) (Shape.method.findAll source.text)

/-- The field that a match of the field shape declares, unless its type is refused. -/
def field (source : Source) (m : Match) : Option (Option Field) := do
  let typeText ← groupText m 2
  let declaredType := String.ofList typeText
  if Shape.isRejectedType declaredType then return none
  let nameText ← groupText m 3
  let modifierText ← groupText m 1
  let annotations ← namesAt source m.start
  return some {
    name := String.ofList nameText
    declaredType
    modifiers := Modifiers.ofText modifierText
    annotations
    initialValue := (m.group? 4).map fun span => String.ofList (trim span.text)
    sourceLine := source.index.lineOf m.start }

/-- The fields of a unit in textual order. -/
def fields (source : Source) : Option (List Field) :=
  collect (field source) (Shape.field.findAll source.text)

/-! ### Units -/

/-- The package of a unit; empty when none is given. -/
def package (text : List Char) : Option String :=
  match Shape.packageClause.find? text with
  | some m => (groupText m 1).map fun name => String.ofList (trim name)
  | none => some ""

/-- The imports of a unit. -/
def imports (text : List Char) : Option (List String) :=
  (Shape.importClause.findAll text).mapM fun m =>
    (groupText m 2).map fun name => String.ofList (trim name)

/-- The type that a match of the type shape declares in a unit with some package and imports. -/
def declaration (text : List Char) (path package : String) (imports : List String)
    (kind : TypeKind) (m : Match) : Option TypeDeclaration := do
  let source := Source.ofText text
  let nameText ← groupText m 3
  let simpleName := String.ofList nameText
  let extended := groupItems m 4
  let isRemoteServantClass := Shape.remoteServant.occursIn text
  let methods ← methods source
  let fields ← fields source
  let modifierText ← groupText m 1
  let annotations ← namesAt source m.start
  return {
    simpleName
    qualifiedName := qualify package simpleName
    kind
    package
    modifiers := Modifiers.ofText modifierText
    annotations
    superclassName := extended.head?
    implementedNames := extended.tail ++ groupItems m 5
    methods
    fields
    imports
    sourceLine := source.index.lineOf m.start
    sourcePath := path
    isActionHandlerClass := Shape.actionHandler.occursIn text
    isRemoteServantClass
    isRemoteHelperClass := !isRemoteServantClass && Shape.isHelperName nameText
    isRemoteHolderClass := Shape.isHolderName nameText
    isFormBeanClass := Shape.formBeanClass.occursIn text }

/-- The outer type of a source unit; a unit without one fails, but only after its package and its
imports have been read. -/
def parse (source path : String) : Option (Except Failure TypeDeclaration) := do
  let text := source.toList
  let package ← package text
  let imports ← imports text
  match Shape.typeDeclaration.find? text with
  | none => return .error ⟨path, .noDeclaration⟩
  | some m =>
    let keyword ← groupText m 2
    match TypeKind.ofKeyword? (String.ofList keyword) with
    | none => return .error ⟨path, .noDeclaration⟩
    | some kind => return .ok (← declaration text path package imports kind m)

/-! ### Accesses succeed -/

variable {text : List Char} {m : Match} {place : Cursor}

lemma sub_eq {a b : Nat} (h : b ≤ a) : sub a b = some (a - b) := if_pos h

/-- A group that takes part in every match has a text. -/
lemma groupText_eq {p : Pattern} {n : Nat} (h : p.matchAt? place = some m)
    (hreq : p.requires n = true) : groupText m n = some (m.groupText n) := by
  obtain ⟨s, hs, rfl⟩ := Pattern.mem_ways_of_matchAt? h
  obtain ⟨span, hspan⟩ := Pattern.exists_mem_groups_of_requires hs hreq
  rw [groupText, Match.groupText]
  cases hlookup : Match.group? ⟨⟨place, s.place⟩, s.groups⟩ n with
  | none =>
    have hnone := List.lookup_eq_none_iff.1 hlookup (n, span) hspan
    simp at hnone
  | some found => rfl

/-- A step that succeeds on all members of a list succeeds on the list. -/
lemma mapM_eq_some {α β : Type} {f : α → Option β} {g : α → β} {xs : List α}
    (h : ∀ x ∈ xs, f x = some (g x)) : xs.mapM f = some (xs.map g) := by
  induction xs with
  | nil => rfl
  | cons x xs ih =>
    rw [List.mapM_cons, h x List.mem_cons_self, ih fun y hy => h y (List.mem_cons_of_mem x hy)]
    rfl

lemma collect_eq {α : Type} {read : Match → Option (Option α)} {ofMatch? : Match → Option α}
    {found : List Match} (h : ∀ m ∈ found, read m = some (ofMatch? m)) :
    collect read found = some (found.filterMap ofMatch?) := by
  rw [collect, mapM_eq_some h, Option.map_some, List.filterMap_map, Function.id_comp]

/-- The start of a line is found, and it is a place that is not above the offset. -/
lemma lineStart_eq (text : List Char) (offset : Nat) :
    lineStart (.ofText text) offset = some ((LineIndex.ofText text).lineStart offset) ∧
      (LineIndex.ofText text).lineStart offset ≤ offset ∧
      IsPlace text ((LineIndex.ofText text).lineStart offset) := by
  obtain ⟨line, start, hline, hstart, hle⟩ := LineIndex.exists_start text offset
  have hsub : sub ((LineIndex.ofText text).lineOf offset) 1 = some line := by
    rw [hline, sub_eq (by omega), Nat.add_sub_cancel]
  have heq : (LineIndex.ofText text).lineStart offset = start := by
    rw [LineIndex.lineStart, hline, Nat.add_sub_cancel, List.getD_eq_getElem?_getD, hstart,
      Option.getD_some]
  rw [heq, lineStart, hsub, Option.bind_some, hstart]
  exact ⟨rfl, hle, LineIndex.isPlace_of_mem_starts (List.mem_of_getElem? hstart)⟩

lemma lastOffset?_append (cls : Char → Bool) (offset : Nat) (front back : List Char) :
    lastOffset? cls offset (front ++ back)
      = (lastOffset? cls (offset + byteLength front) back).or (lastOffset? cls offset front) := by
  induction front generalizing offset with
  | nil => simp [lastOffset?]
  | cons c front ih =>
    rw [List.cons_append, lastOffset?, lastOffset?, ih, byteLength_cons, Nat.add_assoc,
      Option.or_assoc]

lemma lastOffset?_eq_none {cls : Char → Bool} {offset : Nat} (h : ∀ c ∈ text, cls c = false) :
    lastOffset? cls offset text = none := by
  induction text generalizing offset with
  | nil => rfl
  | cons c text ih =>
    rw [lastOffset?, ih fun d hd => h d (List.mem_cons_of_mem c hd), h c List.mem_cons_self]
    rfl

/-! ### Annotations are read -/

open Annotations (isStatementBoundary)

/-- A text without a statement boundary, or the parts around the last one. -/
lemma exists_last_boundary (text : List Char) :
    (∀ c ∈ text, isStatementBoundary c = false) ∨
      ∃ front b back, text = front ++ b :: back ∧ isStatementBoundary b = true ∧
        ∀ c ∈ back, isStatementBoundary c = false := by
  induction text with
  | nil => exact .inl (by simp)
  | cons c text ih =>
    rcases ih with hnone | ⟨front, b, back, rfl, hb, hback⟩
    · cases hc : isStatementBoundary c with
      | false => exact .inl (List.forall_mem_cons.2 ⟨hc, hnone⟩)
      | true => exact .inr ⟨[], c, text, rfl, hc, hnone⟩
    · exact .inr ⟨c :: front, b, back, rfl, hb, hback⟩

/-- Statement boundaries have one byte. -/
lemma utf8Size_of_isStatementBoundary {c : Char} (h : isStatementBoundary c = true) :
    c.utf8Size = 1 := by
  simp only [isStatementBoundary, Bool.or_eq_true, beq_iff_eq] at h
  rcases h with (rfl | rfl) | rfl <;> rfl

lemma afterLastBoundary_eq (text : List Char) :
    afterLastBoundary text = some (Annotations.afterLastBoundary text) := by
  rcases exists_last_boundary text with hnone | ⟨front, b, back, rfl, hb, hback⟩
  · have hwhile : text.reverse.takeWhile (!isStatementBoundary ·) = text.reverse :=
      List.takeWhile_eq_self_iff.2 fun c hc => by simp [hnone c (List.mem_reverse.1 hc)]
    have hany : text.any isStatementBoundary = false :=
      List.any_eq_false.2 fun c hc => by simp [hnone c hc]
    rw [afterLastBoundary, lastOffset?_eq_none hnone, Annotations.afterLastBoundary, hwhile,
      List.reverse_reverse, hany]
  · have hoffset : lastOffset? isStatementBoundary 0 (front ++ b :: back)
        = some (byteLength front) := by
      rw [lastOffset?_append, lastOffset?, lastOffset?_eq_none hback, hb]
      simp
    have hcut : dropBytes? (byteLength front + 1) (front ++ b :: back) = some back := by
      have hdrop := dropBytes?_append (front ++ [b]) back
      rwa [byteLength_append, byteLength_cons, byteLength_nil,
        utf8Size_of_isStatementBoundary hb, List.append_assoc, List.singleton_append] at hdrop
    have hwhile : (front ++ b :: back).reverse.takeWhile (!isStatementBoundary ·)
        = back.reverse := by
      rw [List.reverse_append, List.reverse_cons, List.append_assoc]
      refine (Cursor.takeWhile_append_stop (fun c hc => ?_) ?_).1
      · simp [hback c (List.mem_reverse.1 hc)]
      · simp [hb]
    rw [afterLastBoundary, hoffset, Annotations.afterLastBoundary, hwhile, List.reverse_reverse]
    simp [hcut, hb]

lemma namesIn_eq (text : List Char) : namesIn text = some (Annotations.namesIn text) := by
  refine mapM_eq_some fun m hm => ?_
  obtain ⟨place, -, hmatch⟩ := Pattern.matchAt?_of_mem_findAll hm
  rw [groupText_eq hmatch rfl, Option.map_some]

lemma namesAbove_eq {lines : List (List Char)} {index : Nat} (h : index ≤ lines.length) :
    namesAbove lines index = some (Annotations.namesBefore lines index) := by
  induction index with
  | zero => rfl
  | succ index ih =>
    have hline : lines[index]? = some lines[index] := List.getElem?_eq_getElem h
    have hreverse : (lines.take (index + 1)).reverse
        = lines[index] :: (lines.take index).reverse := by
      rw [List.take_succ_eq_append_getElem h, List.reverse_append]
      rfl
    rw [Annotations.namesBefore, hreverse, Annotations.namesAbove, ← Annotations.namesBefore]
    simp only [namesAbove, hline, Option.bind_eq_bind, Option.bind_some, namesIn_eq, ih (by omega)]
    split
    · rfl
    · cases Annotations.namesIn (trim lines[index]) <;> rfl

lemma namesBefore_eq (lines : List (List Char)) (index : Nat) :
    namesBefore lines index = some (Annotations.namesBefore lines index) := by
  have htake : lines.take (min index lines.length) = lines.take index := by
    rw [← List.take_take, List.take_length]
  rw [namesBefore, namesAbove_eq (Nat.min_le_right _ _), Annotations.namesBefore, htake,
    Annotations.namesBefore]

/-- The annotations of a declaration are read wherever a match starts. -/
lemma namesAt_eq {offset : Nat} (h : IsPlace text offset) :
    namesAt (.ofText text) offset = some (Annotations.namesAt (.ofText text) offset) := by
  obtain ⟨hstart, hle, hplace⟩ := lineStart_eq text offset
  obtain ⟨line, hline⟩ := hplace.exists_slice? h hle
  obtain ⟨n, -, hn, -⟩ := LineIndex.exists_start text offset
  have hsub : sub ((LineIndex.ofText text).lineOf offset) 1
      = some ((LineIndex.ofText text).lineOf offset - 1) := sub_eq (by omega)
  simp only [namesAt, Source.index_ofText, Source.text_ofText, Source.lines_ofText, hstart, hline,
    hsub, afterLastBoundary_eq, namesBefore_eq, namesIn_eq, Option.bind_eq_bind, Option.bind_some,
    Annotations.namesAt, Option.getD_some]
  split <;> rfl

/-! ### Bodies are read -/

lemma getElem?_utf8_openBrace (front back : List Char) :
    (utf8 (front ++ '{' :: back))[byteLength front]? = some Block.openBrace := by
  rw [utf8_append, List.getElem?_append_right (by rw [length_utf8]), length_utf8, Nat.sub_self]
  rfl

lemma exists_cons_of_takeBytes? {count : Nat} {c : Char} {rest part : List Char}
    (h : takeBytes? count (c :: rest) = some part) (hpos : 0 < count) :
    ∃ part', part = c :: part' := by
  obtain ⟨count, rfl⟩ : ∃ k, count = k + 1 := ⟨count - 1, by omega⟩
  rw [takeBytes?] at h
  split at h
  · obtain ⟨part', -, rfl⟩ := Option.map_eq_some_iff.1 h
    exact ⟨part', rfl⟩
  · cases h

/-- What is read from the opening brace of a block to its closing brace. -/
lemma exists_block {front back : List Char} {close : Nat}
    (h : Block.closingBraceIn? (utf8 (front ++ '{' :: back)) (byteLength front) = some close) :
    ∃ rest, slice? (front ++ '{' :: back) (byteLength front) (close + 1) = some ('{' :: rest) := by
  obtain ⟨hlt, hclose⟩ := Block.getElem?_of_closingBraceIn? (getElem?_utf8_openBrace front back) h
  have hstop := (isPlace_of_ascii (by decide) hclose).2
  obtain ⟨part, hpart⟩ := (isPlace_byteLength front ('{' :: back)).exists_slice? hstop (by omega)
  have htake := hpart
  rw [slice?, if_pos (by omega), dropBytes?_append, Option.bind_some] at htake
  obtain ⟨rest, rfl⟩ := exists_cons_of_takeBytes? htake (by omega)
  exact ⟨rest, hpart⟩

/-- The text of a block is read wherever an opening brace stands, and begins with it. -/
lemma textFrom_eq (front back : List Char) :
    textFrom (.ofText (front ++ '{' :: back)) (byteLength front)
      = some (Body.textFrom (.ofText (front ++ '{' :: back)) (byteLength front)) ∧
    ∃ rest, Body.textFrom (.ofText (front ++ '{' :: back)) (byteLength front) = '{' :: rest := by
  simp only [textFrom, Body.textFrom, Source.bytes_ofText, Source.text_ofText,
    Block.closingBraceFrom?_eq]
  cases hclose : Block.closingBraceIn? (utf8 (front ++ '{' :: back)) (byteLength front) with
  | some close =>
    obtain ⟨rest, hrest⟩ := exists_block hclose
    simp [hrest]
  | none => simp [dropBytes?_append]

/-- The body of a method is read wherever a match ends, and begins with its opening brace. -/
lemma bodyAfter_eq {offset : Nat} (h : IsPlace text offset) :
    bodyAfter (.ofText text) offset = some (Body.after? (.ofText text) offset) ∧
      ∀ body ∈ Body.after? (.ofText text) offset, ∃ rest, body = '{' :: rest := by
  obtain ⟨front, rest, rfl, rfl⟩ := h
  have hsplit : rest = rest.takeWhile isBlank ++ trimStart rest :=
    List.takeWhile_append_dropWhile.symm
  have hlength : byteLength rest
      = byteLength (rest.takeWhile isBlank) + byteLength (trimStart rest) := by
    rw [← byteLength_append, ← hsplit]
  have hsub : sub (byteLength rest) (byteLength (trimStart rest))
      = some (byteLength (rest.takeWhile isBlank)) := by
    rw [sub_eq (by omega), hlength, Nat.add_sub_cancel]
  have hdrop : dropBytes? (byteLength (rest.takeWhile isBlank)) rest = some (trimStart rest) := by
    have := dropBytes?_append (rest.takeWhile isBlank) (trimStart rest)
    rwa [← hsplit] at this
  simp only [bodyAfter, Body.after?, Source.text_ofText, dropBytes?_append, Option.bind_eq_bind,
    Option.bind_some, Option.getD_some, hsub, hdrop]
  cases hopen : trimStart rest with
  | nil => simp
  | cons c back =>
    by_cases hc : c = '{'
    · subst hc
      -- the block opens behind the blanks
      have htext : front ++ rest = front ++ rest.takeWhile isBlank ++ '{' :: back := by
        rw [List.append_assoc, ← hopen, ← hsplit]
      obtain ⟨hfrom, hhead⟩ := textFrom_eq (front ++ rest.takeWhile isBlank) back
      rw [← htext, byteLength_append] at hfrom hhead
      simp [hfrom, hhead]
    · simp [hc]

lemma calledNames_eq (text : List Char) : calledNames text = some (Survey.calledNames text) := by
  have hcalls : ∀ m ∈ Shape.call.findAll text, calledName m = some (calledName? m) := by
    intro m hm
    obtain ⟨place, -, hmatch⟩ := Pattern.matchAt?_of_mem_findAll hm
    have hname : groupText m 2 = some (m.groupText 2) := groupText_eq hmatch rfl
    simp only [calledName, calledName?, hname, Option.bind_eq_bind, Option.bind_some]
    cases (m.group? 1).isSome <;> rfl
  rw [calledNames, collect_eq hcalls, Option.map_some, Survey.calledNames]

lemma calls_eq {body : Option (List Char)} (h : ∀ text ∈ body, ∃ rest, text = '{' :: rest) :
    calls body = some (Body.calls body) := by
  cases body with
  | none => rfl
  | some text =>
    obtain ⟨rest, rfl⟩ := h text rfl
    have hdrop : dropBytes? 1 ('{' :: rest) = some rest := dropBytes?_append ['{'] rest
    rw [calls, hdrop, Option.bind_some, calledNames_eq]
    rfl

/-! ### Members are read -/

/-- A match starts and ends at places of the text. -/
lemma isPlace_of_matchAt? {p : Pattern} (htext : place.text = text)
    (h : p.matchAt? place = some m) : IsPlace text m.start ∧ IsPlace text m.stop := by
  obtain ⟨hstart, u, hpasses⟩ := Pattern.passes_of_matchAt? h
  have hplace : ∀ c : Cursor, c.text = text → IsPlace text c.offset := fun c hc =>
    ⟨c.before.reverse, c.after, hc.symm, by rw [byteLength_reverse, c.offset_eq]⟩
  exact ⟨hplace _ (hstart ▸ htext), hplace _ (hpasses.text_eq.trans htext)⟩

lemma method_eq (hplace : place.text = text) (h : Shape.method.matchAt? place = some m) :
    method (.ofText text) m = some (Method.ofMatch? (.ofText text) m) := by
  obtain ⟨hstart, hstop⟩ := isPlace_of_matchAt? hplace h
  obtain ⟨hbody, hbrace⟩ := bodyAfter_eq hstop
  have h₁ : groupText m 1 = some (m.groupText 1) := groupText_eq h rfl
  have h₂ : groupText m 2 = some (m.groupText 2) := groupText_eq h rfl
  have h₃ : groupText m 3 = some (m.groupText 3) := groupText_eq h rfl
  have h₄ : groupText m 4 = some (m.groupText 4) := groupText_eq h rfl
  simp only [method, h₁, h₂, h₃, h₄, namesAt_eq hstart, hbody, calls_eq hbrace,
    Option.bind_eq_bind, Option.bind_some, Method.ofMatch?]
  split <;> rfl

lemma methods_eq (text : List Char) :
    methods (.ofText text) = some (Method.parseAll (.ofText text)) := by
  refine collect_eq fun m hm => ?_
  obtain ⟨place, hplace, hmatch⟩ := Pattern.matchAt?_of_mem_findAll hm
  exact method_eq hplace hmatch

lemma field_eq (hplace : place.text = text) (h : Shape.field.matchAt? place = some m) :
    field (.ofText text) m = some (Field.ofMatch? (.ofText text) m) := by
  obtain ⟨hstart, -⟩ := isPlace_of_matchAt? hplace h
  have h₁ : groupText m 1 = some (m.groupText 1) := groupText_eq h rfl
  have h₂ : groupText m 2 = some (m.groupText 2) := groupText_eq h rfl
  have h₃ : groupText m 3 = some (m.groupText 3) := groupText_eq h rfl
  simp only [field, h₁, h₂, h₃, namesAt_eq hstart, Option.bind_eq_bind, Option.bind_some,
    Field.ofMatch?]
  split <;> rfl

lemma fields_eq (text : List Char) :
    fields (.ofText text) = some (Field.parseAll (.ofText text)) := by
  refine collect_eq fun m hm => ?_
  obtain ⟨place, hplace, hmatch⟩ := Pattern.matchAt?_of_mem_findAll hm
  exact field_eq hplace hmatch

/-! ### Units are read -/

lemma package_eq (text : List Char) : package text = some (parsePackage text) := by
  rw [package, parsePackage]
  cases hfind : Shape.packageClause.find? text with
  | none => rfl
  | some m =>
    obtain ⟨place, -, hmatch⟩ := Pattern.matchAt?_of_find? hfind
    have h₁ : groupText m 1 = some (m.groupText 1) := groupText_eq hmatch rfl
    simp only [h₁, Option.map_some]

lemma imports_eq (text : List Char) : imports text = some (parseImports text) := by
  refine mapM_eq_some fun m hm => ?_
  obtain ⟨place, -, hmatch⟩ := Pattern.matchAt?_of_mem_findAll hm
  rw [groupText_eq hmatch rfl, Option.map_some]

lemma declaration_eq {path : String} {kind : TypeKind} (hplace : place.text = text)
    (h : Shape.typeDeclaration.matchAt? place = some m) :
    declaration text path (parsePackage text) (parseImports text) kind m
      = some (TypeDeclaration.ofMatch text path kind m) := by
  obtain ⟨hstart, -⟩ := isPlace_of_matchAt? hplace h
  have h₁ : groupText m 1 = some (m.groupText 1) := groupText_eq h rfl
  have h₃ : groupText m 3 = some (m.groupText 3) := groupText_eq h rfl
  simp only [declaration, h₁, h₃, methods_eq, fields_eq, namesAt_eq hstart, Option.bind_eq_bind,
    Option.bind_some]
  rfl

/-- The checked reader answers what the reader answers. -/
lemma parse_eq (source path : String) :
    parse source path = some (TypeDeclaration.parse source path) := by
  simp only [parse, package_eq, imports_eq, Option.bind_eq_bind, Option.bind_some,
    TypeDeclaration.parse]
  cases hfind : Shape.typeDeclaration.find? source.toList with
  | none => rfl
  | some m =>
    obtain ⟨place, hplace, hmatch⟩ := Pattern.matchAt?_of_find? hfind
    have h₂ : groupText m 2 = some (m.groupText 2) := groupText_eq hmatch rfl
    simp only [h₂, Option.bind_some]
    cases TypeKind.ofKeyword? (String.ofList (m.groupText 2)) with
    | none => rfl
    | some kind => simp only [declaration_eq hplace hmatch, Option.bind_some, Option.pure_def]

/-! ### All accesses -/

/-- The whole reader with its accesses checked, and what each kind of access relies on. -/
structure AccessesValid (source path : String) : Prop where
  /-- The reader with its accesses checked never stops at one. -/
  parse_eq : parse source path = some (TypeDeclaration.parse source path)
  /-- Every offset has a line, counted from one. -/
  one_le_lineOf : ∀ offset, 1 ≤ (LineIndex.ofText source.toList).lineOf offset
  /-- The start of the line is listed, and it is a place that is not above the offset. -/
  lineStart_eq : ∀ offset,
    lineStart (.ofText source.toList) offset
      = some ((LineIndex.ofText source.toList).lineStart offset) ∧
    (LineIndex.ofText source.toList).lineStart offset ≤ offset ∧
    IsPlace source.toList ((LineIndex.ofText source.toList).lineStart offset)
  /-- What stands in front of a place on its line is a slice. -/
  lineText : ∀ offset, IsPlace source.toList offset → ∃ part,
    slice? source.toList ((LineIndex.ofText source.toList).lineStart offset) offset = some part
  /-- What stands behind the last statement boundary of any text is a slice. -/
  afterLastBoundary_eq : ∀ part,
    afterLastBoundary part = some (Annotations.afterLastBoundary part)
  /-- The body behind a place is a slice, and so is what follows its opening brace. -/
  body_eq : ∀ offset, IsPlace source.toList offset →
    bodyAfter (.ofText source.toList) offset = some (Body.after? (.ofText source.toList) offset) ∧
    ∀ body ∈ Body.after? (.ofText source.toList) offset, ∃ rest, dropBytes? 1 body = some rest
  /-- The search for a closing brace is the one that looks at every index before it uses it. -/
  search_eq : ∀ start, Block.closingBraceFrom? (utf8 source.toList) 0 start
    = Block.closingBraceIn? (utf8 source.toList) start
  /-- What it finds is a closing brace behind the opening one, and the block is a slice. -/
  block : ∀ start close, (utf8 source.toList)[start]? = some Block.openBrace →
    Block.closingBraceIn? (utf8 source.toList) start = some close →
    start < close ∧ close < (utf8 source.toList).length ∧
      (utf8 source.toList)[close]? = some Block.closeBrace ∧
      ∃ part, slice? source.toList start (close + 1) = some part

/-- **Reading a unit goes wrong nowhere.**  For every source and every path, all the line numbers,
indices, slices and groups that the reader uses are there. -/
theorem accessesValid (source path : String) : AccessesValid source path := by
  constructor
  case parse_eq => exact Checked.parse_eq source path
  case one_le_lineOf =>
    intro offset
    obtain ⟨line, -, hline, -⟩ := LineIndex.exists_start source.toList offset
    omega
  case lineStart_eq => exact Checked.lineStart_eq source.toList
  case lineText =>
    intro offset hplace
    obtain ⟨-, hle, hstart⟩ := Checked.lineStart_eq source.toList offset
    exact hstart.exists_slice? hplace hle
  case afterLastBoundary_eq => exact Checked.afterLastBoundary_eq
  case body_eq =>
    intro offset hplace
    obtain ⟨hbody, hbrace⟩ := bodyAfter_eq hplace
    refine ⟨hbody, fun body hmem => ?_⟩
    obtain ⟨rest, rfl⟩ := hbrace body hmem
    exact ⟨rest, dropBytes?_append ['{'] rest⟩
  case search_eq => exact Block.closingBraceFrom?_eq _
  case block =>
    intro start close hopen hclose
    obtain ⟨hlt, hbrace⟩ := Block.getElem?_of_closingBraceIn? hopen hclose
    obtain ⟨hlength, -⟩ := List.getElem?_eq_some_iff.1 hbrace
    have hstart := (isPlace_of_ascii (by decide) hopen).1
    have hstop := (isPlace_of_ascii (by decide) hbrace).2
    exact ⟨hlt, hlength, hbrace, hstart.exists_slice? hstop (by omega)⟩

end Checked

end Survey
