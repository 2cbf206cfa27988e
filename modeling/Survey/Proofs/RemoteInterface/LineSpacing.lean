/-
# Lines in different spacing

A blank added to a line of an interface document, at a place where no two characters of types meet,
changes nothing that is read of the line except the spacing of the texts that are kept as written:
parameter lists, types and inherited names.
-/
import Survey.Proofs.Pattern.Seam
import Survey.Proofs.RemoteInterface.Shapes

namespace Survey

open Survey.Text Survey.Pattern Survey.Pattern.Seam Survey.RemoteDocument

namespace RemoteShape

variable {g : Seam isTypeChar} {P : Prop}

/-! ### The shapes of lines -/

lemma preserves_name : g.Preserves g.EndsWord g.EndsWord Pattern.name :=
  preserves_all (fun _ => isTypeChar_of_isWordChar) 1

lemma demands_name : Demands isTypeChar Pattern.name :=
  demands_all (fun _ => isTypeChar_of_isWordChar) 0

lemma preserves_typeWord : g.Preserves g.EndsWord g.EndsWord (all isTypeChar 1) :=
  preserves_all (fun _ h => h) 1

lemma demands_typeWord : Demands isTypeChar (all isTypeChar 1) := demands_all (fun _ h => h) 0

lemma preserves_keyword (text : String) (htext : text.toList.all isTypeChar = true) :
    g.Preserves g.EndsWord g.EndsWord (lit text) :=
  preserves_lit (List.all_eq_true.1 htext)

lemma preservesAhead_keyword_blanks (text : String) (htext : text.toList.all isTypeChar = true) :
    g.PreservesAhead g.EndsWord g.EndsWord (lit text ++ blanks) :=
  ((preserves_keyword text htext).append_ahead preservesAhead_blanks).weaken id False.elim

/-- Blanks and a name that is remembered. -/
lemma preserves_blanks_name (n : Nat) :
    g.Preserves g.EndsWord g.EndsWord (blanks ++ group n Pattern.name) :=
  preserves_blanks_append (demands_name.group n) (preserves_name.group n)

lemma preserves_moduleLine : g.Preserves False g.EndsWord moduleLine :=
  have hkeyword := (preserves_keyword "module" (by decide)).append (preserves_blanks_name 1)
  (preserves_textStart.append (hkeyword.weaken False.elim id)).congr ways_moduleLine

/-- A line that opens an interface, up to the name. -/
def interfaceHead : Pattern :=
  textStart ++ (interfaceModifiers ++ (lit "interface" ++ (blanks ++ group 1 Pattern.name)))

lemma ways_interfaceLine_eq (s : Progress) :
    interfaceLine.ways s = (interfaceHead ++ inheritance).ways s := by
  rw [ways_interfaceLine, interfaceHead]
  simp only [ways_append, List.flatMap_assoc]

lemma preserves_interfaceHead : g.Preserves False g.EndsWord interfaceHead := by
  have hmodifiers : g.PreservesAhead g.EndsWord g.EndsWord interfaceModifiers :=
    ((preservesAhead_keyword_blanks "abstract" (by decide)).either
      (preservesAhead_keyword_blanks "local" (by decide))).optional id id
  have hkeyword := (preserves_keyword "interface" (by decide)).append
    (preserves_blanks_name (g := g) 1)
  have hdemands : Demands isTypeChar (lit "interface") := demands_lit rfl (by decide)
  exact preserves_textStart.append
    ((hmodifiers.append (hdemands.append _) hkeyword).weaken False.elim id)

lemma ways_operationLine (s : Progress) :
    operationLine.ways s =
      (group 1 (all isTypeChar 1) ++ (blanks ++ (group 2 Pattern.name ++ (anyBlanks ++ (lit "(" ++
        (group 3 (allBefore ')' 0) ++ lit ")")))))).ways s := by
  rw [operationLine]
  simp only [ways_append_assoc]

lemma preserves_operationLine : g.Preserves False True operationLine := by
  have hparameters : g.Preserves True True (group 3 (allBefore ')' 0) ++ lit ")") :=
    ((preserves_all_zero (by decide)).group 3).append (preserves_mark rfl)
  have hlist : g.Preserves True True
      (anyBlanks ++ (lit "(" ++ (group 3 (allBefore ')' 0) ++ lit ")"))) :=
    (preserves_all_zero (by decide)).append ((preserves_mark rfl).append hparameters)
  have hname : g.Preserves g.EndsWord True (group 2 Pattern.name ++
      (anyBlanks ++ (lit "(" ++ (group 3 (allBefore ')' 0) ++ lit ")")))) :=
    (preserves_name.group 2).append (hlist.weaken (fun _ => trivial) id)
  have htype := (preserves_typeWord.group 1).append
    (preserves_blanks_append ((demands_name.group 2).append _) hname)
  exact (htype.weaken False.elim id).congr ways_operationLine

lemma demands_operationLine : Demands isTypeChar operationLine :=
  ((demands_typeWord.group 1).append _).congr ways_operationLine

lemma preserves_attributeEnd : g.Preserves g.EndsWord True attributeEnd := by
  have hend : g.Preserves False True memberEnd :=
    (preserves_mark rfl).either (preserves_textEnd.weaken False.elim id)
  have hname : g.Preserves g.EndsWord True (group 3 Pattern.name ++ (anyBlanks ++ memberEnd)) :=
    (preserves_name.group 3).append
      (((preserves_all_zero (by decide)).append hend).weaken (fun _ => trivial) id)
  exact preserves_blanks_append ((demands_name.group 3).append _) hname

lemma preserves_attributeType : g.Preserves g.EndsWord g.EndsWord attributeType := by
  have hmore : g.Preserves g.EndsWord g.EndsWord (blanks ++ all isTypeChar 1) :=
    preserves_blanks_append demands_typeWord preserves_typeWord
  exact (preserves_typeWord.append (hmore.rounds (by decide))).group 2

/-- An attribute from its keyword on. -/
def attributeBody : Pattern := lit "attribute" ++ (blanks ++ (attributeType ++ attributeEnd))

lemma demands_attributeBody : Demands isTypeChar attributeBody :=
  (demands_lit rfl (by decide)).append _

lemma demands_attribute : Demands isTypeChar (attributeModifier ++ attributeBody) := by
  have hreadonly : Demands isTypeChar (lit "readonly") := demands_lit rfl (by decide)
  exact ((hreadonly.append _).group 1).optional_append demands_attributeBody

lemma demands_attributeLine : Demands isTypeChar attributeLine :=
  demands_attribute.wordBoundary_append.congr ways_attributeLine

lemma preserves_attributeLine : g.Preserves False True attributeLine := by
  have htype : g.Preserves g.EndsWord True (blanks ++ (attributeType ++ attributeEnd)) :=
    preserves_blanks_append (((demands_typeWord.append _).group 2).append _)
      (preserves_attributeType.append preserves_attributeEnd)
  have hbody : g.Preserves g.EndsWord True attributeBody :=
    (preserves_keyword "attribute" (by decide)).append htype
  have hmodifier : g.PreservesAhead g.EndsWord g.EndsWord attributeModifier :=
    ((preservesAhead_keyword_blanks "readonly" (by decide)).group 1).optional id id
  have hattribute := hmodifier.append demands_attributeBody hbody
  exact ((preservesAhead_wordBoundary fun _ => isTypeChar_of_isWordChar).append demands_attribute
    (hattribute.weaken False.elim id)).congr ways_attributeLine

/-! ### Inherited interfaces -/

/-- The names in the list of inherited interfaces that a text begins with; none when it begins
with no such list. -/
def inheritedIn (text : List Char) : List (List Char) :=
  let rest := text.dropWhile isBlank
  if rest.head? = some ':' then splitCommas (rest.tail.takeWhile isInheritanceChar) else []

lemma inheritedIn_append {w text : List Char} (hw : ∀ c ∈ w, isBlank c = true) :
    inheritedIn (w ++ text) = inheritedIn text := by
  rw [inheritedIn, List.dropWhile_append_of_pos hw, inheritedIn]

lemma inheritedIn_colon (rest : List Char) :
    inheritedIn (':' :: rest) = splitCommas (rest.takeWhile isInheritanceChar) := by
  rw [inheritedIn, List.dropWhile_cons_of_neg (by decide)]
  rfl

lemma inheritedIn_of_ne {text : List Char} (hhead : ∀ c ∈ text.head?, isBlank c = false ∧ c ≠ ':') :
    inheritedIn text = [] := by
  cases text with
  | nil => rfl
  | cons c rest =>
    obtain ⟨hc, hcolon⟩ := hhead c rfl
    rw [inheritedIn, List.dropWhile_cons_of_neg (by simp [hc])]
    simp [hcolon]

/-- A list of inherited interfaces. -/
def baseList : Pattern :=
  anyBlanks ++ lit ":" ++ run Text.isBlank 0 ++ group 2 (all isInheritanceChar 1)

lemma inheritedIn_of_mem_ways {s t : Progress} (h : t ∈ baseList.ways s) :
    t.groups.lookup 1 = s.groups.lookup 1 ∧
      splitCommas (Match.groupText ⟨⟨s.place, t.place⟩, t.groups⟩ 2) = inheritedIn s.place.after := by
  obtain ⟨s₃, h₃, ht⟩ := mem_ways_seq.1 h
  obtain ⟨s₂, h₂, h₃⟩ := mem_ways_seq.1 h₃
  obtain ⟨s₁, h₁, h₂⟩ := mem_ways_seq.1 h₂
  obtain ⟨r, hr, rfl⟩ := mem_ways_group.1 ht
  obtain ⟨w, hw, hblank, -, hstop, hgroups₁⟩ := mem_ways_all.1 h₁
  obtain ⟨hcolon, hgroups₂⟩ := mem_ways_word.1 h₂
  obtain ⟨w', hw', hblank', -, hgroups₃⟩ := mem_ways_run.1 h₃
  obtain ⟨u, hu, hlist, -, hend, hgroups₄⟩ := mem_ways_all.1 hr
  have hafter : s.place.after = w ++ ':' :: (w' ++ (u ++ r.place.after)) := by
    rw [hw.after_eq, hcolon.after_eq, hw'.after_eq, hu.after_eq]
    rfl
  have hcls : ∀ c ∈ w' ++ u, isInheritanceChar c = true :=
    List.forall_mem_append.2 ⟨fun c hc => by simp [isInheritanceChar, hblank' c hc], hlist⟩
  -- the list stops where its characters stop, so what the pattern takes is what `takeWhile` takes
  have htake : (w' ++ (u ++ r.place.after)).takeWhile isInheritanceChar = w' ++ u := by
    rw [← List.append_assoc]
    exact (Cursor.takeWhile_append_stop hcls hend).1
  refine ⟨by rw [← hgroups₁, ← hgroups₂, ← hgroups₃, ← hgroups₄]; rfl, ?_⟩
  rw [hafter, inheritedIn_append hblank, inheritedIn_colon, htake,
    splitCommas_append_of_blank_left hblank']
  exact congrArg splitCommas (Span.text_of_passes hu)

/-- Without a list of inherited interfaces nothing is inherited. -/
lemma inheritedIn_of_ways_eq_nil {s : Progress} (h : baseList.ways s = []) :
    inheritedIn s.place.after = [] := by
  obtain ⟨place, groups⟩ := s
  rw [place.eq_between] at h
  generalize place.before.reverse = front at h
  change inheritedIn place.after = []
  generalize place.after = after at h ⊢
  obtain ⟨w, rest, rfl, hw, hstop⟩ := Cursor.exists_stop isBlank after
  rw [inheritedIn_append hw]
  by_cases hcolon : rest.head? = some ':'
  · obtain ⟨rest, rfl⟩ := List.head?_eq_some_iff.1 hcolon
    obtain ⟨u, rest, rfl, hu, hend⟩ := Cursor.exists_stop isInheritanceChar rest
    rw [inheritedIn_colon, (Cursor.takeWhile_append_stop hu hend).1]
    cases u with
    | nil => rfl
    | cons c u =>
      -- the blanks may be left to the list, and then it is there
      have htakes : (anyBlanks ++ lit ":").Takes (w ++ [':']) (c :: u ++ rest) :=
        (takes_all hw (Nat.zero_le _) (head?_not_mem (c := ':') rfl (by decide))).append
          (takes_lit ":" _)
      have hlist : (all isInheritanceChar 1).Takes (c :: u) rest := takes_all hu (by simp) hend
      have hways := htakes.ways_append (run Text.isBlank 0 ++ group 2 (all isInheritanceChar 1))
        front groups
      rw [← ways_append_assoc, List.append_assoc] at hways
      have hnone := ways_append_eq_nil_iff.1 (hways.symm.trans h) _
        (mem_ways_run.2 ⟨[], Cursor.passes_nil _, by simp, Nat.zero_le _, rfl⟩)
      rw [hlist.ways_group] at hnone
      exact absurd hnone (List.cons_ne_nil _ _)
  · exact inheritedIn_of_ne fun c hc => ⟨hstop c hc, fun h => hcolon (h ▸ hc)⟩

/-- The names of the inherited interfaces are read from the text behind the name. -/
lemma inheritedIn_of_first {s t : Progress} (hgroups : s.groups.lookup 2 = none)
    (h : inheritance.First s t) :
    t.groups.lookup 1 = s.groups.lookup 1 ∧
      splitCommas (Match.groupText ⟨⟨s.place, t.place⟩, t.groups⟩ 2) = inheritedIn s.place.after := by
  have hways : inheritance.ways s = baseList.ways s ++ [s] := rfl
  rw [First, hways] at h
  cases hbase : baseList.ways s with
  | nil =>
    rw [hbase] at h
    obtain rfl : s = t := by simpa using h
    refine ⟨rfl, ?_⟩
    rw [inheritedIn_of_ways_eq_nil hbase, Match.groupText, Match.group?, hgroups]
    rfl
  | cons r more =>
    rw [hbase] at h
    obtain rfl : r = t := by simpa using h
    exact inheritedIn_of_mem_ways (by simp [hbase])

lemma inheritedIn_spaced {c d : Cursor} (h : g.Beside P c d) :
    (inheritedIn c.after).map (closeUp isTypeChar) =
      (inheritedIn d.after).map (closeUp isTypeChar) := by
  cases h with
  | @before u v hfront =>
    obtain ⟨w, rest, rfl, hw, hstop⟩ := Cursor.exists_stop isBlank v
    simp only [Cursor.after_between, List.append_assoc]
    rw [inheritedIn_append hw, inheritedIn_append hw]
    cases rest with
    | nil =>
      -- only blanks stand between the cursor and the seam: the space is one more of them
      have hspace : inheritedIn ([' '] ++ g.back) = inheritedIn g.back :=
        inheritedIn_append (List.forall_mem_singleton.2 rfl)
      exact congrArg _ hspace.symm
    | cons b rest =>
      have hb : isBlank b = false := hstop b rfl
      rw [List.cons_append, List.cons_append]
      by_cases hcolon : b = ':'
      · subst hcolon
        rw [inheritedIn_colon, inheritedIn_colon]
        refine Respaced.map_closeUp_splitCommas ?_
        obtain ⟨x, y, rfl, hx, hend⟩ := Cursor.exists_stop isInheritanceChar rest
        cases y with
        | nil =>
          -- the list runs across the seam and has the space in it
          have hspace : (' ' :: g.back).takeWhile isInheritanceChar =
              ' ' :: g.back.takeWhile isInheritanceChar := List.takeWhile_cons_of_pos (by decide)
          have hlist := List.takeWhile_prefix isInheritanceChar (l := g.back)
          rw [List.append_nil, List.takeWhile_append_of_pos hx, List.takeWhile_append_of_pos hx,
            hspace]
          exact .parted (g.apart.of_parts ⟨u ++ (w ++ [':']), by simp [hfront]⟩ hlist)
        | cons d y =>
          -- the list ends before the seam
          have hstop (text : List Char) : ∀ c ∈ (d :: y ++ text).head?, isInheritanceChar c = false :=
            head?_not_mem (c := d) rfl (hend d rfl)
          rw [List.append_assoc, List.append_assoc, (Cursor.takeWhile_append_stop hx (hstop _)).1,
            (Cursor.takeWhile_append_stop hx (hstop _)).1]
          exact .same x
      · have hne (text : List Char) : inheritedIn (b :: text) = [] :=
          inheritedIn_of_ne (by simp [hb, hcolon])
        rw [hne, hne]
  | behind => rfl

/-- Two matches name the same interface and the same inherited ones, up to their spacing. -/
def NamesAlike (m m' : Match) : Prop :=
  m.groupText 1 = m'.groupText 1 ∧
    (splitCommas (m.groupText 2)).map (closeUp isTypeChar) =
      (splitCommas (m'.groupText 2)).map (closeUp isTypeChar)

lemma lookup_of_mem_interfaceHead {place : Cursor} {t : Progress}
    (h : t ∈ interfaceHead.ways ⟨place, []⟩) : t.groups.lookup 2 = none :=
  lookup_groups_of_mem_ways h rfl

lemma matchAt?_interfaceLine (place : Cursor) {l : List Progress} {t : Progress}
    (h : interfaceHead.ways ⟨place, []⟩ = t :: l) :
    ∃ m, interfaceLine.matchAt? place = some m ∧
      m.groupText 1 = (Match.mk ⟨place, t.place⟩ t.groups).groupText 1 ∧
      splitCommas (m.groupText 2) = inheritedIn t.place.after := by
  obtain ⟨r, hfirst⟩ : ∃ r, inheritance.First t r := by
    have hways : inheritance.ways t = baseList.ways t ++ [t] := rfl
    simp only [First, hways]
    cases baseList.ways t with
    | nil => exact ⟨t, rfl⟩
    | cons r more => exact ⟨r, rfl⟩
  have hhead : interfaceHead.First ⟨place, []⟩ t := by rw [First, h]; rfl
  have hline : interfaceLine.First ⟨place, []⟩ r := by
    rw [First, ways_interfaceLine_eq]
    exact hhead.append hfirst
  have hlookup := lookup_of_mem_interfaceHead (by rw [h]; exact List.mem_cons_self)
  obtain ⟨hname, hbases⟩ := inheritedIn_of_first hlookup hfirst
  refine ⟨_, matchAt?_of_first hline, ?_, hbases⟩
  rw [Match.groupText, Match.groupText, Match.group?, Match.group?]
  simp only [hname]

lemma rel_find?_interfaceLine (g : Seam isTypeChar) :
    Option.Rel NamesAlike (interfaceLine.find? g.closed) (interfaceLine.find? g.spaced) := by
  refine rel_find?_of_onlyAtStart onlyAtStart_interfaceLine fun c d h => ?_
  have hways := preserves_interfaceHead ⟨c, []⟩ ⟨d, []⟩ ⟨h, .nil⟩
  cases hc : interfaceHead.ways ⟨c, []⟩ with
  | nil =>
    rw [hc, List.forall₂_nil_left_iff] at hways
    have hnone {place : Cursor} (hplace : interfaceHead.ways ⟨place, []⟩ = []) :
        interfaceLine.matchAt? place = none :=
      matchAt?_of_ways_eq_nil ((ways_interfaceLine_eq _).trans (ways_append_of_nil hplace))
    rw [hnone hc, hnone hways]
    exact .none
  | cons t l =>
    rw [hc, List.forall₂_cons_left_iff] at hways
    obtain ⟨t', l', htracks, -, hd⟩ := hways
    obtain ⟨m, hm, hname, hbases⟩ := matchAt?_interfaceLine c hc
    obtain ⟨m', hm', hname', hbases'⟩ := matchAt?_interfaceLine d hd
    have hfirst : interfaceHead.First ⟨d, []⟩ t' := by rw [First, hd]; rfl
    -- up to the name the two matches run in parallel; the list behind it is read off the text
    have halike : Alike isTypeChar interfaceHead (Match.mk ⟨c, t.place⟩ t.groups)
        ⟨⟨d, t'.place⟩, t'.groups⟩ := ⟨htracks.groups, d, matchAt?_of_first hfirst⟩
    rw [hm, hm']
    refine .some ⟨?_, ?_⟩
    · rw [hname, hname']
      exact halike.groupText_eq rfl (by decide)
    · rw [hbases, hbases']
      exact inheritedIn_spaced htracks.place

end RemoteShape

/-! ### What a line declares, up to spacing -/

/-- A text of a document without the blanks that separate no words. -/
def closeUpText (text : String) : String :=
  String.ofList (closeUp RemoteShape.isTypeChar text.toList)

/-- An operation whose parameter list is closed up. -/
def RemoteOperation.closedUp (o : RemoteOperation) : RemoteOperation :=
  { o with rawParameterList := closeUpText o.rawParameterList }

/-- An attribute whose type is closed up. -/
def RemoteAttribute.closedUp (a : RemoteAttribute) : RemoteAttribute :=
  { a with type := closeUpText a.type }

namespace RemoteInterface

/-- An interface whose texts that are kept as written are closed up: parameter lists, types of
attributes and inherited names. -/
def closedUp (i : RemoteInterface) : RemoteInterface :=
  { i with
    operations := i.operations.map RemoteOperation.closedUp
    attributes := i.attributes.map RemoteAttribute.closedUp
    inheritedNames := i.inheritedNames.map closeUpText }

/-- Two lines that read the same up to spacing. -/
structure LinesAlike (line line' : List Char) : Prop where
  head : line.head? = line'.head?
  last : line.getLast? = line'.getLast?
  count : ∀ c, c ≠ ' ' → line.count c = line'.count c
  keyword : contains "attribute".toList line = contains "attribute".toList line'
  module : (RemoteShape.moduleLine.find? line).map (·.groupText 1) =
    (RemoteShape.moduleLine.find? line').map (·.groupText 1)
  names : Option.Rel RemoteShape.NamesAlike (RemoteShape.interfaceLine.find? line)
    (RemoteShape.interfaceLine.find? line')
  operation : (operation? line).map RemoteOperation.closedUp =
    (operation? line').map RemoteOperation.closedUp
  «attribute» : (attribute? line).map RemoteAttribute.closedUp =
    (attribute? line').map RemoteAttribute.closedUp

variable (g : Seam RemoteShape.isTypeChar)

lemma map_groupText_moduleLine :
    (RemoteShape.moduleLine.find? g.closed).map (·.groupText 1) =
      (RemoteShape.moduleLine.find? g.spaced).map (·.groupText 1) :=
  map_eq_of_rel (rel_find?_of_onlyAtStart onlyAtStart_moduleLine fun _ _ =>
    RemoteShape.preserves_moduleLine.matchAt?) fun _ _ h => h.groupText_eq rfl (by decide)

lemma map_closedUp_operation? :
    (operation? g.closed).map RemoteOperation.closedUp =
      (operation? g.spaced).map RemoteOperation.closedUp := by
  rw [operation?, operation?, Option.map_map, Option.map_map]
  refine map_eq_of_rel (rel_find? RemoteShape.demands_operationLine fun _ _ =>
    RemoteShape.preserves_operationLine.matchAt?) fun m m' h => ?_
  have htype : m.groupText 1 = m'.groupText 1 := h.groupText_eq rfl (by decide)
  have hname : m.groupText 2 = m'.groupText 2 := h.groupText_eq rfl (by decide)
  have hparameters := (h.groupText 3).closeUp_eq
  simp [RemoteOperation.closedUp, closeUpText, htype, hname, hparameters]

lemma map_closedUp_attribute? :
    (attribute? g.closed).map RemoteAttribute.closedUp =
      (attribute? g.spaced).map RemoteAttribute.closedUp := by
  rw [attribute?, attribute?, Option.map_map, Option.map_map]
  refine map_eq_of_rel (rel_find? RemoteShape.demands_attributeLine fun _ _ =>
    RemoteShape.preserves_attributeLine.matchAt?) fun m m' h => ?_
  have hreadonly : (m.group? 1).isSome = (m'.group? 1).isSome := h.isSome_group? 1
  have htype := (h.groupText 2).closeUp_eq
  have hname : m.groupText 3 = m'.groupText 3 := h.groupText_eq rfl (by decide)
  simp [RemoteAttribute.closedUp, closeUpText, hreadonly, htype, hname]

lemma contains_spaced {word : List Char} (hword : ∀ c ∈ word, RemoteShape.isTypeChar c = true) :
    contains word g.closed = contains word g.spaced := by
  rw [Bool.eq_iff_iff, contains_iff, contains_iff]
  exact (g.apart.infix_space_iff g.token_space hword).symm

/-- **An added blank changes only the spacing of a line.** -/
theorem linesAlike_spaced : LinesAlike g.closed g.spaced where
  head := by
    rw [Seam.closed, Seam.spaced, List.head?_append_of_ne_nil _ g.front_ne_nil,
      List.head?_append_of_ne_nil _ g.front_ne_nil]
  last := by
    rw [Seam.closed, Seam.spaced, List.getLast?_append_of_ne_nil _ g.back_ne_nil,
      List.getLast?_append_of_ne_nil _ (List.cons_ne_nil _ _), ← List.singleton_append,
      List.getLast?_append_of_ne_nil _ g.back_ne_nil]
  count c hc := by simp [Seam.closed, Seam.spaced, hc.symm]
  keyword := contains_spaced g (List.all_eq_true.1 (by decide))
  module := map_groupText_moduleLine g
  names := RemoteShape.rel_find?_interfaceLine g
  operation := map_closedUp_operation? g
  «attribute» := map_closedUp_attribute? g

end RemoteInterface

end Survey
