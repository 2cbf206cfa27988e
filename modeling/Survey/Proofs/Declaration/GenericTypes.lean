/-
# Nested type arguments

A type may have types for arguments, to any depth.  The shapes of members and of extended types read
type arguments up to the first closing bracket.  That is the right one as long as no argument has
arguments of its own, so a type that is flat in this sense is read like a simple type.  In any other
type the first closing bracket belongs to an argument, and a comma or another closing bracket stands
behind it.

For members it follows that a type that is not flat leads to no head (`HeadShape.barren_nested`).
-/
import Survey.Proofs.Declaration.Members

namespace Survey

open Survey.Text Survey.Pattern

namespace Canonical

/-- An identifier with any number of types for its arguments. -/
inductive GenericType where
  | node (head : Identifier) (arguments : List GenericType)

namespace GenericType

/-- The identifier that a type starts with. -/
def head : GenericType → Identifier
  | node head _ => head

/-- The arguments of a type. -/
def arguments : GenericType → List GenericType
  | node _ arguments => arguments

/-- A type without arguments. -/
def IsPlain (type : GenericType) : Prop := type.arguments = []

/-- A type whose arguments have none themselves. -/
def IsFlat (type : GenericType) : Prop := ∀ argument ∈ type.arguments, argument.IsPlain

/-- Arguments as they are printed: in brackets, unless there are none. -/
def inBrackets : List (List Char) → List Char
  | [] => []
  | first :: more => '<' :: (commaList (first :: more) ++ ['>'])

mutual

/-- A type as it is printed. -/
def print : GenericType → List Char
  | node head arguments => head.text ++ inBrackets (printEach arguments)

/-- Types as they are printed. -/
def printEach : List GenericType → List (List Char)
  | [] => []
  | type :: rest => type.print :: printEach rest

end

/-- What stands behind the identifier of a type. -/
def brackets (type : GenericType) : List Char := inBrackets (type.arguments.map print)

lemma printEach_eq (types : List GenericType) : printEach types = types.map print := by
  induction types with
  | nil => rfl
  | cons type rest ih => rw [printEach, ih, List.map_cons]

lemma print_eq (type : GenericType) : type.print = type.head.text ++ type.brackets := by
  obtain ⟨head, arguments⟩ := type
  rw [print, printEach_eq]
  rfl

lemma inBrackets_of_ne_nil {texts : List (List Char)} (h : texts ≠ []) :
    inBrackets texts = '<' :: (commaList texts ++ ['>']) := by
  obtain ⟨first, more, rfl⟩ := List.exists_cons_of_ne_nil h
  rfl

lemma brackets_of_plain {type : GenericType} (h : type.IsPlain) : type.brackets = [] := by
  rw [brackets, h]
  rfl

lemma brackets_of_not_plain {type : GenericType} (h : ¬ type.IsPlain) :
    type.brackets = '<' :: (commaList (type.arguments.map print) ++ ['>']) :=
  inBrackets_of_ne_nil fun hnil => h (List.map_eq_nil_iff.1 hnil)

/-- What holds of a type whenever it holds of its arguments holds of every type. -/
@[elab_as_elim]
lemma induction_on {P : GenericType → Prop} (type : GenericType)
    (node : ∀ type : GenericType, (∀ argument ∈ type.arguments, P argument) → P type) : P type :=
  @GenericType.rec P (fun types => ∀ argument ∈ types, P argument)
    (fun head arguments ih => node ⟨head, arguments⟩ ih) (by simp)
    (fun _ _ hfirst hrest => List.forall_mem_cons.2 ⟨hfirst, hrest⟩) type

lemma IsPlain.isFlat {type : GenericType} (h : type.IsPlain) : type.IsFlat := by
  intro argument hargument
  rw [h] at hargument
  simp at hargument

lemma bracket_notMem_head (type : GenericType) : '<' ∉ type.head.text ∧ '>' ∉ type.head.text :=
  ⟨fun hmem => absurd (type.head.all_identifierChar _ hmem) (by decide),
    fun hmem => absurd (type.head.all_identifierChar _ hmem) (by decide)⟩

/-- A type has no bracket, or it ends with one. -/
lemma print_cases (type : GenericType) :
    type.IsPlain ∧ '<' ∉ type.print ∧ '>' ∉ type.print ∨
      ¬ type.IsPlain ∧ ∃ u, type.print = u ++ ['>'] := by
  by_cases hplain : type.IsPlain
  · left
    rw [print_eq, brackets_of_plain hplain, List.append_nil]
    exact ⟨hplain, type.bracket_notMem_head⟩
  · right
    refine ⟨hplain, type.head.text ++ '<' :: commaList (type.arguments.map print), ?_⟩
    rw [print_eq, brackets_of_not_plain hplain]
    simp

/-- A flat type is a simple one. -/
lemma exists_simpleType {type : GenericType} (h : type.IsFlat) :
    ∃ simple : SimpleType, simple.print = type.print := by
  obtain ⟨head, arguments⟩ := type
  cases arguments with
  | nil => exact ⟨.plain head, (print_eq (node head [])).symm⟩
  | cons first more =>
    refine ⟨.generic head first.head (more.map GenericType.head), ?_⟩
    have hprint : ∀ argument ∈ first :: more, argument.print = argument.head.text := by
      intro argument hmem
      rw [print_eq, brackets_of_plain (h argument hmem), List.append_nil]
    have htexts : (first :: more).map print =
        (first.head :: more.map GenericType.head).map (·.text) := by
      rw [List.map_congr_left hprint, List.map_cons, List.map_cons, List.map_map]
      rfl
    rw [print_eq, brackets_of_not_plain (by simp [IsPlain, arguments]), arguments, htexts]
    rfl

lemma madeOf_print (type : GenericType) : MadeOf typeMarks type.print := by
  induction type using GenericType.induction_on with
  | node type ih =>
    rw [print_eq]
    refine type.head.plainWord.madeOf.append ?_
    by_cases hplain : type.IsPlain
    · rw [brackets_of_plain hplain]
      exact List.forall_mem_nil _
    · have hopen : MadeOf typeMarks ['<'] := by decide
      have hclose : MadeOf typeMarks ['>'] := by decide
      have harguments : MadeOf typeMarks (commaList (type.arguments.map print)) := by
        refine madeOf_commaList (fun text hmem => ?_) (by decide)
        obtain ⟨argument, hargument, rfl⟩ := List.mem_map.1 hmem
        exact ih argument hargument
      rw [brackets_of_not_plain hplain]
      exact hopen.append (harguments.append hclose)

/-! ### The first closing bracket -/

/-- Behind the first closing bracket of a text a given rest stands. -/
def ClosesBefore (u rest : List Char) : Prop := ∃ v, u = v ++ '>' :: rest ∧ '>' ∉ v

/-- The end of an item in a list of arguments: nothing, a comma, or a closing bracket. -/
def EndsItem (rest : List Char) : Prop := ∀ c ∈ rest.head?, c = ',' ∨ c = '>'

lemma EndsItem.append {rest back : List Char} (h : EndsItem rest) (hback : EndsItem back) :
    EndsItem (rest ++ back) := by
  cases rest with
  | nil => exact hback
  | cons c rest => exact h

lemma ClosesBefore.append {u rest : List Char} (h : ClosesBefore u rest) (back : List Char) :
    ClosesBefore (u ++ back) (rest ++ back) := by
  obtain ⟨v, rfl, hv⟩ := h
  exact ⟨v, by rw [List.append_assoc, List.cons_append], hv⟩

lemma ClosesBefore.append_left {u rest front : List Char} (h : ClosesBefore u rest)
    (hfront : '>' ∉ front) : ClosesBefore (front ++ u) rest := by
  obtain ⟨v, rfl, hv⟩ := h
  exact ⟨front ++ v, by rw [List.append_assoc], by simp [hfront, hv]⟩

/-- In a list of texts the first closing bracket is the one of the first text that has one. -/
lemma closesBefore_commaList {texts : List (List Char)}
    (htexts : ∀ text ∈ texts, '>' ∉ text ∨ ∃ rest, ClosesBefore text rest ∧ EndsItem rest) :
    '>' ∉ commaList texts ∨ ∃ rest, ClosesBefore (commaList texts) rest ∧ EndsItem rest := by
  induction texts using commaList.induct with
  | case1 => exact Or.inl (List.not_mem_nil)
  | case2 text => exact htexts text (by simp)
  | case3 text next more ih =>
    rw [commaList]
    rcases htexts text (by simp) with hnone | ⟨rest, hrest, hends⟩
    · have hfront : '>' ∉ text ++ [',', ' '] := by simp [hnone]
      have hlist : text ++ ',' :: ' ' :: commaList (next :: more) =
          text ++ [',', ' '] ++ commaList (next :: more) := by simp
      rw [hlist]
      refine (ih fun text' hmem => htexts text' (List.mem_cons_of_mem _ hmem)).imp ?_ ?_
      · intro hmore
        simp [hnone, hmore]
      · rintro ⟨rest, hrest, hends⟩
        exact ⟨rest, hrest.append_left hfront, hends⟩
    · have hcomma : EndsItem (',' :: ' ' :: commaList (next :: more)) := by simp [EndsItem]
      exact Or.inr ⟨_, hrest.append _, hends.append hcomma⟩

lemma closesBefore_print (type : GenericType) :
    '>' ∉ type.print ∨ ∃ rest, ClosesBefore type.print rest ∧ EndsItem rest := by
  induction type using GenericType.induction_on with
  | node type ih =>
    have hhead := type.bracket_notMem_head.2
    rw [print_eq]
    by_cases hplain : type.IsPlain
    · rw [brackets_of_plain hplain, List.append_nil]
      exact Or.inl hhead
    · right
      have hopen : '>' ∉ type.head.text ++ ['<'] := by simp [hhead]
      have hprint : type.head.text ++ type.brackets =
          type.head.text ++ ['<'] ++ (commaList (type.arguments.map print) ++ ['>']) := by
        rw [brackets_of_not_plain hplain]
        simp
      have hclose : EndsItem ['>'] := by simp [EndsItem]
      rw [hprint]
      rcases closesBefore_commaList (List.forall_mem_map.2 ih) with hnone | ⟨rest, hrest, hends⟩
      · exact ⟨[], ClosesBefore.append_left ⟨_, rfl, hnone⟩ hopen, by simp [EndsItem]⟩
      · exact ⟨rest ++ ['>'], (hrest.append ['>']).append_left hopen, hends.append hclose⟩

lemma mem_commaList_of_mem {c : Char} {text : List Char} {texts : List (List Char)}
    (htext : text ∈ texts) (hc : c ∈ text) : c ∈ commaList texts := by
  induction texts using commaList.induct with
  | case1 => simp at htext
  | case2 text' => rwa [commaList, ← List.mem_singleton.1 htext]
  | case3 text' next more ih =>
    rw [commaList]
    rcases List.mem_cons.1 htext with rfl | htext
    · exact List.mem_append_left _ hc
    · simp [ih htext]

lemma close_mem_print_iff {type : GenericType} : '>' ∈ type.print ↔ ¬ type.IsPlain := by
  rcases type.print_cases with ⟨hplain, -, hclose⟩ | ⟨hplain, u, hprint⟩
  · simp [hplain, hclose]
  · simp [hplain, hprint]

lemma close_mem_arguments_iff {type : GenericType} :
    '>' ∈ commaList (type.arguments.map print) ↔ ¬ type.IsFlat := by
  constructor
  · intro hmem hflat
    rcases mem_commaList hmem with h | h | ⟨text, htext, h⟩
    · exact absurd h (by decide)
    · exact absurd h (by decide)
    · obtain ⟨argument, hargument, rfl⟩ := List.mem_map.1 htext
      exact close_mem_print_iff.1 h (hflat argument hargument)
  · intro hflat
    rw [IsFlat, not_forall₂] at hflat
    obtain ⟨argument, hargument, hplain⟩ := hflat
    exact mem_commaList_of_mem (List.mem_map_of_mem hargument) (close_mem_print_iff.2 hplain)

/-- The first closing bracket of a type is its own exactly when the type is flat; otherwise its
arguments go on behind it. -/
lemma exists_brackets_eq {type : GenericType} (hplain : ¬ type.IsPlain) :
    ∃ v rest, type.brackets = '<' :: (v ++ '>' :: rest) ∧ v ≠ [] ∧ '>' ∉ v ∧ EndsItem rest ∧
      (rest = [] ↔ type.IsFlat) := by
  have hfirst : ∃ c u, commaList (type.arguments.map print) = c :: u ∧ c ≠ '>' := by
    obtain ⟨first, more, harguments⟩ := List.exists_cons_of_ne_nil hplain
    obtain ⟨c, u, hhead, hc⟩ := first.head.plainWord.exists_cons
    have hne : c ≠ '>' := by
      rintro rfl
      exact absurd hc (by decide)
    rw [harguments, List.map_cons, print_eq, hhead]
    cases more with
    | nil => exact ⟨c, _, rfl, hne⟩
    | cons second more => exact ⟨c, _, rfl, hne⟩
  obtain ⟨c, u, hlist, hc⟩ := hfirst
  rw [brackets_of_not_plain hplain]
  rcases closesBefore_commaList fun text htext => by
    obtain ⟨argument, -, rfl⟩ := List.mem_map.1 htext
    exact closesBefore_print argument with hnone | ⟨rest, ⟨v, hv, hclose⟩, hends⟩
  · refine ⟨_, [], rfl, by simp [hlist], hnone, by simp [EndsItem], fun _ => ?_, fun _ => rfl⟩
    exact not_not.1 fun hflat => hnone (close_mem_arguments_iff.2 hflat)
  · refine ⟨v, rest ++ ['>'], by rw [hv]; simp, ?_, hclose, hends.append (by simp [EndsItem]), ?_⟩
    · rintro rfl
      rw [hlist, List.nil_append, List.cons.injEq] at hv
      exact hc hv.1
    · have hflat : ¬ type.IsFlat := close_mem_arguments_iff.1 (by rw [hv]; simp)
      simp [hflat]

end GenericType

end Canonical

open Canonical Canonical.GenericType

/-! ### Members -/

namespace HeadShape

variable {h : HeadShape} {w next back : List Char} {type : GenericType}

/-- A type with arguments is refused unless its own bracket is the first one that closes, and a blank
stands behind it. -/
lemma refused_generic (hw : PlainWord w) (hplain : ¬ type.IsPlain)
    (hback : type.IsFlat → back ≠ [] ∧ EndsItem back) :
    h.Refused (w ++ (type.brackets ++ back)) := by
  obtain ⟨v, rest, hbrackets, hv, hclose, hends, hflat⟩ := exists_brackets_eq hplain
  have hnext : ∃ c rest', rest ++ back = c :: rest' ∧ (c = ',' ∨ c = '>') := by
    cases rest with
    | nil =>
      obtain ⟨hne, hitem⟩ := hback (hflat.1 rfl)
      obtain ⟨c, rest', rfl⟩ := List.exists_cons_of_ne_nil hne
      exact ⟨c, rest', rfl, hitem c rfl⟩
    | cons c rest => exact ⟨c, _, rfl, hends c rfl⟩
  obtain ⟨c, rest', hrest, hc⟩ := hnext
  have hblank : isBlank c = false := by
    rcases hc with rfl | rfl <;> decide
  have hrefused : h.Refused (w ++ ('<' :: (v ++ ['>']) ++ c :: rest')) :=
    refused_brackets hw (Or.inr (Or.inr ⟨v, rfl, hv, hclose⟩)) (by simp) hblank rest'
  rw [← hrest] at hrefused
  rw [hbrackets]
  simpa using hrefused

/-- The arguments of a type are passed over when each of them is. -/
lemma silent_brackets_of_arguments
    (harguments : ∀ argument ∈ type.arguments, ∀ c rest, c = '>' ∨ c = ',' →
      h.pattern.Silent argument.print (c :: rest)) (back : List Char) :
    h.pattern.Silent type.brackets back := by
  by_cases hplain : type.IsPlain
  · rw [brackets_of_plain hplain]
    trivial
  · have hlist : h.pattern.Silent (commaList (type.arguments.map print)) ('>' :: back) := by
      refine silent_commaList fun text hmem => ?_
      obtain ⟨argument, hargument, rfl⟩ := List.mem_map.1 hmem
      exact harguments argument hargument
    rw [brackets_of_not_plain hplain]
    exact ⟨(refused_of_not_word (by decide)).silentAt,
      hlist.append (silent_singleton (by decide))⟩

lemma silent_argument (type : GenericType) :
    ∀ c rest, c = '>' ∨ c = ',' → h.pattern.Silent type.print (c :: rest) := by
  induction type using GenericType.induction_on with
  | node type ih =>
    intro c rest hc
    rw [print_eq]
    refine Silent.append ?_ (silent_brackets_of_arguments ih _)
    by_cases hplain : type.IsPlain
    · rw [brackets_of_plain hplain, List.nil_append]
      rcases hc with rfl | rfl
      · exact silent_end type.head.plainWord (by decide)
      · exact silent_end type.head.plainWord (by decide)
    · refine silent_word (fun w hw => ?_) type.head.plainWord
      refine (refused_generic hw hplain fun _ => ⟨by simp, fun d hd => ?_⟩).silentAt
      obtain rfl : c = d := by simpa using hd
      exact hc.symm

/-- A type that is not flat leads to no head, whatever stands behind it. -/
lemma barren_nested (hflat : ¬ type.IsFlat) (back : List Char) :
    h.Barren (type.print ++ back) ∧ h.pattern.Silent type.print back := by
  have hplain : ¬ type.IsPlain := fun hplain => hflat hplain.isFlat
  have hrefused : ∀ {w}, PlainWord w → h.Refused (w ++ (type.brackets ++ back)) :=
    fun hw => refused_generic hw hplain fun h => absurd h hflat
  have hnamed : h.named.SilentAt (type.head.text ++ (type.brackets ++ back)) := by
    rw [brackets_of_not_plain hplain]
    exact silentAt_named_end type.head.plainWord (by decide) (by decide) (notMem_openers (by decide))
  rw [print_eq]
  constructor
  · rw [List.append_assoc]
    exact ⟨hrefused type.head.plainWord, hnamed, begins_of_plainWord type.head.plainWord _⟩
  · exact (silent_word (fun w hw => (hrefused hw).silentAt) type.head.plainWord).append
      (silent_brackets_of_arguments (fun argument _ => silent_argument argument) back)

/-- A type in front of a place without a head leads to none. -/
lemma Barren.generic (hnext : h.Barren next) (type : GenericType) :
    h.Barren (type.print ++ ' ' :: next) ∧ h.pattern.Silent type.print (' ' :: next) := by
  by_cases hflat : type.IsFlat
  · obtain ⟨simple, hsimple⟩ := exists_simpleType hflat
    rw [← hsimple]
    exact ⟨hnext.type simple.head.plainWord simple.brackets_of_type, hnext.silent_type simple⟩
  · exact barren_nested hflat _

end HeadShape

end Survey
