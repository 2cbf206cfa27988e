/-
# Canonical interface documents

A canonical document lists modules with their interfaces and members, in single lines with single
spaces between words.  Its parts carry what makes them well-formed, so that every document can be
printed and every print is meant to be read back.  The lines are printed one below the other or all
on one line; `logicalLines_print` says that either way they come back as the logical lines.
-/
import Survey.Proofs.RemoteInterface.Lines
import Survey.Proofs.Text.Words
import Survey.RemoteInterface.Parse

namespace Survey.RemoteDocument

open Survey.Text Survey.LogicalLines

/-! ### Parts -/

/-- A text of characters of a class, at least one of them. -/
structure Spelled (cls : Char → Bool) where
  text : List Char
  ne_nil : text ≠ []
  all_cls : ∀ c ∈ text, cls c = true

/-- Whether a character may stand in the name of an inherited interface. -/
def isBaseChar (c : Char) : Bool := isWordChar c || c == ':'

/-- A name. -/
abbrev Word : Type := Spelled isWordChar

/-- The name of an inherited interface, with its scope. -/
abbrev Base : Type := Spelled isBaseChar

/-- One of the words of a type. -/
abbrev TypeWord : Type := Spelled RemoteShape.isTypeChar

/-- What may stand between the parentheses of an operation. -/
structure RawParameters where
  text : List Char
  trimmed : trim text = text
  opensNoComment : OpensNoComment text
  not_mark : ∀ c ∈ text, isMark c = false
  not_closed : ')' ∉ text

/-- An operation, or an attribute with one or more words for its type. -/
inductive Member where
  | operation (returnType : TypeWord) (name : Word) (parameters : RawParameters)
  | attribute (readonly : Bool) (first : TypeWord) (more : List TypeWord) (name : Word)

/-- An interface with the interfaces that it inherits from and its members. -/
structure Interface where
  name : Word
  bases : List Base
  members : List Member

/-- A module with its interfaces. -/
structure Module where
  name : Word
  interfaces : List Interface

/-! ### Printing -/

namespace Member

/-- The type of an attribute as it is printed. -/
def printType (first : TypeWord) (more : List TypeWord) : List Char :=
  first.text ++ more.flatMap fun word => ' ' :: word.text

/-- A member as it is printed, in front of the semicolon. -/
def text : Member → List Char
  | .operation returnType name parameters =>
    returnType.text ++ ([' '] ++ (name.text ++ (['('] ++ (parameters.text ++ [')']))))
  | .attribute readonly first more name =>
    (if readonly then "readonly".toList ++ [' '] else []) ++
      ("attribute".toList ++ ([' '] ++ (printType first more ++ ([' '] ++ name.text))))

/-- The line of a member. -/
def line (member : Member) : List Char := member.text ++ [';']

end Member

namespace Interface

/-- The list of inherited interfaces as it is printed. -/
def printBases (bases : List Base) : List Char :=
  [',', ' '].intercalate (bases.map (·.text))

/-- The head of an interface as it is printed, in front of the brace. -/
def headText (i : Interface) : List Char :=
  "interface".toList ++ ([' '] ++ (i.name.text ++
    ((if i.bases.isEmpty then [] else [' '] ++ ([':'] ++ ([' '] ++ printBases i.bases))) ++ [' '])))

/-- The line that opens an interface. -/
def headLine (i : Interface) : List Char := i.headText ++ ['\x7b']

/-- The lines of an interface. -/
def lines (i : Interface) : List (List Char) :=
  i.headLine :: (i.members.map Member.line ++ [['\x7d', ';']])

end Interface

namespace Module

/-- The head of a module as it is printed, in front of the brace. -/
def headText (m : Module) : List Char :=
  "module".toList ++ ([' '] ++ (m.name.text ++ [' ']))

/-- The line that opens a module. -/
def headLine (m : Module) : List Char := m.headText ++ ['\x7b']

/-- The lines of a module. -/
def lines (m : Module) : List (List Char) :=
  m.headLine :: (m.interfaces.flatMap Interface.lines ++ [['\x7d', ';']])

end Module

/-- Where the lines of a document stand. -/
structure Layout where
  /-- Whether they all stand on one line. -/
  oneLine : Bool
  /-- Whether the last of them ends with a newline. -/
  finalNewline : Bool

/-- The character between two lines. -/
def Layout.separator (layout : Layout) : Char := if layout.oneLine then ' ' else '\n'

/-- A document as it is printed. -/
def print (layout : Layout) (modules : List Module) : List Char :=
  [layout.separator].intercalate (modules.flatMap Module.lines) ++
    (if layout.finalNewline then ['\n'] else [])

/-! ### What is read back -/

namespace Member

/-- The operation that a member is. -/
def operation? : Member → Option RemoteOperation
  | .operation returnType name parameters =>
    some {
      name := String.ofList name.text
      returnType := String.ofList returnType.text
      rawParameterList := String.ofList parameters.text }
  | .attribute _ _ _ _ => none

/-- The attribute that a member is. -/
def attribute? : Member → Option RemoteAttribute
  | .operation _ _ _ => none
  | .attribute readonly first more name =>
    some {
      name := String.ofList name.text
      type := String.ofList (printType first more)
      readonly }

end Member

/-- The interface that is read from a printed one in a module. -/
def Interface.read (module : Word) (i : Interface) : RemoteInterface where
  name := String.ofList i.name.text
  module := String.ofList module.text
  operations := i.members.filterMap Member.operation?
  attributes := i.members.filterMap Member.attribute?
  inheritedNames := i.bases.map fun base => String.ofList base.text

/-- The interfaces that are read from the print of some modules. -/
def interfaces (modules : List Module) : List RemoteInterface :=
  modules.flatMap fun m => m.interfaces.map (Interface.read m.name)

/-! ### Characters -/

variable {cls : Char → Bool} {c : Char} {u v rest : List Char}

lemma isTypeChar_of_isWordChar (h : isWordChar c = true) : RemoteShape.isTypeChar c = true := by
  simp [RemoteShape.isTypeChar, h]

lemma isTypeChar_of_isBaseChar (h : isBaseChar c = true) : RemoteShape.isTypeChar c = true := by
  simp only [isBaseChar, Bool.or_eq_true] at h
  rcases h with h | h <;> simp [RemoteShape.isTypeChar, h]

lemma isBlank_of_isTypeChar (h : RemoteShape.isTypeChar c = true) : isBlank c = false := by
  rw [Bool.eq_false_iff]
  intro hblank
  simp only [RemoteShape.isTypeChar, isWordChar_of_isBlank hblank, Bool.false_or, Bool.or_eq_true,
    beq_iff_eq] at h
  rcases h with (rfl | rfl) | rfl <;> exact absurd hblank (by decide)

/-- Whether a character may stand in a line, raw parameters and the last character left out. -/
def isLineChar (c : Char) : Bool :=
  RemoteShape.isTypeChar c || c == ' ' || c == ',' || c == '(' || c == ')'

lemma isLineChar_of_isTypeChar (h : RemoteShape.isTypeChar c = true) : isLineChar c = true := by
  simp [isLineChar, h]

lemma isLineChar_space : ∀ c ∈ [' '], isLineChar c = true := List.forall_mem_singleton.2 (by decide)

lemma isMark_of_isLineChar (h : isLineChar c = true) : isMark c = false := by
  rw [Bool.eq_false_iff]
  intro hmark
  simp only [isMark, Bool.or_eq_true, beq_iff_eq] at hmark
  rcases hmark with ((rfl | rfl) | rfl) | rfl <;> exact absurd h (by decide)

lemma slash_notMem (hu : ∀ c ∈ u, isLineChar c = true) : '/' ∉ u :=
  fun hmem => absurd (hu '/' hmem) (by decide)

namespace Spelled

lemma length_pos (w : Spelled cls) : 1 ≤ w.text.length := List.length_pos_of_ne_nil w.ne_nil

lemma exists_cons (w : Spelled cls) : ∃ c u, w.text = c :: u ∧ cls c = true := by
  obtain ⟨c, u, htext⟩ := List.exists_cons_of_ne_nil w.ne_nil
  exact ⟨c, u, htext, w.all_cls c (by simp [htext])⟩

lemma isTypeChar (w : Word) : ∀ c ∈ w.text, RemoteShape.isTypeChar c = true :=
  fun c hc => isTypeChar_of_isWordChar (w.all_cls c hc)

end Spelled

lemma Word.isLineChar (w : Word) : ∀ c ∈ w.text, isLineChar c = true :=
  fun c hc => isLineChar_of_isTypeChar (w.isTypeChar c hc)

lemma TypeWord.isLineChar (w : TypeWord) : ∀ c ∈ w.text, isLineChar c = true :=
  fun c hc => isLineChar_of_isTypeChar (w.all_cls c hc)

namespace Member

/-- A printed type is made of the characters of its words and spaces. -/
lemma forall_mem_printType {P : Char → Prop} (hcls : ∀ c, RemoteShape.isTypeChar c = true → P c)
    (hspace : P ' ') (first : TypeWord) (more : List TypeWord) :
    ∀ c ∈ printType first more, P c := by
  intro c hc
  simp only [printType, List.mem_append, List.mem_flatMap, List.mem_cons] at hc
  rcases hc with hc | ⟨w, -, rfl | hc⟩
  · exact hcls c (first.all_cls c hc)
  · exact hspace
  · exact hcls c (w.all_cls c hc)

lemma isLineChar_printType (first : TypeWord) (more : List TypeWord) :
    ∀ c ∈ printType first more, isLineChar c = true :=
  forall_mem_printType (fun _ hc => isLineChar_of_isTypeChar hc) (by decide) first more

end Member

/-! ### Lines of a print -/

/-- A line is read back as it is, whatever stands behind it. -/
def ReadsBack (line : List Char) : Prop :=
  ∀ rest, tidy (pieces (strip .code (line ++ rest))) = line :: tidy (pieces (strip .code rest))

/-- A line with an opening brace or a semicolon at its end is read back. -/
lemma readsBack_of_end (hcode : ∀ rest, strip .code (u ++ c :: rest) = u ++ strip .code (c :: rest))
    (hu : ∀ d ∈ u, isMark d = false) (hc : c = '\x7b' ∨ c = ';')
    (hhead : ∀ d ∈ (u ++ [c]).head?, isBlank d = false) : ReadsBack (u ++ [c]) := by
  intro rest
  have hslash : c ≠ '/' := by rcases hc with rfl | rfl <;> decide
  have hpieces : pieces (c :: strip .code rest) = [c] :: pieces (strip .code rest) := by
    rcases hc with rfl | rfl <;> simp [pieces]
  have htrim : trim (u ++ [c]) = u ++ [c] := by
    refine trim_eq_self hhead fun d hd => ?_
    obtain rfl : c = d := by simpa using hd
    rcases hc with rfl | rfl <;> decide
  rw [List.append_assoc, List.singleton_append, hcode, strip_cons hslash,
    pieces_append_of_not_isMark hu, hpieces, prependHead_cons, tidy_cons htrim (by simp)]

lemma readsBack_close : ReadsBack ['\x7d', ';'] := by
  intro rest
  have hpieces : pieces ('\x7d' :: ';' :: strip .code rest) =
      [] :: ['\x7d', ';'] :: pieces (strip .code rest) := by simp [pieces]
  -- the brace ends the empty line in front of it, which is dropped
  have hempty : tidy ([] :: ['\x7d', ';'] :: pieces (strip .code rest)) =
      tidy (['\x7d', ';'] :: pieces (strip .code rest)) := rfl
  rw [List.cons_append, List.singleton_append, strip_cons (by decide), strip_cons (by decide),
    hpieces, hempty, tidy_cons (by decide) (by simp)]

/-- Without raw parameters only the characters count. -/
lemma readsBack_of_isLineChar (hu : ∀ c ∈ u, isLineChar c = true) (hc : c = '\x7b' ∨ c = ';')
    (hhead : ∀ d ∈ (u ++ [c]).head?, isBlank d = false) : ReadsBack (u ++ [c]) := by
  refine readsBack_of_end (fun rest => ?_) (fun d hd => isMark_of_isLineChar (hu d hd)) hc hhead
  refine strip_append_of_opensNoComment (opensNoComment_of_notMem (slash_notMem hu)) fun hlast => ?_
  exact absurd (List.mem_of_getLast? hlast) (slash_notMem hu)

namespace Member

/-- No slash stands in front of the raw parameters of an operation. -/
lemma isLineChar_operationHead {returnType : List Char} (htype : ∀ c ∈ returnType, isLineChar c = true)
    (name : Word) : ∀ c ∈ returnType ++ ([' '] ++ (name.text ++ ['('])), isLineChar c = true :=
  List.forall_mem_append.2 ⟨htype, List.forall_mem_append.2
    ⟨isLineChar_space, List.forall_mem_append.2
      ⟨name.isLineChar, List.forall_mem_singleton.2 (by decide)⟩⟩⟩

lemma text_operation (returnType : TypeWord) (name : Word) (parameters : RawParameters) :
    (Member.operation returnType name parameters).text =
      returnType.text ++ ([' '] ++ (name.text ++ ['('])) ++ (parameters.text ++ [')']) := by
  simp only [text, List.append_assoc]

lemma isLineChar_attribute (readonly : Bool) (first : TypeWord) (more : List TypeWord)
    (name : Word) :
    ∀ c ∈ (Member.attribute readonly first more name).text, isLineChar c = true := by
  refine List.forall_mem_append.2 ⟨?_, List.forall_mem_append.2
    ⟨List.all_eq_true.1 (by decide), List.forall_mem_append.2 ⟨isLineChar_space,
      List.forall_mem_append.2 ⟨isLineChar_printType first more,
        List.forall_mem_append.2 ⟨isLineChar_space, name.isLineChar⟩⟩⟩⟩⟩
  cases readonly with
  | true => exact List.all_eq_true.1 (by decide)
  | false => simp

lemma not_isMark_parameters {head : List Char} (hhead : ∀ c ∈ head, isLineChar c = true)
    (parameters : RawParameters) : ∀ c ∈ head ++ (parameters.text ++ [')']), isMark c = false :=
  List.forall_mem_append.2 ⟨fun c hc => isMark_of_isLineChar (hhead c hc),
    List.forall_mem_append.2 ⟨parameters.not_mark, List.forall_mem_singleton.2 (by decide)⟩⟩

/-- Raw parameters may have slashes in them, so they are read apart from what stands around them. -/
lemma readsBack_parameters {head : List Char} (hhead : ∀ c ∈ head, isLineChar c = true)
    (parameters : RawParameters)
    (hblank : ∀ c ∈ (head ++ (parameters.text ++ [')']) ++ [';']).head?, isBlank c = false) :
    ReadsBack (head ++ (parameters.text ++ [')']) ++ [';']) := by
  refine readsBack_of_end (fun rest => ?_) (not_isMark_parameters hhead parameters) (Or.inr rfl) hblank
  have hslash := slash_notMem hhead
  have hopen := strip_append_of_opensNoComment (v := parameters.text ++ ([')'] ++ ';' :: rest))
    (opensNoComment_of_notMem hslash) fun hlast => absurd (List.mem_of_getLast? hlast) hslash
  have hparameters := strip_append_of_opensNoComment (v := [')'] ++ ';' :: rest)
    parameters.opensNoComment fun _ => by simp
  have hclose : strip .code ([')'] ++ ';' :: rest) = [')'] ++ strip .code (';' :: rest) :=
    strip_cons (by decide) _
  simp only [List.append_assoc] at hopen ⊢
  rw [hopen, hparameters, hclose]

lemma not_isMark_text (member : Member) : ∀ c ∈ member.text, isMark c = false := by
  cases member with
  | operation returnType name parameters =>
    rw [text_operation]
    exact not_isMark_parameters (isLineChar_operationHead returnType.isLineChar name) parameters
  | «attribute» readonly first more name =>
    exact fun c hc => isMark_of_isLineChar (isLineChar_attribute readonly first more name c hc)

/-- A member begins with a character of a type. -/
lemma exists_head_line (member : Member) :
    ∃ c, member.line.head? = some c ∧ RemoteShape.isTypeChar c = true := by
  cases member with
  | operation returnType name parameters =>
    obtain ⟨c, u, htext, hc⟩ := returnType.exists_cons
    exact ⟨c, by simp [line, text, htext], hc⟩
  | «attribute» readonly first more name =>
    cases readonly with
    | true => exact ⟨'r', rfl, by decide⟩
    | false => exact ⟨'a', rfl, by decide⟩

lemma readsBack_line (member : Member) : ReadsBack member.line := by
  obtain ⟨c, hhead, hc⟩ := member.exists_head_line
  have hblank := head?_not_mem hhead (isBlank_of_isTypeChar hc)
  cases member with
  | operation returnType name parameters =>
    rw [line, text_operation] at hblank ⊢
    exact readsBack_parameters (isLineChar_operationHead returnType.isLineChar name) parameters hblank
  | «attribute» readonly first more name =>
    exact readsBack_of_isLineChar (isLineChar_attribute readonly first more name) (Or.inr rfl) hblank

end Member

namespace Interface

lemma printBases_cons (base next : Base) (more : List Base) :
    printBases (base :: next :: more) =
      base.text ++ ',' :: ' ' :: printBases (next :: more) := by
  simp only [printBases, List.map_cons, List.intercalate_cons_cons, List.append_assoc]
  rfl

/-- A printed list of interfaces is made of their characters, commas and spaces. -/
lemma forall_mem_printBases {P : Char → Prop} (hcls : ∀ c, isBaseChar c = true → P c)
    (hcomma : P ',') (hspace : P ' ') (bases : List Base) : ∀ c ∈ printBases bases, P c := by
  induction bases with
  | nil => simp [printBases]
  | cons base bases ih =>
    have hbase : ∀ c ∈ base.text, P c := fun c hc => hcls c (base.all_cls c hc)
    cases bases with
    | nil => simpa [printBases] using hbase
    | cons next more =>
      rw [printBases_cons]
      exact List.forall_mem_append.2
        ⟨hbase, List.forall_mem_cons.2 ⟨hcomma, List.forall_mem_cons.2 ⟨hspace, ih⟩⟩⟩

lemma isLineChar_printBases (bases : List Base) : ∀ c ∈ printBases bases, isLineChar c = true :=
  forall_mem_printBases (fun _ hc => isLineChar_of_isTypeChar (isTypeChar_of_isBaseChar hc))
    (by decide) (by decide) bases

lemma isLineChar_headText (i : Interface) : ∀ c ∈ i.headText, isLineChar c = true := by
  refine List.forall_mem_append.2 ⟨List.all_eq_true.1 (by decide),
    List.forall_mem_append.2 ⟨isLineChar_space, List.forall_mem_append.2
      ⟨Word.isLineChar i.name, List.forall_mem_append.2 ⟨?_, isLineChar_space⟩⟩⟩⟩
  split
  · simp
  · exact List.forall_mem_append.2 ⟨isLineChar_space, List.forall_mem_append.2
      ⟨List.forall_mem_singleton.2 (by decide), List.forall_mem_append.2
        ⟨isLineChar_space, isLineChar_printBases i.bases⟩⟩⟩

lemma readsBack_headLine (i : Interface) : ReadsBack i.headLine :=
  readsBack_of_isLineChar i.isLineChar_headText (Or.inl rfl)
    (head?_not_mem (c := 'i') rfl (by decide))

end Interface

lemma Interface.readsBack_lines (i : Interface) : ∀ line ∈ i.lines, ReadsBack line := by
  intro line hline
  simp only [lines, List.mem_cons, List.mem_append, List.mem_map, List.not_mem_nil, or_false] at hline
  rcases hline with rfl | ⟨member, -, rfl⟩ | rfl
  · exact i.readsBack_headLine
  · exact member.readsBack_line
  · exact readsBack_close

lemma Module.isLineChar_headText (m : Module) : ∀ c ∈ m.headText, isLineChar c = true :=
  List.forall_mem_append.2 ⟨List.all_eq_true.1 (by decide), List.forall_mem_append.2
    ⟨isLineChar_space, List.forall_mem_append.2 ⟨Word.isLineChar m.name, isLineChar_space⟩⟩⟩

lemma Module.readsBack_headLine (m : Module) : ReadsBack m.headLine :=
  readsBack_of_isLineChar m.isLineChar_headText (Or.inl rfl)
    (head?_not_mem (c := 'm') rfl (by decide))

lemma Module.readsBack_lines (m : Module) : ∀ line ∈ m.lines, ReadsBack line := by
  intro line hline
  simp only [lines, List.mem_cons, List.mem_append, List.mem_flatMap, List.not_mem_nil,
    or_false] at hline
  rcases hline with rfl | ⟨i, -, hline⟩ | rfl
  · exact m.readsBack_headLine
  · exact i.readsBack_lines line hline
  · exact readsBack_close

lemma tidy_pieces_separator (layout : Layout) (rest : List Char) :
    tidy (pieces (strip .code (layout.separator :: rest))) = tidy (pieces (strip .code rest)) := by
  rw [Layout.separator]
  split
  · rw [strip_cons (by decide), pieces_cons_of_not_isMark (by decide), tidy_consHead_space]
  · rw [strip_cons (by decide)]
    rfl

/-- Lines between separators come back one after the other. -/
lemma tidy_pieces_intercalate (layout : Layout) {lines : List (List Char)}
    (hlines : ∀ line ∈ lines, ReadsBack line) (rest : List Char) :
    tidy (pieces (strip .code ([layout.separator].intercalate lines ++ rest))) =
      lines ++ tidy (pieces (strip .code rest)) := by
  induction lines with
  | nil => rfl
  | cons line lines ih =>
    have hline := hlines line (by simp)
    cases lines with
    | nil =>
      rw [List.intercalate_singleton, hline]
      rfl
    | cons next more =>
      have hmore := ih fun line hmem => hlines line (List.mem_cons_of_mem _ hmem)
      rw [List.intercalate_cons_cons, List.append_assoc, List.append_assoc, List.singleton_append,
        hline, tidy_pieces_separator, hmore]
      rfl

/-- **A printed document comes back line by line**, in every layout. -/
theorem logicalLines_print (layout : Layout) (modules : List Module) :
    logicalLines (print layout modules) = modules.flatMap Module.lines := by
  have hlines : ∀ line ∈ modules.flatMap Module.lines, ReadsBack line := by
    intro line hline
    obtain ⟨m, -, hmem⟩ := List.mem_flatMap.1 hline
    exact m.readsBack_lines line hmem
  have hend : tidy (pieces (strip .code (if layout.finalNewline then ['\n'] else []))) = [] := by
    split <;> rfl
  rw [logicalLines_eq, print, tidy_pieces_intercalate layout hlines, hend, List.append_nil]

end Survey.RemoteDocument
