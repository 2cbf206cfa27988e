/-
# Reading the parts of printed members

Once a member is found, its parts are read from the texts of groups: the modifiers from a text of
words, the parameters from a list with brackets, and the body from the text behind the head.  Here
every part is read back from its print.
-/
import Survey.Declaration.Body
import Survey.Declaration.Parameters
import Survey.Proofs.Declaration.Canonical
import Survey.Proofs.Text.Bytes
import Survey.Proofs.Text.Rejoining

namespace Survey

open Survey.Text Survey.Canonical

/-! ### Characters -/

namespace Canonical

/-- Apart from the given characters a text is made of those of identifiers. -/
def MadeOf (extra u : List Char) : Prop := ∀ c ∈ u, isIdentifierChar c = true ∨ c ∈ extra

instance (extra u : List Char) : Decidable (MadeOf extra u) :=
  decidable_of_iff (u.all (fun c => isIdentifierChar c || extra.contains c) = true)
    (by simp [MadeOf])

section

variable {extra u v : List Char}

lemma MadeOf.append (hu : MadeOf extra u) (hv : MadeOf extra v) : MadeOf extra (u ++ v) :=
  fun c hc => (List.mem_append.1 hc).elim (hu c) (hv c)

lemma MadeOf.mono {extra' : List Char} (hu : MadeOf extra u) (hsub : extra ⊆ extra') :
    MadeOf extra' u :=
  fun c hc => (hu c hc).imp_right fun hmem => hsub hmem

lemma PlainWord.madeOf (hu : PlainWord u) : MadeOf extra u :=
  fun c hc => Or.inl (hu.all_identifierChar c hc)

lemma madeOf_flatMap {α : Type} {items : List α} {f : α → List Char}
    (hitems : ∀ a ∈ items, MadeOf extra (f a)) : MadeOf extra (items.flatMap f) := by
  intro c hc
  obtain ⟨a, ha, hmem⟩ := List.mem_flatMap.1 hc
  exact hitems a ha c hmem

lemma madeOf_commaList {texts : List (List Char)} (htexts : ∀ text ∈ texts, MadeOf extra text)
    (hsub : [',', ' '] ⊆ extra) : MadeOf extra (commaList texts) := by
  intro c hc
  rcases mem_commaList hc with rfl | rfl | ⟨text, hmem, hc⟩
  · exact Or.inr (hsub (by simp))
  · exact Or.inr (hsub (by simp))
  · exact htexts text hmem c hc

lemma MadeOf.notMem (hu : MadeOf extra u) {c : Char} (hchar : isIdentifierChar c = false)
    (hc : c ∉ extra) : c ∉ u := by
  intro hmem
  rcases hu c hmem with h | h
  · simp [hchar] at h
  · exact hc h

end

/-- The characters of types and lists that are not in their words. -/
def typeMarks : List Char := ['[', ']', '<', '>', ',', ' ']

/-- The characters of a unit that are not in its words. -/
def unitMarks : List Char := typeMarks ++ ['(', ')', '\x7b', '\x7d', ';', '.', '\n']

lemma SimpleType.madeOf_print (type : SimpleType) : MadeOf typeMarks type.print := by
  refine type.head.plainWord.madeOf.append ?_
  cases type with
  | plain name =>
    have hnil : MadeOf typeMarks [] := by decide
    exact hnil
  | array element =>
    have hsquare : MadeOf typeMarks ['[', ']'] := by decide
    exact hsquare
  | generic name first more =>
    have hnames : MadeOf typeMarks (commaList ((first :: more).map (·.text))) := by
      refine madeOf_commaList (fun text hmem => ?_) (by decide)
      obtain ⟨part, -, rfl⟩ := List.mem_map.1 hmem
      exact part.plainWord.madeOf
    have hopen : MadeOf typeMarks ['<'] := by decide
    have hclose : MadeOf typeMarks ['>'] := by decide
    exact hopen.append (hnames.append hclose)

lemma madeOf_space : MadeOf typeMarks [' '] := by decide

lemma Parameter.madeOf_print (parameter : Parameter) : MadeOf typeMarks parameter.print :=
  parameter.type.madeOf_print.append (madeOf_space.append parameter.name.plainWord.madeOf)

lemma madeOf_printParameters (parameters : List Parameter) :
    MadeOf typeMarks (printParameters parameters) := by
  refine madeOf_commaList (fun text hmem => ?_) (by decide)
  obtain ⟨parameter, -, rfl⟩ := List.mem_map.1 hmem
  exact parameter.madeOf_print

lemma madeOf_printKeywords {allowed : List String} (hallowed : ∀ k ∈ allowed, PlainWord k.toList)
    (keywords : Keywords allowed) : MadeOf typeMarks (printKeywords keywords) :=
  madeOf_flatMap fun k _ => (hallowed _ k.2).madeOf.append madeOf_space

lemma madeOf_printHead {allowed : List String} (hallowed : ∀ k ∈ allowed, PlainWord k.toList)
    (keywords : Keywords allowed) (type : SimpleType) (name : Identifier) :
    MadeOf typeMarks (printHead keywords type name) :=
  (madeOf_printKeywords hallowed keywords).append
    (type.madeOf_print.append (madeOf_space.append name.plainWord.madeOf))

lemma Member.madeOf_print (member : Member) : MadeOf unitMarks member.print := by
  have hindent : MadeOf unitMarks "  ".toList := by decide
  have hsub : typeMarks ⊆ unitMarks := by decide
  cases member with
  | field keywords type name =>
    have hhead := (madeOf_printHead plainWord_of_fieldKeywords keywords type name).mono hsub
    have hend : MadeOf unitMarks ";\n".toList := by decide
    exact hindent.append (hhead.append hend)
  | method keywords type name parameters =>
    have hhead := (madeOf_printHead plainWord_of_methodKeywords keywords type name).mono hsub
    have hopen : MadeOf unitMarks ['('] := by decide
    have hparameters := (madeOf_printParameters parameters).mono hsub
    have hend : MadeOf unitMarks ") \x7b\n  \x7d\n".toList := by decide
    exact hindent.append (hhead.append (hopen.append (hparameters.append hend)))

lemma Class.madeOf_packageText (c : Class) : MadeOf ['.'] c.packageText := by
  have hpoint : MadeOf ['.'] ['.'] := by decide
  exact c.package.plainWord.madeOf.append
    (madeOf_flatMap fun part _ => hpoint.append part.plainWord.madeOf)

lemma Class.madeOf_print (c : Class) : MadeOf unitMarks c.print := by
  have hpackage : MadeOf unitMarks "package ".toList := by decide
  have hline : MadeOf unitMarks [';', '\n'] := by decide
  have hclass : MadeOf unitMarks "class ".toList := by decide
  have hopen : MadeOf unitMarks " \x7b\n".toList := by decide
  have hclose : MadeOf unitMarks "\x7d\n".toList := by decide
  have hname : MadeOf unitMarks c.packageText := c.madeOf_packageText.mono (by decide)
  have hhead := hpackage.append (hname.append
    (hline.append (hclass.append (c.name.plainWord.madeOf.append hopen))))
  have hmembers : MadeOf unitMarks (c.members.flatMap Member.print) :=
    madeOf_flatMap fun member _ => member.madeOf_print
  exact hhead.append (hmembers.append hclose)

end Canonical

/-! ### Modifiers -/

lemma words_printKeywords {allowed : List String} (hallowed : ∀ k ∈ allowed, PlainWord k.toList)
    (keywords : Keywords allowed) :
    words (printKeywords keywords) = keywords.map (·.1.toList) := by
  induction keywords with
  | nil => rfl
  | cons k keywords ih =>
    have hk := hallowed _ k.2
    have hprint : printKeywords (k :: keywords) = k.1.toList ++ ' ' :: printKeywords keywords := by
      simp [printKeywords]
    rw [hprint, words_append_blank hk.isBlank hk.ne_nil (by decide), ih]
    rfl

lemma modifiers_printKeywords {allowed : List String}
    (hallowed : ∀ k ∈ allowed, PlainWord k.toList) (keywords : Keywords allowed) :
    Modifiers.ofText (printKeywords keywords) = modifiersOf keywords := by
  rw [Modifiers.ofText, words_printKeywords hallowed, List.map_map, modifiersOf]
  congr 1
  exact List.map_congr_left fun k _ => String.ofList_toList

/-! ### Parameters -/

namespace Canonical

variable {c : Char}

lemma depthChange_of_identifierChar (hc : isIdentifierChar c = true) : depthChange c = 0 := by
  have hne : ∀ d, isIdentifierChar d = false → c ≠ d := by
    rintro d hd rfl
    simp [hd] at hc
  simp [depthChange, hne '<' (by decide), hne '(' (by decide), hne '[' (by decide),
    hne '>' (by decide), hne ')' (by decide), hne ']' (by decide)]

lemma ne_comma_of_identifierChar (hc : isIdentifierChar c = true) : c ≠ ',' := by
  rintro rfl
  exact absurd hc (by decide)

/-- Inside type arguments no bracket and no cut stands. -/
lemma depthChange_of_mem_commaList {names : List Identifier}
    (hc : c ∈ commaList (names.map (·.text))) : depthChange c = 0 := by
  rcases mem_commaList hc with rfl | rfl | ⟨text, htext, hc⟩
  · decide
  · decide
  · obtain ⟨name, -, rfl⟩ := List.mem_map.1 htext
    exact depthChange_of_identifierChar (name.all_identifierChar c hc)

lemma keeps_space : Keeps ',' 0 [' '] 0 := keeps_singleton (by decide) (by decide)

lemma Identifier.keeps (name : Identifier) : Keeps ',' 0 name.text 0 := by
  refine keeps_of_forall (fun c hc => ?_) (by decide)
  have hchar := name.all_identifierChar c hc
  exact ⟨depthChange_of_identifierChar hchar, fun hcut => ne_comma_of_identifierChar hchar hcut.1⟩

lemma Identifier.keepsToken (name : Identifier) : KeepsToken 0 name.text 0 := by
  refine keepsToken_of_forall fun c hc => ?_
  have hchar := name.all_identifierChar c hc
  refine ⟨depthChange_of_identifierChar hchar, fun hcut => ?_⟩
  simp [isBlank_of_identifierChar hchar] at hcut

namespace SimpleType

lemma keeps (type : SimpleType) : Keeps ',' 0 type.print 0 := by
  refine type.head.keeps.append ?_
  cases type with
  | plain name => exact keeps_of_forall (by simp [brackets]) (by decide)
  | array element =>
    have hclose : Keeps ',' 1 [']'] 0 := keeps_singleton (by decide) (by decide)
    exact (keeps_singleton (c := '[') (by decide) (by decide)).append hclose
  | generic name first more =>
    have hinside : Keeps ',' 1 (commaList ((first :: more).map (·.text))) 1 :=
      keeps_of_forall (fun c hc => ⟨depthChange_of_mem_commaList hc, by simp⟩) (by decide)
    exact (keeps_singleton (c := '<') (by decide) (by decide)).append
      (hinside.append (keeps_singleton (c := '>') (by decide) (by decide)))

lemma keepsToken (type : SimpleType) : KeepsToken 0 type.print 0 := by
  refine type.head.keepsToken.append ?_
  cases type with
  | plain name => exact keepsToken_of_forall (by simp [brackets])
  | array element =>
    have hclose : KeepsToken 1 [']'] 0 := keepsToken_singleton (by decide)
    exact (keepsToken_singleton (c := '[') (by decide)).append hclose
  | generic name first more =>
    have hinside : KeepsToken 1 (commaList ((first :: more).map (·.text))) 1 :=
      keepsToken_of_forall fun c hc => ⟨depthChange_of_mem_commaList hc, by simp⟩
    exact (keepsToken_singleton (c := '<') (by decide)).append
      (hinside.append (keepsToken_singleton (c := '>') (by decide)))

end SimpleType

/-! #### Lists of parameters -/

lemma commaList_eq_intercalate (texts : List (List Char)) :
    commaList texts = [',', ' '].intercalate texts := by
  induction texts using commaList.induct with
  | case1 => rfl
  | case2 text => exact List.intercalate_singleton.symm
  | case3 text next more ih =>
    rw [commaList, ih, List.intercalate_cons_cons, List.append_assoc]
    rfl

/-- A list is split into its items at the commas between them. -/
lemma splitTopLevel?_commaList {texts : List (List Char)}
    (hkeeps : ∀ text ∈ texts, Keeps ',' 0 text 0)
    (htrim : ∀ text ∈ texts, trim text = text ∧ text ≠ []) :
    splitTopLevel? ',' (commaList texts) = some texts := by
  rw [commaList_eq_intercalate]
  exact splitTopLevel?_intercalate (fun text hmem => (htrim text hmem).symm) hkeeps

lemma Identifier.text_ne (name : Identifier) {word : String} (hword : word ∈ reservedWords) :
    name.text ≠ word.toList := by
  intro heq
  refine name.not_reserved ?_
  rwa [heq, String.ofList_toList]

lemma plainWord_of_reserved : ∀ word ∈ reservedWords, PlainWord word.toList :=
  plainWord_of_all (by decide)

namespace SimpleType

lemma print_cons (type : SimpleType) :
    ∃ c u, type.print = c :: u ∧ isIdentifierChar c = true := by
  obtain ⟨c, u, hhead, hc⟩ := type.head.plainWord.exists_cons
  exact ⟨c, u ++ type.brackets, by simp [print, hhead], hc⟩

/-- A type is no reserved word: it has brackets, or it is an identifier. -/
lemma print_ne (type : SimpleType) {word : String} (hword : word ∈ reservedWords) :
    type.print ≠ word.toList := by
  have hplain := plainWord_of_reserved word hword
  intro heq
  cases type with
  | plain name => exact name.text_ne hword (by simpa [print, head, brackets] using heq)
  | array element =>
    have hmem : '[' ∈ word.toList := heq ▸ by simp [print, brackets]
    exact absurd (hplain.all_identifierChar _ hmem) (by decide)
  | generic name first more =>
    have hmem : '<' ∈ word.toList := heq ▸ by simp [print, brackets]
    exact absurd (hplain.all_identifierChar _ hmem) (by decide)

lemma ofList_print_notMem (type : SimpleType) (words : List String)
    (hwords : ∀ word ∈ words, word ∈ reservedWords) : String.ofList type.print ∉ words := by
  intro hmem
  exact type.print_ne (hwords _ hmem) (String.toList_ofList).symm

end SimpleType

namespace Parameter

open Survey.Parameter

lemma keeps (parameter : Canonical.Parameter) : Keeps ',' 0 parameter.print 0 :=
  parameter.type.keeps.append (keeps_space.append parameter.name.keeps)

lemma trim_print (parameter : Canonical.Parameter) :
    trim parameter.print = parameter.print ∧ parameter.print ≠ [] := by
  obtain ⟨c, u, htype, hc⟩ := parameter.type.print_cons
  refine ⟨trim_eq_self ?_ ?_, by simp [print]⟩
  · simpa [print, htype] using isBlank_of_identifierChar hc
  · intro d hd
    have hprint : parameter.print = parameter.type.print ++ [' '] ++ parameter.name.text := by
      simp [print]
    rw [hprint, List.getLast?_append_of_ne_nil _ parameter.name.plainWord.ne_nil] at hd
    have hmem : d ∈ parameter.name.text := List.mem_of_getLast? hd
    exact isBlank_of_identifierChar (parameter.name.all_identifierChar d hmem)

lemma tokens_print (parameter : Canonical.Parameter) :
    tokens parameter.print = [parameter.type.print, parameter.name.text] := by
  have hname := parameter.name.keepsToken []
  rw [List.append_nil] at hname
  have hcut : piecesAtBlanks 0 (' ' :: parameter.name.text) = [[], parameter.name.text] := by
    rw [piecesAtBlanks, if_pos (by decide), hname]
    simp [piecesAtBlanks]
  have htype : parameter.type.print ≠ [] := by
    obtain ⟨c, u, hprint, -⟩ := parameter.type.print_cons
    simp [hprint]
  rw [tokens, print, parameter.type.keepsToken, hcut, prependHead_cons, List.append_nil, nonEmpty]
  simp [htype, parameter.name.plainWord.ne_nil]

/-- A token that begins with a letter and is not the keyword is plain. -/
lemma isPlain_of_cons {token u : List Char} {c : Char} (htoken : token = c :: u)
    (hc : isIdentifierChar c = true) (hfinal : token ≠ "final".toList) :
    isPlain token = true ∧ annotationName? token = none := by
  have hname : annotationName? token = none := by
    rw [htoken, annotationName?]
    intro d heq
    rw [(List.cons.inj heq).1] at hc
    exact absurd hc (by decide)
  refine ⟨?_, hname⟩
  rw [isPlain, hname, Option.isNone_none, Bool.true_and, bne_iff_ne]
  exact hfinal

lemma ofTokens?_print (parameter : Canonical.Parameter) :
    ofTokens? [parameter.type.print, parameter.name.text] = some parameter.read := by
  obtain ⟨c, u, htype, hc⟩ := parameter.type.print_cons
  obtain ⟨d, v, hname, hd⟩ := parameter.name.plainWord.exists_cons
  have htypeFinal : parameter.type.print ≠ "final".toList := parameter.type.print_ne (by decide)
  have hnameFinal : parameter.name.text ≠ "final".toList := parameter.name.text_ne (by decide)
  obtain ⟨htypePlain, htypeName⟩ := isPlain_of_cons htype hc htypeFinal
  obtain ⟨hnamePlain, hnameName⟩ := isPlain_of_cons hname hd hnameFinal
  have hfilter : [parameter.type.print, parameter.name.text].filter isPlain =
      [parameter.type.print, parameter.name.text] := by
    rw [List.filter_cons_of_pos htypePlain, List.filter_cons_of_pos hnamePlain, List.filter_nil]
  have hfinal : [parameter.type.print, parameter.name.text].contains "final".toList = false := by
    rw [Bool.eq_false_iff, ne_eq, List.contains_iff_mem]
    intro hmem
    rcases List.mem_cons.1 hmem with heq | hmem
    · exact htypeFinal heq.symm
    · exact hnameFinal (List.mem_singleton.1 hmem).symm
  have hannotations : [parameter.type.print, parameter.name.text].filterMap annotationName? = [] := by
    rw [List.filterMap_cons_none htypeName, List.filterMap_cons_none hnameName, List.filterMap_nil]
  rw [ofTokens?, hfilter, hfinal, hannotations]
  rfl

/-- Printed parameters are read back. -/
lemma parseList_printParameters (parameters : List Canonical.Parameter) :
    parseList (printParameters parameters) = parameters.map read := by
  have hsplit : splitTopLevel? ',' (printParameters parameters) = some (parameters.map print) := by
    refine splitTopLevel?_commaList (fun text hmem => ?_) fun text hmem => ?_
    · obtain ⟨parameter, -, rfl⟩ := List.mem_map.1 hmem
      exact parameter.keeps
    · obtain ⟨parameter, -, rfl⟩ := List.mem_map.1 hmem
      exact parameter.trim_print
  rw [parseList, hsplit]
  simp only [List.filterMap_map]
  have hread : ∀ parameter : Canonical.Parameter,
      ((fun piece => ofTokens? (tokens piece)) ∘ print) parameter = some parameter.read :=
    fun parameter => by rw [Function.comp_apply, tokens_print, ofTokens?_print]
  rw [funext hread]
  exact congrFun List.filterMap_eq_map' parameters

end Parameter

end Canonical

/-! ### Bodies -/

namespace Body

/-- The block of a printed method. -/
def printedBlock : List Char := "\x7b\n  \x7d".toList

lemma closeFrom_printedBlock (rest : List UInt8) :
    Block.closeFrom .code 0 (utf8 printedBlock ++ rest) = some 4 := by
  have hbytes : utf8 printedBlock = [0x7b, 0x0a, 0x20, 0x20, 0x7d] := by decide
  rw [hbytes]
  simp [Block.closeFrom, Block.Mode.next, Block.Mode.afterCode, Block.openBrace, Block.closeBrace,
    Block.doubleQuote, Block.singleQuote, Block.slash]

/-- The body of a printed method is its block. -/
lemma after?_printed (front rest : List Char) :
    after? (.ofText (front ++ ' ' :: (printedBlock ++ rest))) (byteLength front) =
      some printedBlock := by
  have hopen : printedBlock ++ rest = '{' :: ("\n  \x7d".toList ++ rest) := rfl
  have htext : front ++ ' ' :: (printedBlock ++ rest) = front ++ [' '] ++ (printedBlock ++ rest) := by
    simp
  -- behind one blank the block opens
  have hstart : trimStart (' ' :: (printedBlock ++ rest)) = printedBlock ++ rest := by
    rw [trimStart, List.dropWhile_cons_of_pos (by decide), hopen,
      List.dropWhile_cons_of_neg (by decide)]
  have hblanks : (' ' :: (printedBlock ++ rest)).takeWhile isBlank = [' '] := by
    rw [List.takeWhile_cons_of_pos (by decide), hopen, List.takeWhile_cons_of_neg (by decide)]
  have hclose : Block.closingBraceIn? (utf8 (front ++ ' ' :: (printedBlock ++ rest)))
      (byteLength (front ++ [' '])) = some (byteLength (front ++ [' ']) + 4) := by
    rw [htext, utf8_append, utf8_append printedBlock, Block.closingBraceIn?, ← length_utf8,
      List.drop_left, closeFrom_printedBlock]
    rfl
  have hslice : slice? (front ++ ' ' :: (printedBlock ++ rest)) (byteLength (front ++ [' ']))
      (byteLength (front ++ [' ']) + 4 + 1) = some printedBlock := by
    have hstop : byteLength (front ++ [' ']) + 4 + 1 =
        byteLength (front ++ [' '] ++ printedBlock) := by
      rw [byteLength_append (front ++ [' '])]
      rfl
    rw [htext, hstop, slice?_append]
  have hoffset : byteLength front + byteLength [' '] = byteLength (front ++ [' ']) :=
    (byteLength_append front [' ']).symm
  simp only [after?, Source.text_ofText, dropBytes?_append, Option.getD_some, hstart, hblanks]
  rw [hopen] at hclose hslice ⊢
  simp only [hoffset, textFrom, Source.text_ofText, Source.bytes_ofText, hclose, hslice]
  rfl

end Body

end Survey
