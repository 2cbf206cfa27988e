/-
# Lines of declarations

The line of a declaration is one more than the number of newlines in front of its match.  So every
line lies in the text, and members that are found one after the other stand on lines that do not go
down.

The lines of a body are those of its block, or of the rest of the text when no block closes.  The
block stands behind the match, and so the body of a method ends at the last line of the text at the
latest.
-/
import Survey.Proofs.Declaration.Checked
import Survey.Proofs.Declaration.Names
import Survey.Proofs.Pattern.Finds

namespace Survey

open Survey.Text

/-! ### Lines of places -/

/-- A line is one more than the number of newlines in front of a place of a text. -/
def LineAt (text : List Char) (offset line : Nat) : Prop :=
  ∃ front back, text = front ++ back ∧ byteLength front = offset ∧ line = 1 + newlineCount front

section

variable {text : List Char} {offset line : Nat}

lemma lineAt_lineOf (h : IsPlace text offset) :
    LineAt text offset ((LineIndex.ofText text).lineOf offset) := by
  obtain ⟨front, back, rfl, rfl⟩ := h
  exact ⟨front, back, rfl, rfl, lineOf_byteLength front back⟩

/-- The lines of a text are counted from one. -/
lemma LineAt.bounds (h : LineAt text offset line) : 1 ≤ line ∧ line ≤ 1 + newlineCount text := by
  obtain ⟨front, back, rfl, -, rfl⟩ := h
  rw [newlineCount, newlineCount, List.count_append]
  omega

/-- A match stands between what is in front of it and what is behind it. -/
lemma exists_parts_of_matchAt? {p : Pattern} {place : Cursor} {m : Match}
    (hplace : place.text = text) (h : p.matchAt? place = some m) :
    ∃ front head behind, text = front ++ (head ++ behind) ∧ byteLength front = m.start ∧
      byteLength (front ++ head) = m.stop := by
  obtain ⟨hstart, head, front, behind, hfront, hstop⟩ := Pattern.passes_of_matchAt? h
  refine ⟨front, head, behind, ?_, ?_, ?_⟩
  · rw [← hplace, hfront]
    simp [Cursor.text]
  · rw [Match.start, hstart, hfront, Cursor.offset_between]
  · rw [Match.stop, hstop, Cursor.offset_between]

end

/-! ### Lines of bodies -/

/-- The number of lines of the body that follows the head of a method: none when no brace is the
first character that is not blank, and otherwise those of the block that the brace opens, or of all
the rest when no block closes. -/
inductive BodyLines : List Char → Nat → Prop where
  | missing {behind : List Char} (hbrace : (trimStart behind).head? ≠ some '{') :
      BodyLines behind 0
  | closed {blanks body rest : List Char} (hblanks : ∀ c ∈ blanks, isBlank c = true)
      (hbrace : body.head? = some '{') (hbody : Block.IsBlock (utf8 body)) :
      BodyLines (blanks ++ (body ++ rest)) (1 + newlineCount body)
  | unclosed {blanks body : List Char} (hblanks : ∀ c ∈ blanks, isBlank c = true)
      (hbrace : body.head? = some '{')
      (hbody : ∀ bytes, bytes <+: utf8 body → ¬ Block.IsBlock bytes) :
      BodyLines (blanks ++ body) (1 + newlineCount body)

namespace BodyLines

variable {behind : List Char} {count : Nat}

lemma eq_zero_iff (h : BodyLines behind count) :
    count = 0 ↔ (trimStart behind).head? ≠ some '{' := by
  have hopen : ∀ {blanks body : List Char}, (∀ c ∈ blanks, isBlank c = true) →
      body.head? = some '{' → (trimStart (blanks ++ body)).head? = some '{' := by
    intro blanks body hblanks hbrace
    obtain ⟨rest, rfl⟩ := List.head?_eq_some_iff.1 hbrace
    rw [trimStart, (Cursor.takeWhile_append_stop hblanks (by simp; decide)).2]
    rfl
  cases h with
  | missing hbrace => exact iff_of_true rfl hbrace
  | closed hblanks hbrace =>
    exact iff_of_false (by omega) (not_not.2 (hopen hblanks (by simp [List.head?_append, hbrace])))
  | unclosed hblanks hbrace => exact iff_of_false (by omega) (not_not.2 (hopen hblanks hbrace))

/-- A body covers no more lines than what stands behind the head. -/
lemma le_newlineCount (h : BodyLines behind count) : count ≤ 1 + newlineCount behind := by
  cases h with
  | missing => exact Nat.zero_le _
  | closed =>
    simp only [newlineCount, List.count_append]
    omega
  | unclosed =>
    simp only [newlineCount, List.count_append]
    omega

end BodyLines

section

variable {front rest : List Char}

/-- What stands behind a front part begins at the byte length of that part. -/
lemma drop_utf8 (front rest : List Char) :
    (utf8 (front ++ rest)).drop (byteLength front) = utf8 rest := by
  rw [utf8_append, ← length_utf8, List.drop_left]

/-- The text of a closed block is a block of the grammar. -/
lemma isBlock_of_closingBraceIn? {close : Nat}
    (h : Block.closingBraceIn? (utf8 (front ++ '{' :: rest)) (byteLength front) = some close) :
    ∃ body more, '{' :: rest = body ++ more ∧ Block.IsBlock (utf8 body) ∧
      slice? (front ++ '{' :: rest) (byteLength front) (close + 1) = some body := by
  have hopen := Checked.getElem?_utf8_openBrace front rest
  obtain ⟨hle, -, hblock⟩ := (Block.closingBraceIn?_eq_some_iff hopen).1 h
  obtain ⟨-, hclose⟩ := Block.getElem?_of_closingBraceIn? hopen h
  have hstop := (isPlace_of_ascii (by decide) hclose).2
  obtain ⟨front', body, more, htext, hfront, hbody⟩ :=
    (isPlace_byteLength front ('{' :: rest)).exists_parts hstop (by omega)
  -- both cuts leave the same text behind them
  have hdrop := dropBytes?_append front ('{' :: rest)
  rw [htext, ← hfront, dropBytes?_append] at hdrop
  have hsame := (Option.some.inj hdrop).symm
  refine ⟨body, more, hsame, ?_, ?_⟩
  · have hlength : close + 1 - byteLength front = (utf8 body).length := by
      rw [byteLength_append, hfront] at hbody
      rw [length_utf8]
      omega
    rwa [Block.span, drop_utf8, hsame, utf8_append, hlength, List.take_left] at hblock
  · have hslice := slice?_append front' body more
    rwa [← htext, hfront, hbody] at hslice

/-- The body that is read behind a place covers the lines of its block. -/
lemma bodyLines_after? (front behind : List Char) :
    BodyLines behind
      (Body.lineCount (Body.after? (.ofText (front ++ behind)) (byteLength front))) := by
  have hsplit : behind.takeWhile isBlank ++ trimStart behind = behind :=
    List.takeWhile_append_dropWhile
  have hblanks : ∀ c ∈ behind.takeWhile isBlank, isBlank c = true :=
    fun c hc => List.mem_takeWhile_imp hc
  simp only [Body.after?, Source.text_ofText, dropBytes?_append, Option.getD_some]
  split
  · rename_i rest hopen
    generalize behind.takeWhile isBlank = blanks at hsplit hblanks ⊢
    rw [hopen] at hsplit
    subst hsplit
    rw [← List.append_assoc, ← byteLength_append, Body.lineCount, Nat.add_comm _ 1]
    simp only [Body.textFrom, Source.bytes_ofText, Source.text_ofText]
    cases hclose : Block.closingBraceIn? (utf8 (front ++ blanks ++ '{' :: rest))
        (byteLength (front ++ blanks)) with
    | some close =>
      obtain ⟨body, more, hbody, hblock, hslice⟩ := isBlock_of_closingBraceIn? hclose
      have hbrace : body.head? = some '{' := by
        cases body with
        | nil => cases hblock
        | cons c body => rw [(List.cons.inj hbody).1, List.head?_cons]
      simp only [hslice, Option.getD_some]
      rw [hbody]
      exact .closed hblanks hbrace hblock
    | none =>
      have hfinds := Block.closingBraceIn?_findsBlock _ _
        (Checked.getElem?_utf8_openBrace (front ++ blanks) rest)
      have hnone := hfinds.eq_none_iff.1 hclose
      rw [drop_utf8] at hnone
      simp only [dropBytes?_append, Option.getD_some]
      exact .unclosed hblanks rfl hnone
  · rename_i hopen
    refine .missing fun hbrace => ?_
    obtain ⟨rest, hrest⟩ := List.head?_eq_some_iff.1 hbrace
    exact hopen rest hrest

end

/-! ### Lines of members -/

/-- The lines of a method are those of its match: it starts on the line on which the match starts,
and its body covers the lines of the block behind the match. -/
structure MethodLines (text : List Char) (m : Match) (method : Method) : Prop where
  read : Method.ofMatch? (.ofText text) m = some method
  exists_parts : ∃ front head behind, text = front ++ (head ++ behind) ∧
    byteLength front = m.start ∧ byteLength (front ++ head) = m.stop ∧
    method.sourceLine = 1 + newlineCount front ∧ BodyLines behind method.bodyLineCount ∧
    (method.bodyLineCount = 0 ↔ (trimStart behind).head? ≠ some '{')

/-- A field starts on the line on which its match starts. -/
structure FieldLines (text : List Char) (m : Match) (field : Field) : Prop where
  read : Field.ofMatch? (.ofText text) m = some field
  lineAt : LineAt text m.start field.sourceLine

section

variable {text : List Char} {m : Match}

lemma methodLines_of_mem {method : Method} (hm : m ∈ Shape.method.findAll text)
    (h : Method.ofMatch? (.ofText text) m = some method) : MethodLines text m method := by
  obtain ⟨place, hplace, hmatch⟩ := Pattern.matchAt?_of_mem_findAll hm
  obtain ⟨front, head, behind, rfl, hstart, hstop⟩ := exists_parts_of_matchAt? hplace hmatch
  have hbody := bodyLines_after? (front ++ head) behind
  have hline := lineOf_byteLength front (head ++ behind)
  rw [List.append_assoc, hstop] at hbody
  rw [hstart] at hline
  refine ⟨h, front, head, behind, rfl, hstart, hstop, ?_⟩
  rw [Method.ofMatch?] at h
  split at h
  · cases h
  · rw [← Option.some.inj h]
    exact ⟨hline, hbody, hbody.eq_zero_iff⟩

lemma fieldLines_of_mem {field : Field} (hm : m ∈ Shape.field.findAll text)
    (h : Field.ofMatch? (.ofText text) m = some field) : FieldLines text m field := by
  obtain ⟨place, hplace, hmatch⟩ := Pattern.matchAt?_of_mem_findAll hm
  refine ⟨h, ?_⟩
  rw [Field.ofMatch?] at h
  split at h
  · cases h
  · rw [← Option.some.inj h]
    exact lineAt_lineOf (Checked.isPlace_of_matchAt? hplace hmatch).1

lemma MethodLines.lineAt {method : Method} (h : MethodLines text m method) :
    LineAt text m.start method.sourceLine := by
  obtain ⟨front, head, behind, rfl, hstart, -, hline, -⟩ := h.exists_parts
  exact ⟨front, head ++ behind, rfl, hstart, hline⟩

/-- The body of a method ends in the text. -/
lemma MethodLines.fits {method : Method} (h : MethodLines text m method) :
    method.sourceLine + method.bodyLineCount ≤ 1 + newlineCount text + 1 := by
  obtain ⟨front, head, behind, rfl, -, -, hline, hbody, -⟩ := h.exists_parts
  have hle := hbody.le_newlineCount
  rw [hline]
  simp only [newlineCount, List.count_append] at hle ⊢
  omega

lemma LineAt.le_of_le {offset offset' line line' : Nat} (h : LineAt text offset line)
    (h' : LineAt text offset' line') (hle : offset ≤ offset') : line ≤ line' := by
  obtain ⟨front, back, rfl, rfl, rfl⟩ := h
  obtain ⟨front', back', htext, rfl, rfl⟩ := h'
  rw [← lineOf_byteLength front back, ← lineOf_byteLength front' back', ← htext]
  exact LineIndex.lineOf_mono _ hle

/-- What is read from matches one after the other, beside the matches it is read from. -/
lemma forall₂_filterMap {α β : Type} {R : α → β → Prop} {l : List α} {f : α → Option β}
    (h : ∀ a ∈ l, ∀ b, f a = some b → R a b) :
    List.Forall₂ R (l.filter fun a => (f a).isSome) (l.filterMap f) := by
  induction l with
  | nil => exact .nil
  | cons a l ih =>
    have hrest := ih fun a' ha' => h a' (List.mem_cons_of_mem _ ha')
    cases hfa : f a with
    | none => simpa [hfa] using hrest
    | some b => simpa [hfa] using List.Forall₂.cons (h a (by simp) b hfa) hrest

/-- What is read from the matches of a shape stands on lines in the order of the matches. -/
lemma pairwise_lines {β : Type} {p : Pattern} {read : Match → Option β} {line : β → Nat}
    (h : ∀ m ∈ p.findAll text, ∀ b, read m = some b → LineAt text m.start (line b)) :
    ((p.findAll text).filterMap read).Pairwise fun b b' => line b ≤ line b' := by
  have hpairwise : (p.findAll text).Pairwise fun m m' => m.start ≤ m'.start := by
    refine (Pattern.pairwise_findAll p text).imp_of_mem fun hm _ hle => ?_
    obtain ⟨place, -, hmatch⟩ := Pattern.matchAt?_of_mem_findAll hm
    exact (Pattern.start_le_stop hmatch).trans hle
  rw [List.pairwise_filterMap]
  refine hpairwise.imp_of_mem fun hm hm' hle b hb b' hb' => ?_
  exact (h _ hm b hb).le_of_le (h _ hm' b' hb') hle

end

/-! ### Lines of a unit -/

/-- The lines of a type and of its members are those of the matches they were read from, in order
and inside the text. -/
structure LinesConsistent (text : List Char) (type : TypeDeclaration) : Prop where
  head : ∃ m, Shape.typeDeclaration.find? text = some m ∧ LineAt text m.start type.sourceLine
  methods : List.Forall₂ (MethodLines text)
    ((Shape.method.findAll text).filter fun m => (Method.ofMatch? (.ofText text) m).isSome)
    type.methods
  fields : List.Forall₂ (FieldLines text)
    ((Shape.field.findAll text).filter fun m => (Field.ofMatch? (.ofText text) m).isSome)
    type.fields
  head_bounds : 1 ≤ type.sourceLine ∧ type.sourceLine ≤ 1 + newlineCount text
  method_bounds : ∀ method ∈ type.methods,
    1 ≤ method.sourceLine ∧ method.sourceLine ≤ 1 + newlineCount text
  field_bounds : ∀ field ∈ type.fields,
    1 ≤ field.sourceLine ∧ field.sourceLine ≤ 1 + newlineCount text
  methods_ordered : type.methods.Pairwise fun method method' =>
    method.sourceLine ≤ method'.sourceLine
  fields_ordered : type.fields.Pairwise fun field field' => field.sourceLine ≤ field'.sourceLine
  bodies_fit : ∀ method ∈ type.methods,
    method.sourceLine + method.bodyLineCount ≤ 1 + newlineCount text + 1

namespace TypeDeclaration

/-- **The lines of a unit are consistent.**  For every unit that can be read, the lines of the type
and of its members are those of their matches, they lie in the text and never go down, and no body
goes past the last line. -/
theorem linesConsistent_of_parse {source path : String} {type : TypeDeclaration}
    (h : parse source path = .ok type) : LinesConsistent source.toList type := by
  obtain ⟨kind, m, hfind, -, rfl⟩ := eq_ofMatch_of_parse h
  obtain ⟨place, hplace, hmatch⟩ := Pattern.matchAt?_of_find? hfind
  have hhead : LineAt source.toList m.start
      ((ofMatch source.toList path kind m).sourceLine) :=
    lineAt_lineOf (Checked.isPlace_of_matchAt? hplace hmatch).1
  constructor
  case head => exact ⟨m, hfind, hhead⟩
  case methods => exact forall₂_filterMap fun m hm _ => methodLines_of_mem hm
  case fields => exact forall₂_filterMap fun m hm _ => fieldLines_of_mem hm
  case head_bounds => exact hhead.bounds
  case method_bounds =>
    intro method hmethod
    obtain ⟨m, hm, hread⟩ := List.mem_filterMap.1 hmethod
    exact (methodLines_of_mem hm hread).lineAt.bounds
  case field_bounds =>
    intro field hfield
    obtain ⟨m, hm, hread⟩ := List.mem_filterMap.1 hfield
    exact (fieldLines_of_mem hm hread).lineAt.bounds
  case methods_ordered => exact pairwise_lines fun m hm _ hread => (methodLines_of_mem hm hread).lineAt
  case fields_ordered => exact pairwise_lines fun m hm _ hread => (fieldLines_of_mem hm hread).lineAt
  case bodies_fit =>
    intro method hmethod
    obtain ⟨m, hm, hread⟩ := List.mem_filterMap.1 hmethod
    exact (methodLines_of_mem hm hread).fits

/-- A unit that ends inside the body of its method, without a newline. -/
def unclosedUnit : String := "class C \x7b\n  int n;\n  void run()\n  \x7b\n    go("

theorem linesConsistent_unclosedBody :
    ∃ type, parse unclosedUnit "C.java" = .ok type ∧
      type.fields.map Field.sourceLine = [2] ∧
      type.methods.map (fun method => (method.sourceLine, method.bodyLineCount)) = [(3, 2)] ∧
      LinesConsistent unclosedUnit.toList type := by
  have hlines : (parse? unclosedUnit "C.java").map
      (fun type => (type.fields.map Field.sourceLine,
        type.methods.map fun method => (method.sourceLine, method.bodyLineCount)))
      = some ([2], [(3, 2)]) := by
    decide +kernel
  obtain ⟨type, hsome, hpair⟩ := Option.map_eq_some_iff.1 hlines
  obtain ⟨hfields, hmethods⟩ := Prod.mk.inj hpair
  have hparse : parse unclosedUnit "C.java" = .ok type := by
    rw [parse?] at hsome
    cases hresult : parse unclosedUnit "C.java" with
    | error failure =>
      rw [hresult] at hsome
      cases hsome
    | ok read =>
      rw [hresult] at hsome
      exact congrArg Except.ok (Option.some.inj hsome)
  exact ⟨type, hparse, hfields, hmethods, linesConsistent_of_parse hparse⟩

end TypeDeclaration

end Survey
