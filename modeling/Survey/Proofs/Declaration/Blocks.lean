/-
# The grammar of blocks

A block is an opening brace, items, and a closing brace.  An item is a block, a literal, a comment,
or any other byte.  The search for the closing brace knows no grammar: it reads one byte after the
other and keeps the kind of text it is in and the number of open blocks.  This file proves that the
search finds the blocks of the grammar and nothing else.

What the search still waits for is a text in both respects: a kind of text waits for what brings it
back to code (`Ends`), and a number of open blocks waits for as many closing braces with items
before them (`Closes`).  Reading one byte shortens that text by one byte.
-/
import Mathlib.Data.List.Infix
import Survey.Declaration.Block

namespace Survey.Block

/-! ### The grammar -/

/-- The bytes that open a literal and close it again. -/
def IsQuote (b : UInt8) : Prop :=
  b = doubleQuote ∨ b = singleQuote

/-- A literal behind its opening quote: escaped and plain bytes, then the quote or a newline. -/
inductive LiteralRest (quote : UInt8) : List UInt8 → Prop where
  | quoted : LiteralRest quote [quote]
  | broken : LiteralRest quote [newline]
  | escaped (b : UInt8) {rest : List UInt8} (hrest : LiteralRest quote rest) :
      LiteralRest quote (backslash :: b :: rest)
  | plain {b : UInt8} {rest : List UInt8} (hquote : b ≠ quote) (hnewline : b ≠ newline)
      (hbackslash : b ≠ backslash) (hrest : LiteralRest quote rest) :
      LiteralRest quote (b :: rest)

/-- The rest of a line with its newline. -/
def IsLineRest (text : List UInt8) : Prop :=
  ∃ body, newline ∉ body ∧ text = body ++ [newline]

/-- A text up to its first `*/`, with it. -/
def IsCommentRest (text : List UInt8) : Prop :=
  ∃ body, ¬ [star, slash] <:+: body ∧ text = body ++ [star, slash]

/-- A literal: a quote and what follows it up to its end. -/
inductive IsLiteral : List UInt8 → Prop where
  | mk {quote : UInt8} {rest : List UInt8} (hquote : IsQuote quote)
      (hrest : LiteralRest quote rest) : IsLiteral (quote :: rest)

/-- A comment: `//` and the rest of the line, or `/*` and the text up to the next `*/`. -/
inductive IsComment : List UInt8 → Prop where
  | line {text : List UInt8} (htext : IsLineRest text) : IsComment (slash :: slash :: text)
  | block {text : List UInt8} (htext : IsCommentRest text) : IsComment (slash :: star :: text)

/-- A sequence of items: blocks, literals, comments and other bytes.  A slash is such a byte only if
no slash and no star follows it. -/
inductive Items : List UInt8 → Prop where
  | nil : Items []
  | block {items rest : List UInt8} (hitems : Items items) (hrest : Items rest) :
      Items (openBrace :: (items ++ closeBrace :: rest))
  | literal {text rest : List UInt8} (htext : IsLiteral text) (hrest : Items rest) :
      Items (text ++ rest)
  | comment {text rest : List UInt8} (htext : IsComment text) (hrest : Items rest) :
      Items (text ++ rest)
  | other {b : UInt8} {rest : List UInt8} (hopen : b ≠ openBrace) (hclose : b ≠ closeBrace)
      (hquote : ¬ IsQuote b)
      (hslash : b = slash → rest.head? ≠ some slash ∧ rest.head? ≠ some star)
      (hrest : Items rest) : Items (b :: rest)

/-- A block: items between braces. -/
inductive IsBlock : List UInt8 → Prop where
  | mk {items : List UInt8} (hitems : Items items) : IsBlock (openBrace :: (items ++ [closeBrace]))

/-! ### Literals and comments

The text that a kind of text waits for is known byte by byte.
-/

/-- The texts that lead from a kind of text back to code, and no further. -/
def Ends : Mode → List UInt8 → Prop
  | .code, text => text = []
  | .literal quote, text => LiteralRest quote text
  | .escape quote, text => ∃ b rest, text = b :: rest ∧ LiteralRest quote rest
  | .lineComment, text => IsLineRest text
  | .blockOpening, text => ∃ b rest, text = b :: rest ∧ IsCommentRest rest
  | .blockComment, text => IsCommentRest text
  | .blockClosing, text => ∃ b, text = [b]

/-- A literal waits for a quote. -/
def HasQuote : Mode → Prop
  | .literal quote => IsQuote quote
  | .escape quote => IsQuote quote
  | _ => True

variable {b quote : UInt8} {text rest bytes : List UInt8} {mode : Mode} {following : Option UInt8}
  {depth n : Nat}

lemma IsQuote.ne_backslash (h : IsQuote quote) : backslash ≠ quote := by
  rcases h with rfl | rfl <;> decide

lemma literalRest_cons_iff (hquote : IsQuote quote) :
    LiteralRest quote (b :: text) ↔
      if b = quote ∨ b = newline then text = []
      else if b = backslash then ∃ c rest, text = c :: rest ∧ LiteralRest quote rest
      else LiteralRest quote text := by
  constructor
  · rintro (_ | _ | ⟨c, hrest⟩ | ⟨hne, hnewline, hbackslash, hrest⟩)
    · simp
    · simp
    · rw [if_neg (not_or.2 ⟨hquote.ne_backslash, by decide⟩), if_pos rfl]
      exact ⟨c, _, rfl, hrest⟩
    · rwa [if_neg (not_or.2 ⟨hne, hnewline⟩), if_neg hbackslash]
  · intro h
    split_ifs at h with hend hbackslash
    · obtain rfl | rfl := hend <;> subst h
      · exact .quoted
      · exact .broken
    · obtain ⟨c, rest, rfl, hrest⟩ := h
      exact hbackslash ▸ .escaped c hrest
    · exact .plain (fun heq => hend (.inl heq)) (fun heq => hend (.inr heq)) hbackslash h

lemma isLineRest_cons_iff :
    IsLineRest (b :: text) ↔ if b = newline then text = [] else IsLineRest text := by
  constructor
  · rintro ⟨_ | ⟨c, body⟩, hbody, htext⟩
    · obtain ⟨rfl, rfl⟩ := List.cons.inj htext
      simp
    · obtain ⟨rfl, rfl⟩ := List.cons.inj htext
      rw [List.mem_cons, not_or] at hbody
      rw [if_neg (Ne.symm hbody.1)]
      exact ⟨body, hbody.2, rfl⟩
  · intro h
    split_ifs at h with hnewline
    · exact ⟨[], List.not_mem_nil, by simp [hnewline, h]⟩
    · obtain ⟨body, hbody, rfl⟩ := h
      exact ⟨b :: body, by simpa [Ne.symm hnewline] using hbody, rfl⟩

/-- The two bytes `*/` begin a text or stand behind its first byte. -/
lemma closing_infix_cons_iff :
    [star, slash] <:+: b :: text ↔
      (b = star ∧ text.head? = some slash) ∨ [star, slash] <:+: text := by
  rw [List.infix_cons_iff, List.cons_prefix_cons]
  cases text <;> simp [eq_comm (a := slash), eq_comm (a := star)]

lemma isCommentRest_cons_iff :
    IsCommentRest (b :: text) ↔
      if b = star ∧ text.head? = some slash then text = [slash] else IsCommentRest text := by
  constructor
  · rintro ⟨_ | ⟨c, body⟩, hbody, htext⟩
    · obtain ⟨rfl, rfl⟩ := List.cons.inj htext
      simp
    · obtain ⟨rfl, rfl⟩ := List.cons.inj htext
      rw [closing_infix_cons_iff, not_or] at hbody
      -- behind `body` stands a star, which is no slash
      have hne : ¬ (b = star ∧ (body ++ [star, slash]).head? = some slash) := by
        cases body with
        | nil => simp [star, slash]
        | cons c body => simpa using hbody.1
      exact (if_neg hne).symm ▸ ⟨body, hbody.2, rfl⟩
  · intro h
    split_ifs at h with hclosing
    · obtain ⟨rfl, -⟩ := hclosing
      exact ⟨[], by simp, by simp [h]⟩
    · obtain ⟨body, hbody, rfl⟩ := h
      refine ⟨b :: body, ?_, rfl⟩
      rw [closing_infix_cons_iff, not_or]
      refine ⟨?_, hbody⟩
      cases body with
      | nil => simp
      | cons c body => simpa using hclosing

lemma not_ends_nil (hmode : mode ≠ .code) : ¬ Ends mode [] := by
  cases mode with
  | code => exact absurd rfl hmode
  | literal quote => rintro ⟨⟩
  | escape quote => rintro ⟨b, rest, h, -⟩; cases h
  | lineComment => rintro ⟨body, -, h⟩; simp at h
  | blockOpening => rintro ⟨b, rest, h, -⟩; cases h
  | blockComment => rintro ⟨body, -, h⟩; simp at h
  | blockClosing => rintro ⟨b, h⟩; cases h

lemma HasQuote.next (h : HasQuote mode) : HasQuote (mode.next b following) := by
  cases mode with
  | code =>
    simp only [Mode.next, Mode.afterCode]
    split_ifs with hquote
    exacts [hquote, trivial, trivial, trivial]
  | literal quote =>
    simp only [Mode.next]
    split_ifs
    exacts [trivial, h, h]
  | escape quote => exact h
  | lineComment => simp only [Mode.next]; split_ifs <;> trivial
  | blockOpening => trivial
  | blockComment => simp only [Mode.next]; split_ifs <;> trivial
  | blockClosing => trivial

lemma hasQuote_afterCode (b : UInt8) (following : Option UInt8) :
    HasQuote (.afterCode b following) :=
  have hcode : HasQuote .code := trivial
  hcode.next

/-- One byte of a literal or a comment, whatever stands behind its end. -/
lemma ends_cons_iff (hmode : mode ≠ .code) (hquote : HasQuote mode) :
    Ends mode (b :: text) ↔ Ends (mode.next b (text ++ rest).head?) text := by
  cases mode with
  | code => exact absurd rfl hmode
  | literal quote =>
    simp only [Ends, Mode.next, literalRest_cons_iff hquote]
    split_ifs <;> rfl
  | escape quote => simp [Ends, Mode.next]
  | lineComment =>
    simp only [Ends, Mode.next, isLineRest_cons_iff]
    split_ifs <;> rfl
  | blockOpening => simp [Ends, Mode.next]
  | blockComment =>
    change _ ↔ Ends (if b = star ∧ (text ++ rest).head? = some slash then .blockClosing
      else .blockComment) text
    cases text with
    | nil =>
      -- a star at the end of the text is not the end of the comment, even with a slash behind it
      exact iff_of_false (by simpa [Ends, isCommentRest_cons_iff] using not_ends_nil hmode)
        (not_ends_nil (by split_ifs <;> simp))
    | cons c text =>
      rw [Ends, isCommentRest_cons_iff, List.head?_cons, List.cons_append, List.head?_cons]
      split_ifs with hclosing
      · simp [Ends, Option.some.inj hclosing.2]
      · rfl
  | blockClosing => simp [Ends, Mode.next]

/-- Two parts of a text that are read one after the other. -/
lemma map_add_map_add (i j : Nat) (answer : Option Nat) :
    (answer.map (j + ·)).map (i + ·) = answer.map (i + j + ·) := by
  cases answer <;> simp [Nat.add_assoc]

lemma closeFrom_cons_of_ne_code (hmode : mode ≠ .code) :
    closeFrom mode depth (b :: rest)
      = (closeFrom (mode.next b rest.head?) depth rest).map (1 + ·) := by
  simp [closeFrom, hmode, Nat.add_comm]

/-- A literal or a comment up to its end is passed over, at any depth. -/
lemma closeFrom_append_of_ends (hquote : HasQuote mode) (htext : Ends mode text) :
    closeFrom mode depth (text ++ rest) = (closeFrom .code depth rest).map (text.length + ·) := by
  induction text generalizing mode with
  | nil =>
    obtain rfl : mode = .code := by_contra fun hmode => not_ends_nil hmode htext
    simp
  | cons b text ih =>
    have hmode : mode ≠ .code := by rintro rfl; cases htext
    rw [ends_cons_iff hmode hquote] at htext
    rw [List.cons_append, closeFrom_cons_of_ne_code hmode, ih hquote.next htext, map_add_map_add,
      List.length_cons, Nat.add_comm text.length]

/-- If the search comes to an end, then the literal or comment that it is in does. -/
lemma exists_ends_of_closeFrom (hquote : HasQuote mode) (h : closeFrom mode depth bytes = some n) :
    ∃ text rest, bytes = text ++ rest ∧ Ends mode text := by
  induction bytes generalizing mode n with
  | nil => simp [closeFrom] at h
  | cons b bytes ih =>
    by_cases hmode : mode = .code
    · exact ⟨[], b :: bytes, rfl, by rw [hmode, Ends]⟩
    · rw [closeFrom_cons_of_ne_code hmode, Option.map_eq_some_iff] at h
      obtain ⟨m, hm, -⟩ := h
      obtain ⟨text, rest, rfl, htext⟩ := ih hquote.next hm
      exact ⟨b :: text, rest, rfl, (ends_cons_iff hmode hquote).2 htext⟩

/-! ### Items -/

lemma closeFrom_openBrace :
    closeFrom .code depth (openBrace :: rest) = (closeFrom .code (depth + 1) rest).map (1 + ·) := by
  simp [closeFrom, Nat.add_comm, Mode.next, Mode.afterCode, openBrace, doubleQuote, singleQuote,
    slash]

lemma closeFrom_closeBrace_one : closeFrom .code 1 (closeBrace :: rest) = some 0 := by
  simp [closeFrom, openBrace, closeBrace]

lemma closeFrom_closeBrace :
    closeFrom .code (depth + 2) (closeBrace :: rest)
      = (closeFrom .code (depth + 1) rest).map (1 + ·) := by
  simp [closeFrom, Nat.add_comm, Mode.next, Mode.afterCode, openBrace, closeBrace, doubleQuote,
    singleQuote, slash]

lemma closeFrom_cons (hopen : b ≠ openBrace) (hclose : b ≠ closeBrace) :
    closeFrom .code depth (b :: rest)
      = (closeFrom (.afterCode b rest.head?) depth rest).map (1 + ·) := by
  simp [closeFrom, Nat.add_comm, Mode.next, hopen, hclose]

/-- A byte of code that is no brace begins a literal, a comment, or neither. -/
lemma afterCode_cases (b : UInt8) (following : Option UInt8) :
    (IsQuote b ∧ Mode.afterCode b following = .literal b) ∨
    (b = slash ∧ following = some slash ∧ Mode.afterCode b following = .lineComment) ∨
    (b = slash ∧ following = some star ∧ Mode.afterCode b following = .blockOpening) ∨
    (¬ IsQuote b ∧ (b = slash → following ≠ some slash ∧ following ≠ some star) ∧
      Mode.afterCode b following = .code) := by
  rw [Mode.afterCode]
  split_ifs with hquote hline hblock
  · exact .inl ⟨hquote, rfl⟩
  · exact .inr (.inl ⟨hline.1, hline.2, rfl⟩)
  · exact .inr (.inr (.inl ⟨hblock.1, hblock.2, rfl⟩))
  · refine .inr (.inr (.inr ⟨hquote, fun heq => ⟨?_, ?_⟩, rfl⟩))
    · exact fun hnext => hline ⟨heq, hnext⟩
    · exact fun hnext => hblock ⟨heq, hnext⟩

lemma IsQuote.ne_braces (h : IsQuote b) : b ≠ openBrace ∧ b ≠ closeBrace := by
  rcases h with rfl | rfl <;> decide

/-- Literals and comments, by the kind of text that their first byte leads to. -/
lemma ends_afterCode_iff :
    Ends (.afterCode b (text ++ rest).head?) text ↔
      IsLiteral (b :: text) ∨ IsComment (b :: text) ∨
        (text = [] ∧ ¬ IsQuote b ∧
          (b = slash → rest.head? ≠ some slash ∧ rest.head? ≠ some star)) := by
  have hslash : ¬ IsQuote slash := by rintro (h | h) <;> cases h
  constructor
  · intro htext
    rcases afterCode_cases b (text ++ rest).head? with
      ⟨hquote, hmode⟩ | ⟨rfl, hnext, hmode⟩ | ⟨rfl, hnext, hmode⟩ | ⟨hquote, hother, hmode⟩
    all_goals rw [hmode] at htext
    · exact .inl ⟨hquote, htext⟩
    · cases text with
      | nil => exact absurd htext (not_ends_nil (by simp))
      | cons c text =>
        obtain rfl : c = slash := Option.some.inj hnext
        rw [Ends, isLineRest_cons_iff, if_neg (by decide)] at htext
        exact .inr (.inl (.line htext))
    · obtain ⟨c, text, rfl, htext⟩ := htext
      obtain rfl : c = star := Option.some.inj hnext
      exact .inr (.inl (.block htext))
    · obtain rfl : text = [] := htext
      exact .inr (.inr ⟨rfl, hquote, hother⟩)
  · rintro (⟨hquote, htext⟩ | htext | ⟨rfl, hquote, hother⟩)
    · rwa [Mode.afterCode, if_pos (by exact hquote)]
    · cases htext with
      | line htext =>
        change IsLineRest (slash :: _)
        rwa [isLineRest_cons_iff, if_neg (by decide)]
      | block htext => exact ⟨star, _, rfl, htext⟩
    · rcases afterCode_cases b rest.head? with
        ⟨h, -⟩ | ⟨rfl, h, -⟩ | ⟨rfl, h, -⟩ | ⟨-, -, hmode⟩
      · exact absurd h hquote
      · exact absurd h (hother rfl).1
      · exact absurd h (hother rfl).2
      · rw [List.nil_append, hmode, Ends]

/-- A literal, a comment or another byte is passed over, at any depth. -/
lemma closeFrom_cons_append (hopen : b ≠ openBrace) (hclose : b ≠ closeBrace)
    (htext : Ends (.afterCode b (text ++ rest).head?) text) :
    closeFrom .code depth (b :: text ++ rest)
      = (closeFrom .code depth rest).map ((b :: text).length + ·) := by
  rw [List.cons_append, closeFrom_cons hopen hclose,
    closeFrom_append_of_ends (hasQuote_afterCode _ _) htext, map_add_map_add, List.length_cons,
    Nat.add_comm text.length]

lemma IsLiteral.closeFrom_append (h : IsLiteral text) :
    closeFrom .code depth (text ++ rest) = (closeFrom .code depth rest).map (text.length + ·) := by
  cases h with
  | mk hquote htext =>
    exact closeFrom_cons_append hquote.ne_braces.1 hquote.ne_braces.2
      (ends_afterCode_iff.2 (.inl ⟨hquote, htext⟩))

lemma IsComment.closeFrom_append (h : IsComment text) :
    closeFrom .code depth (text ++ rest) = (closeFrom .code depth rest).map (text.length + ·) := by
  cases h with
  | line htext =>
    exact closeFrom_cons_append (by decide) (by decide)
      (ends_afterCode_iff.2 (.inr (.inl (.line htext))))
  | block htext =>
    exact closeFrom_cons_append (by decide) (by decide)
      (ends_afterCode_iff.2 (.inr (.inl (.block htext))))

/-- A closing brace makes no comment of a slash in front of it. -/
lemma head?_closeBrace_ne (rest : List UInt8) :
    (closeBrace :: rest).head? ≠ some slash ∧ (closeBrace :: rest).head? ≠ some star := by
  simp [closeBrace, slash, star]

/-- Inside a block, items are passed over.  What follows them may not make a comment of a slash at
their end. -/
lemma Items.closeFrom_append (h : Items text)
    (hrest : rest.head? ≠ some slash ∧ rest.head? ≠ some star) :
    closeFrom .code (depth + 1) (text ++ rest)
      = (closeFrom .code (depth + 1) rest).map (text.length + ·) := by
  induction h generalizing rest depth with
  | nil => simp
  | @block items after hitems hafter ihitems ihafter =>
    have hlength : (openBrace :: (items ++ closeBrace :: after)).length
        = 1 + (items.length + (1 + after.length)) := by
      simp only [List.length_cons, List.length_append]
      omega
    rw [List.cons_append, List.append_assoc, List.cons_append, closeFrom_openBrace,
      ihitems (head?_closeBrace_ne _), closeFrom_closeBrace, ihafter hrest, hlength]
    simp only [map_add_map_add]
  | literal hliteral hafter ih =>
    rw [List.append_assoc, hliteral.closeFrom_append, ih hrest, map_add_map_add, List.length_append]
  | comment hcomment hafter ih =>
    rw [List.append_assoc, hcomment.closeFrom_append, ih hrest, map_add_map_add, List.length_append]
  | @other b after hopen hclose hquote hslash hafter ih =>
    -- behind the last item stands the first byte of `rest`
    have hnext : b = slash →
        (after ++ rest).head? ≠ some slash ∧ (after ++ rest).head? ≠ some star := by
      cases after with
      | nil => exact fun _ => hrest
      | cons c after => exact hslash
    have hmode : Ends (.afterCode b ([] ++ (after ++ rest)).head?) [] :=
      ends_afterCode_iff.2 (.inr (.inr ⟨rfl, hquote, hnext⟩))
    rw [List.cons_append, ← List.nil_append (after ++ rest), ← List.cons_append,
      closeFrom_cons_append hopen hclose hmode, ih hrest, map_add_map_add, ← List.length_append,
      List.singleton_append]

/-- The brace that closes a block is its last byte. -/
lemma IsBlock.closeFrom_append (h : IsBlock text) :
    closeFrom .code 0 (text ++ rest) = some (text.length - 1) := by
  obtain ⟨hitems⟩ := h
  rw [List.cons_append, List.append_assoc, List.singleton_append, closeFrom_openBrace,
    hitems.closeFrom_append (head?_closeBrace_ne rest), closeFrom_closeBrace_one]
  simp [Nat.add_comm]

/-! ### Open blocks -/

/-- The texts that close so many open blocks and no more: for each, items and a closing brace. -/
inductive Closes : Nat → List UInt8 → Prop where
  | done : Closes 0 []
  | closed {depth : Nat} {items rest : List UInt8} (hitems : Items items)
      (hrest : Closes depth rest) : Closes (depth + 1) (items ++ closeBrace :: rest)

/-- An item before a text that closes some blocks. -/
lemma Closes.append {item : List UInt8} (h : Closes (depth + 1) text)
    (hitem : ∀ items, items <+: text → Items items → Items (item ++ items)) :
    Closes (depth + 1) (item ++ text) := by
  cases h with
  | closed hitems hrest =>
    rw [← List.append_assoc]
    exact .closed (hitem _ (List.prefix_append _ _) hitems) hrest

/-- An opening brace before a text that closes one block more. -/
lemma Closes.openBrace_cons (h : Closes (depth + 2) text) :
    Closes (depth + 1) (openBrace :: text) := by
  cases h with
  | @closed _ inner _ hinner h =>
    cases h with
    | @closed _ items rest hitems hrest =>
      have hblock : Closes (depth + 1)
          (openBrace :: (inner ++ closeBrace :: items) ++ closeBrace :: rest) :=
        .closed (.block hinner hitems) hrest
      simpa only [List.cons_append, List.append_assoc] using hblock

/-- If the search comes to an end, then it has read a text that closes the open blocks. -/
lemma exists_closes_of_closeFrom (h : closeFrom .code (depth + 1) bytes = some n) :
    ∃ text rest, bytes = text ++ rest ∧ Closes (depth + 1) text := by
  -- an item is read as a whole, so the induction is on the number of bytes
  induction hlength : bytes.length using Nat.strong_induction_on generalizing bytes depth n with
  | _ length ih =>
  subst hlength
  cases bytes with
  | nil => simp [closeFrom] at h
  | cons b bytes =>
    by_cases hopen : b = openBrace
    · subst hopen
      rw [closeFrom_openBrace, Option.map_eq_some_iff] at h
      obtain ⟨m, hm, -⟩ := h
      obtain ⟨text, rest, rfl, htext⟩ := ih _ (by simp) hm rfl
      exact ⟨_, rest, rfl, htext.openBrace_cons⟩
    by_cases hclose : b = closeBrace
    · subst hclose
      cases depth with
      | zero => exact ⟨[closeBrace], bytes, rfl, .closed .nil .done⟩
      | succ depth =>
        rw [closeFrom_closeBrace, Option.map_eq_some_iff] at h
        obtain ⟨m, hm, -⟩ := h
        obtain ⟨text, rest, rfl, htext⟩ := ih _ (by simp) hm rfl
        exact ⟨_, rest, rfl, .closed .nil htext⟩
    -- a literal, a comment or another byte, and what is read behind it
    have hread := h
    rw [closeFrom_cons hopen hclose, Option.map_eq_some_iff] at hread
    obtain ⟨m, hm, -⟩ := hread
    obtain ⟨text, after, rfl, hends⟩ := exists_ends_of_closeFrom (hasQuote_afterCode _ _) hm
    rw [← List.cons_append, closeFrom_cons_append hopen hclose hends, Option.map_eq_some_iff] at h
    obtain ⟨k, hk, -⟩ := h
    have hshorter : after.length < (b :: (text ++ after)).length := by
      simp only [List.length_cons, List.length_append]
      omega
    obtain ⟨closing, rest, rfl, hclosing⟩ := ih _ hshorter hk rfl
    refine ⟨(b :: text) ++ closing, rest, by simp, hclosing.append fun items hprefix hitems => ?_⟩
    rcases ends_afterCode_iff.1 hends with hliteral | hcomment | ⟨rfl, hplain, hslash⟩
    · exact .literal hliteral hitems
    · exact .comment hcomment hitems
    · -- the byte behind a slash is the first of the items, or there are none
      obtain ⟨tail, rfl⟩ := hprefix
      have hhead : ∀ c, items.head? = some c → (items ++ tail ++ rest).head? = some c := by
        intro c hc
        simp [List.head?_append, hc]
      exact .other hopen hclose hplain
        (fun heq => ⟨fun hc => (hslash heq).1 (hhead _ hc), fun hc => (hslash heq).2 (hhead _ hc)⟩)
        hitems

/-! ### The search -/

lemma IsBlock.length_pos (h : IsBlock text) : 0 < text.length := by
  cases h
  simp

/-- If the search comes to an end, then it has read a block. -/
lemma exists_isBlock_of_closeFrom (hopen : bytes.head? = some openBrace)
    (h : closeFrom .code 0 bytes = some n) :
    ∃ text rest, bytes = text ++ rest ∧ IsBlock text := by
  obtain ⟨tail, rfl⟩ : ∃ tail, bytes = openBrace :: tail := List.head?_eq_some_iff.1 hopen
  rw [closeFrom_openBrace, Option.map_eq_some_iff] at h
  obtain ⟨m, hm, -⟩ := h
  obtain ⟨text, rest, rfl, hcloses⟩ := exists_closes_of_closeFrom hm
  cases hcloses with
  | @closed _ items _ hitems hdone =>
    cases hdone
    exact ⟨openBrace :: (items ++ [closeBrace]), rest, rfl, ⟨hitems⟩⟩

/-- The search finds the last byte of the block that the bytes begin with. -/
lemma closeFrom_eq_some_iff (hopen : bytes.head? = some openBrace) :
    closeFrom .code 0 bytes = some n ↔ n < bytes.length ∧ IsBlock (bytes.take (n + 1)) := by
  constructor
  · intro h
    obtain ⟨text, rest, rfl, hblock⟩ := exists_isBlock_of_closeFrom hopen h
    rw [hblock.closeFrom_append, Option.some.injEq] at h
    have hpos := hblock.length_pos
    have hlength : n + 1 = text.length := by omega
    rw [hlength, List.take_left, List.length_append]
    exact ⟨by omega, hblock⟩
  · rintro ⟨hlt, hblock⟩
    have h : closeFrom .code 0 (bytes.take (n + 1) ++ bytes.drop (n + 1))
        = some ((bytes.take (n + 1)).length - 1) := hblock.closeFrom_append
    rw [List.take_append_drop, List.length_take] at h
    rw [h]
    congr 1
    omega

/-- The search finds nothing exactly if the bytes begin with no block. -/
lemma closeFrom_eq_none_iff (hopen : bytes.head? = some openBrace) :
    closeFrom .code 0 bytes = none ↔ ∀ text, text <+: bytes → ¬ IsBlock text := by
  constructor
  · rintro h text ⟨rest, rfl⟩ hblock
    rw [hblock.closeFrom_append] at h
    cases h
  · intro h
    by_contra hsome
    obtain ⟨n, hn⟩ := Option.ne_none_iff_exists'.1 hsome
    obtain ⟨text, rest, rfl, hblock⟩ := exists_isBlock_of_closeFrom hopen hn
    exact h text (List.prefix_append text rest) hblock

/-- The bytes from one offset to another, with both ends. -/
def span (bytes : List UInt8) (start stop : Nat) : List UInt8 :=
  (bytes.drop start).take (stop + 1 - start)

/-- The bytes from one offset to another exist and are a block. -/
structure BlockAt (bytes : List UInt8) (start stop : Nat) : Prop where
  start_le : start ≤ stop
  stop_lt : stop < bytes.length
  isBlock : IsBlock (span bytes start stop)

/-- What the search for the end of the block at an offset answers, and what this depends on. -/
structure FindsBlock (bytes : List UInt8) (start : Nat) : Prop where
  /-- It finds the end of the block. -/
  eq_some_iff : ∀ stop, closingBraceIn? bytes start = some stop ↔ BlockAt bytes start stop
  /-- A block has one end. -/
  unique : ∀ stop stop', BlockAt bytes start stop → BlockAt bytes start stop' → stop = stop'
  /-- It finds nothing exactly if no text from the offset on is a block. -/
  eq_none_iff : closingBraceIn? bytes start = none ↔
    ∀ text, text <+: bytes.drop start → ¬ IsBlock text
  /-- Bytes before the offset do not matter. -/
  drop_eq : ∀ front, closingBraceIn? (front ++ bytes.drop start) front.length
    = (closingBraceIn? bytes start).map fun stop => front.length + (stop - start)
  /-- Bytes behind the end do not matter either. -/
  span_eq : ∀ stop, closingBraceIn? bytes start = some stop →
    ∀ front back, closingBraceIn? (front ++ span bytes start stop ++ back) front.length
      = some (front.length + (stop - start))

lemma closingBraceIn?_eq_some_iff {start stop : Nat} (hopen : bytes[start]? = some openBrace) :
    closingBraceIn? bytes start = some stop ↔ BlockAt bytes start stop := by
  have hhead : (bytes.drop start).head? = some openBrace := by rwa [List.head?_drop]
  rw [closingBraceIn?, Option.map_eq_some_iff]
  constructor
  · rintro ⟨n, hn, rfl⟩
    obtain ⟨hlt, hblock⟩ := (closeFrom_eq_some_iff hhead).1 hn
    rw [List.length_drop] at hlt
    have hcount : start + n + 1 - start = n + 1 := by omega
    exact ⟨by omega, by omega, by rwa [span, hcount]⟩
  · rintro ⟨hle, hlt, hblock⟩
    have hcount : stop + 1 - start = stop - start + 1 := by omega
    rw [span, hcount] at hblock
    have hn := (closeFrom_eq_some_iff hhead).2 ⟨by rw [List.length_drop]; omega, hblock⟩
    exact ⟨stop - start, hn, by omega⟩

/-- The search at the end of some bytes reads what follows them. -/
lemma closingBraceIn?_append_length (front bytes : List UInt8) :
    closingBraceIn? (front ++ bytes) front.length
      = (closeFrom .code 0 bytes).map (front.length + ·) := by
  rw [closingBraceIn?, List.drop_left]

/-- **The search finds the blocks.**  At every opening brace, the search for the closing brace finds
exactly the end of the block of the grammar that begins there.  There is at most one; the search
finds nothing exactly if there is none; and bytes before the block or behind it do not matter. -/
theorem closingBraceIn?_findsBlock (bytes : List UInt8) (start : Nat)
    (hopen : bytes[start]? = some openBrace) : FindsBlock bytes start := by
  have hhead : (bytes.drop start).head? = some openBrace := by rwa [List.head?_drop]
  have hsome : ∀ stop, closingBraceIn? bytes start = some stop ↔ BlockAt bytes start stop :=
    fun stop => closingBraceIn?_eq_some_iff hopen
  constructor
  case eq_some_iff => exact hsome
  case unique =>
    intro stop stop' hstop hstop'
    rw [← hsome] at hstop hstop'
    exact Option.some.inj (hstop.symm.trans hstop')
  case eq_none_iff => rw [closingBraceIn?, Option.map_eq_none_iff, closeFrom_eq_none_iff hhead]
  case drop_eq =>
    intro front
    rw [closingBraceIn?_append_length, closingBraceIn?, Option.map_map]
    congr 1
    funext n
    simp
  case span_eq =>
    intro stop hstop front back
    obtain ⟨hle, hlt, hblock⟩ := (hsome stop).1 hstop
    have hlength : (span bytes start stop).length = stop - start + 1 := by
      rw [span, List.length_take, List.length_drop]
      omega
    rw [List.append_assoc, closingBraceIn?_append_length, hblock.closeFrom_append, hlength]
    rfl

/-- A block whose inner closing braces are hidden: in a literal behind an escaped quote, in a
comment that begins with `/*/`, and in a comment up to the end of the line. -/
def hiddenBraces : List UInt8 :=
  [newline, openBrace, doubleQuote, backslash, doubleQuote, closeBrace, doubleQuote,
   slash, star, slash, closeBrace, star, slash, slash, slash, closeBrace, newline, closeBrace]

theorem findsBlock_hiddenBraces :
    hiddenBraces[1]? = some openBrace ∧ FindsBlock hiddenBraces 1 ∧ BlockAt hiddenBraces 1 17 :=
  have hfinds := closingBraceIn?_findsBlock hiddenBraces 1 rfl
  ⟨rfl, hfinds, (hfinds.eq_some_iff 17).1 (by decide)⟩

/-- The star that opens a comment does not close it, and a comment that does not end has no block
around it. -/
example : closingBraceIn? [openBrace, slash, star, slash, closeBrace] 0 = none := by decide

end Survey.Block
