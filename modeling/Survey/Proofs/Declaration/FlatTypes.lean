/-
# Types that are read are flat

Members and extended types are read up to the first closing bracket behind an opening one.  So one can
say behind every text that is read for a type whether arguments are open there: an opening bracket
opens them, whether or not some are open already, and a closing one closes them.  Behind a type that
is not flat this cannot be said, since it closes arguments twice without opening any in between.
Hence no unit at all, printed or not, has such a type for its superclass, for the type of a field or for
the return type of a method.
-/
import Survey.Proofs.Declaration.GenericTypes
import Survey.Proofs.Declaration.Names
import Survey.Proofs.Declaration.RoundTrip

namespace Survey

open Survey.Text Survey.Pattern Survey.Canonical Survey.Canonical.GenericType

/-! ### Open arguments -/

/-- Whether type arguments are open behind a text, when an opening bracket opens them and the next
closing one closes them; none when a closing bracket has nothing to close. -/
def openBehind? : Bool → List Char → Option Bool
  | isOpen, [] => some isOpen
  | isOpen, c :: rest =>
    if c = '<' then openBehind? true rest
    else if c = '>' then if isOpen then openBehind? false rest else none
    else openBehind? isOpen rest

section

variable {isOpen : Bool} {u v : List Char}

lemma openBehind?_append (isOpen : Bool) (u v : List Char) :
    openBehind? isOpen (u ++ v) = (openBehind? isOpen u).bind fun after => openBehind? after v := by
  induction u generalizing isOpen with
  | nil => rfl
  | cons c u ih =>
    rw [List.cons_append, openBehind?, openBehind?]
    split
    · exact ih true
    · split
      · split
        · exact ih false
        · rfl
      · exact ih isOpen

lemma openBehind?_of_notMem (hopen : '<' ∉ u) (hclose : '>' ∉ u) :
    openBehind? isOpen u = some isOpen := by
  induction u with
  | nil => rfl
  | cons c u ih =>
    rw [List.mem_cons, not_or] at hopen hclose
    rw [openBehind?, if_neg (Ne.symm hopen.1), if_neg (Ne.symm hclose.1), ih hopen.2 hclose.2]

lemma openBehind?_true (hclose : '>' ∉ u) : openBehind? true u = some true := by
  induction u with
  | nil => rfl
  | cons c u ih =>
    rw [List.mem_cons, not_or] at hclose
    rw [openBehind?, if_neg (Ne.symm hclose.1), ih hclose.2, ite_self]

/-- Nothing is open behind a closing bracket. -/
lemma openBehind?_close (isOpen : Bool) (u : List Char) :
    openBehind? isOpen (u ++ ['>']) ≠ some true := by
  rw [openBehind?_append]
  cases openBehind? isOpen u with
  | none => simp
  | some after => cases after <;> simp [openBehind?]

/-- Nothing is open behind a list in which a text ends with a closing bracket. -/
lemma openBehind?_commaList {texts : List (List Char)}
    (htexts : ∀ text ∈ texts, ('<' ∉ text ∧ '>' ∉ text) ∨ ∃ u, text = u ++ ['>'])
    (hclose : '>' ∈ commaList texts) (isOpen : Bool) :
    openBehind? isOpen (commaList texts) ≠ some true := by
  induction texts using commaList.induct generalizing isOpen with
  | case1 => simp [commaList] at hclose
  | case2 text =>
    rw [commaList] at hclose ⊢
    rcases htexts text (by simp) with ⟨-, hnone⟩ | ⟨u, rfl⟩
    · exact absurd hclose hnone
    · exact openBehind?_close isOpen u
  | case3 text next more ih =>
    have hlist : commaList (text :: next :: more) =
        text ++ ([',', ' '] ++ commaList (next :: more)) := by simp [commaList]
    have hmore := ih fun text' hmem => htexts text' (List.mem_cons_of_mem _ hmem)
    have hcomma : ∀ after, openBehind? after ([',', ' '] ++ commaList (next :: more)) =
        openBehind? after (commaList (next :: more)) := by
      intro after
      rw [openBehind?_append, openBehind?_of_notMem (by decide) (by decide), Option.bind_some]
    rw [hlist, openBehind?_append]
    simp only [hcomma]
    by_cases hrest : '>' ∈ commaList (next :: more)
    · cases openBehind? isOpen text with
      | none => simp
      | some after => exact hmore hrest after
    · -- then the closing bracket is in the first text, and nothing is opened behind it
      have hnoOpen : '<' ∉ commaList (next :: more) := by
        intro hmem
        rcases mem_commaList hmem with h | h | ⟨text', htext', h⟩
        · exact absurd h (by decide)
        · exact absurd h (by decide)
        · rcases htexts text' (List.mem_cons_of_mem _ htext') with ⟨hnone, -⟩ | ⟨u, rfl⟩
          · exact hnone h
          · exact hrest (mem_commaList_of_mem htext' (by simp))
      have htext : '>' ∈ text := by
        rw [hlist] at hclose
        simpa [hrest] using hclose
      rcases htexts text (by simp) with ⟨-, hnone⟩ | ⟨u, rfl⟩
      · exact absurd htext hnone
      · have hbehind := openBehind?_close isOpen u
        cases hafter : openBehind? isOpen (u ++ ['>']) with
        | none => simp
        | some after =>
          rw [Option.bind_some, openBehind?_of_notMem hnoOpen hrest]
          rwa [hafter] at hbehind

/-- A type that is not flat closes arguments twice without opening any in between. -/
lemma openBehind?_nested {type : GenericType} (hflat : ¬ type.IsFlat) (isOpen : Bool) :
    openBehind? isOpen type.print = none := by
  have hplain : ¬ type.IsPlain := fun hplain => hflat hplain.isFlat
  have htexts : ∀ text ∈ type.arguments.map print,
      ('<' ∉ text ∧ '>' ∉ text) ∨ ∃ u, text = u ++ ['>'] := by
    refine List.forall_mem_map.2 fun argument _ => ?_
    exact argument.print_cases.imp And.right And.right
  have hinside := openBehind?_commaList htexts (close_mem_arguments_iff.2 hflat) true
  have hopen : openBehind? isOpen ['<'] = some true := rfl
  have hprint : type.print =
      type.head.text ++ (['<'] ++ (commaList (type.arguments.map print) ++ ['>'])) := by
    rw [print_eq, brackets_of_not_plain hplain]
    rfl
  rw [hprint, openBehind?_append, openBehind?_of_notMem type.bracket_notMem_head.1
    type.bracket_notMem_head.2, Option.bind_some, openBehind?_append, hopen, Option.bind_some,
    openBehind?_append]
  cases hafter : openBehind? true (commaList (type.arguments.map print)) with
  | none => rfl
  | some after =>
    rw [hafter] at hinside
    cases after with
    | true => exact absurd rfl hinside
    | false => rfl

/-- Only a flat type stands in a text behind which it can be said whether arguments are open. -/
lemma isFlat_of_isInfix {type : GenericType} {after : Bool} (hwithin : type.print <:+: u)
    (hu : openBehind? isOpen u = some after) : type.IsFlat := by
  by_contra hflat
  obtain ⟨front, back, rfl⟩ := hwithin
  have hnone : openBehind? isOpen (front ++ type.print ++ back) = none := by
    rw [List.append_assoc, openBehind?_append]
    simp only [openBehind?_append, openBehind?_nested hflat, Option.bind_none,
      Option.bind_fun_none]
  rw [hnone] at hu
  simp at hu

end

/-! ### What the shapes of types go over -/

namespace Pattern

variable {p q : Pattern} {isOpen isOpen' isOpen'' : Bool} {u : List Char}

/-- Every way of a pattern leads from one answer to whether arguments are open to another one. -/
def Leads (isOpen : Bool) (p : Pattern) (isOpen' : Bool) : Prop :=
  ∀ s, ∀ t ∈ p.ways s, ∃ u, s.place.Passes u t.place ∧ openBehind? isOpen u = some isOpen'

lemma Leads.append (hp : Leads isOpen p isOpen') (hq : Leads isOpen' q isOpen'') :
    Leads isOpen (p ++ q) isOpen'' := by
  intro s t ht
  obtain ⟨r, hr, ht⟩ := mem_ways_seq.1 ht
  obtain ⟨u, hu, hopen⟩ := hp s r hr
  obtain ⟨v, hv, hopen'⟩ := hq r t ht
  refine ⟨u ++ v, hu.trans hv, ?_⟩
  rw [openBehind?_append, hopen, Option.bind_some, hopen']

lemma Leads.either (hp : Leads isOpen p isOpen') (hq : Leads isOpen q isOpen') :
    Leads isOpen (either p q) isOpen' :=
  fun s t ht => (mem_ways_either.1 ht).elim (hp s t) (hq s t)

lemma Leads.optional (hp : Leads isOpen p isOpen) : Leads isOpen (optional p) isOpen := by
  intro s t ht
  rcases mem_ways_optional.1 ht with ht | rfl
  · exact hp s t ht
  · exact ⟨[], Cursor.passes_nil _, rfl⟩

lemma Leads.rounds (hp : Leads isOpen p isOpen) (preference : Preference) :
    Leads isOpen (rounds p preference) isOpen := by
  intro s t ht
  refine holds_of_mem_rounds (P := fun r => ∃ u, s.place.Passes u r.place ∧
    openBehind? isOpen u = some isOpen) ?_ ⟨[], Cursor.passes_nil _, rfl⟩ ht
  rintro r ⟨u, hu, hopen⟩ r' hr'
  obtain ⟨v, hv, hopen'⟩ := hp r r' hr'
  refine ⟨u ++ v, hu.trans hv, ?_⟩
  rw [openBehind?_append, hopen, Option.bind_some, hopen']

lemma leads_lit {text : String} (htext : openBehind? isOpen text.toList = some isOpen') :
    Leads isOpen (lit text) isOpen' :=
  fun _ _ ht => ⟨_, (mem_ways_word.1 ht).1, htext⟩

/-- A stretch without brackets changes nothing. -/
lemma leads_all {cls : Char → Bool} (hopen : cls '<' = false) (hclose : cls '>' = false)
    (least : Nat) : Leads isOpen (all cls least) isOpen := by
  intro s t ht
  obtain ⟨u, hu, hcls, -⟩ := mem_ways_all.1 ht
  refine ⟨u, hu, openBehind?_of_notMem (fun hmem => ?_) fun hmem => ?_⟩
  · simp [hcls _ hmem] at hopen
  · simp [hcls _ hmem] at hclose

/-- Open arguments stay open while nothing closes them. -/
lemma leads_inside {cls : Char → Bool} (hclose : cls '>' = false) (least : Nat) :
    Leads true (all cls least) true := by
  intro s t ht
  obtain ⟨u, hu, hcls, -⟩ := mem_ways_all.1 ht
  refine ⟨u, hu, openBehind?_true fun hmem => ?_⟩
  simp [hcls _ hmem] at hclose

lemma Leads.openBehind?_of_goesOver (hp : Leads isOpen p isOpen') (h : p.GoesOver u) :
    openBehind? isOpen u = some isOpen' := by
  obtain ⟨s, t, ht, hpasses⟩ := h
  obtain ⟨v, hpasses', hv⟩ := hp s t ht
  have huv : u = v := by
    have hafter := hpasses.after_eq
    rw [hpasses'.after_eq] at hafter
    exact (List.append_cancel_right hafter).symm
  rwa [huv]

/-- A group whose parts leave nothing open has a text that leaves nothing open. -/
lemma Leads.openBehind?_groupText {place : Cursor} {m : Match} {n : Nat}
    (hp : Leads false p false) (hparts : q.parts n = [p]) (h : q.matchAt? place = some m) :
    openBehind? false (m.groupText n) = some false := by
  rcases goesOver_groupText h n with hnil | ⟨part, hpart, hover⟩
  · rw [hnil]
    rfl
  · rw [hparts, List.mem_singleton] at hpart
    exact hp.openBehind?_of_goesOver (hpart ▸ hover)

lemma leads_extendedTypes : Leads false extendedTypes false := by
  have hblanks : Leads false anyBlanks false := leads_all (by decide) (by decide) 0
  have harguments : Leads false Shape.typeArguments false :=
    ((hblanks.append (leads_lit rfl)).append (leads_inside (by decide) 0)).append (leads_lit rfl)
  have htype : Leads false Shape.extendedType false :=
    (leads_all (by decide) (by decide) 1).append harguments.optional
  have hcomma : Leads false (lit ",") false := leads_lit rfl
  exact htype.append ((((hblanks.append hcomma).append hblanks).append htype).rounds .most)

lemma leads_memberType : Leads false Shape.memberType false := by
  have hname : Leads false name false := leads_all (by decide) (by decide) 1
  have hsquare : Leads false (lit "[]") false := leads_lit rfl
  have hangle : Leads false (lit "<" ++ allBefore '>' 1 ++ lit ">") false :=
    ((leads_lit rfl).append (leads_inside (by decide) 1)).append (leads_lit rfl)
  exact hname.append (hsquare.either hangle).optional

end Pattern

/-! ### The types of a unit -/

section

variable {source : Source} {type : GenericType}

/-- The text of the slot for the type of a member leaves no arguments open. -/
lemma isFlat_of_groupText {p : Pattern} {place : Cursor} {m : Match}
    (hparts : p.parts 2 = [Shape.memberType]) (hmatch : p.matchAt? place = some m)
    (htype : String.ofList (m.groupText 2) = String.ofList type.print) : type.IsFlat := by
  have hopen := leads_memberType.openBehind?_groupText hparts hmatch
  exact isFlat_of_isInfix (String.ofList_injective htype ▸ List.infix_rfl) hopen

/-- A type that is a word is flat. -/
lemma isFlat_of_isWord (hword : IsWord (String.ofList type.print)) : type.IsFlat := by
  rcases type.print_cases with ⟨hplain, -⟩ | ⟨-, u, hprint⟩
  · exact hplain.isFlat
  · have hclose : isWordChar '>' = true := hword '>' (by simp [hprint])
    exact absurd hclose (by decide)

lemma Field.isFlat_of_mem_parseAll {field : Field} (hfield : field ∈ parseAll source)
    (htype : field.declaredType = String.ofList type.print) : type.IsFlat := by
  obtain ⟨m, hm, hof⟩ := List.mem_filterMap.1 hfield
  obtain ⟨place, -, hmatch⟩ := matchAt?_of_mem_findAll hm
  rw [Field.ofMatch?] at hof
  split at hof
  · simp at hof
  · rw [← Option.some.inj hof] at htype
    exact isFlat_of_groupText rfl hmatch htype

lemma Method.isFlat_of_mem_parseAll {method : Method} (hmethod : method ∈ parseAll source)
    (htype : method.returnType = String.ofList type.print) : type.IsFlat := by
  obtain ⟨m, hm, hof⟩ := List.mem_filterMap.1 hmethod
  obtain ⟨place, -, hmatch⟩ := matchAt?_of_mem_findAll hm
  rw [Method.ofMatch?] at hof
  split at hof
  · simp at hof
  · rw [← Option.some.inj hof] at htype
    simp only at htype
    split at htype
    · -- a constructor has its own name here
      exact isFlat_of_isWord (htype ▸ isWord_groupText rfl hmatch)
    · exact isFlat_of_groupText rfl hmatch htype

end

/-- The types of a declaration are flat where they are written as types are. -/
structure TypeDeclaration.FlatTyped (d : TypeDeclaration) : Prop where
  superclass : ∀ type : GenericType, d.superclassName = some (String.ofList type.print) →
    type.IsFlat
  fields : ∀ field ∈ d.fields, ∀ type : GenericType,
    field.declaredType = String.ofList type.print → type.IsFlat
  methods : ∀ method ∈ d.methods, ∀ type : GenericType,
    method.returnType = String.ofList type.print → type.IsFlat

/-- **No unit gives a type that is not flat**: neither for the superclass nor for a member. -/
theorem TypeDeclaration.flatTyped_of_parse {source path : String} {d : TypeDeclaration}
    (h : parse source path = .ok d) : d.FlatTyped := by
  obtain ⟨kind, m, hfind, -, rfl⟩ := eq_ofMatch_of_parse h
  obtain ⟨place, -, hmatch⟩ := matchAt?_of_find? hfind
  refine ⟨fun type htype => ?_, fun field hfield type => Field.isFlat_of_mem_parseAll hfield,
    fun method hmethod type => Method.isFlat_of_mem_parseAll hmethod⟩
  have hmem : String.ofList type.print ∈ groupItems m 4 := List.mem_of_mem_head? htype
  have hopen := leads_extendedTypes.openBehind?_groupText (n := 4) rfl hmatch
  rw [groupItems] at hmem
  rw [Match.groupText] at hopen
  cases hgroup : m.group? 4 with
  | none => simp [hgroup] at hmem
  | some span =>
    rw [hgroup] at hmem hopen
    obtain ⟨text, htext, heq⟩ := List.mem_map.1 hmem
    rw [String.ofList_injective heq] at htext
    exact isFlat_of_isInfix (infix_of_mem_splitList htext) hopen

end Survey
