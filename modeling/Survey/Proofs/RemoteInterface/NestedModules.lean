/-
# Modules in modules

A document may be a forest: modules in modules to any depth, with interfaces before, inside, between
and behind them.  A reader of definitions remembers the module that was named last and does not look
at the braces of modules, so a module that ends does not bring the one around it back.  What an
interface is read with is therefore decided within the block that it stands in: the module named last
before it in that block, however deep and whether it has ended or not, and the module of the block
itself when no module comes before it there.
-/
import Survey.Proofs.RemoteInterface.RoundTrip

namespace Survey

open Survey.Text Survey.LogicalLines

namespace RemoteDocument

/-- Interfaces and modules one after the other; a module holds more of them. -/
inductive Forest where
  /-- The end of a block or of the document. -/
  | nil
  /-- An interface and what comes behind it. -/
  | interface (i : Interface) (rest : Forest)
  /-- A module, what it holds, and what comes behind it. -/
  | module (name : Word) (inner rest : Forest)

/-- An interface in its place. -/
structure Placement where
  /-- The interface. -/
  interface : Interface
  /-- The innermost module around it, if there is one. -/
  enclosing : Option Word
  /-- The modules that are named before it in its block, at any depth. -/
  earlier : List Word

/-- The text of a module's name; empty for no module. -/
def moduleText : Option Word → String
  | some name => String.ofList name.text
  | none => ""

namespace Placement

/-- The interface that is read from a printed one when it is said to be in a module. -/
def readIn (p : Placement) (module : Option Word) : RemoteInterface where
  name := String.ofList p.interface.name.text
  module := moduleText module
  operations := p.interface.members.filterMap Member.operation?
  attributes := p.interface.members.filterMap Member.attribute?
  inheritedNames := p.interface.bases.map fun base => String.ofList base.text

/-- The module that was named last in front of an interface: the last one in its block, or else the one
around the block. -/
def lastNamed (p : Placement) : Option Word := p.earlier.getLast?.or p.enclosing

end Placement

namespace Forest

/-- The line that opens a module of a name. -/
def moduleHeadLine (name : Word) : List Char := Module.headLine ⟨name, []⟩

/-- The lines of a forest. -/
def lines : Forest → List (List Char)
  | nil => []
  | interface i rest => i.lines ++ rest.lines
  | module name inner rest => (moduleHeadLine name :: (inner.lines ++ [['\x7d', ';']])) ++ rest.lines

/-- A forest as it is printed. -/
def print (layout : Layout) (forest : Forest) : List Char :=
  [layout.separator].intercalate forest.lines ++ (if layout.finalNewline then ['\n'] else [])

/-- The names of the modules in a forest, in the order in which they are printed. -/
def names : Forest → List Word
  | nil => []
  | interface _ rest => rest.names
  | module name inner rest => name :: (inner.names ++ rest.names)

/-- The interfaces of a forest in the order in which they are printed; the forest stands in a module, or
at the top, behind some modules of the same block. -/
def placements (enclosing : Option Word) (earlier : List Word) : Forest → List Placement
  | nil => []
  | interface i rest => ⟨i, enclosing, earlier⟩ :: rest.placements enclosing earlier
  | module name inner rest =>
    inner.placements (some name) [] ++ rest.placements enclosing (earlier ++ name :: inner.names)

/-! ### Lines -/

lemma readsBack_lines (forest : Forest) : ∀ line ∈ forest.lines, ReadsBack line := by
  induction forest with
  | nil => simp [lines]
  | interface i rest ih => exact List.forall_mem_append.2 ⟨i.readsBack_lines, ih⟩
  | module name inner rest ihInner ihRest =>
    refine List.forall_mem_append.2 ⟨List.forall_mem_cons.2 ⟨Module.readsBack_headLine _, ?_⟩, ihRest⟩
    exact List.forall_mem_append.2 ⟨ihInner, List.forall_mem_singleton.2 readsBack_close⟩

/-- A printed forest comes back line by line, in every layout. -/
lemma logicalLines_print (layout : Layout) (forest : Forest) :
    logicalLines (print layout forest) = forest.lines := by
  have hend : tidy (pieces (strip .code (if layout.finalNewline then ['\n'] else []))) = [] := by
    split <;> rfl
  rw [logicalLines_eq, print, tidy_pieces_intercalate layout forest.readsBack_lines, hend,
    List.append_nil]

lemma balanced_lines (forest : Forest) : Balanced forest.lines := by
  induction forest with
  | nil => rfl
  | interface i rest ih =>
    exact ((Member.balanced_lines i.members).block i.isLineChar_headText).append ih
  | module name inner rest ihInner ihRest =>
    exact (ihInner.block (Module.isLineChar_headText _)).append ihRest

/-! ### Reading -/

/-- The lines of a forest add its interfaces, and leave the module that was named last behind. -/
lemma foldl_read_lines (forest : Forest) (enclosing : Option Word) (earlier : List Word)
    (finished : List RemoteInterface) :
    forest.lines.foldl RemoteInterface.Reading.read
        ⟨moduleText (earlier.getLast?.or enclosing), none, finished⟩ =
      ⟨moduleText ((earlier ++ forest.names).getLast?.or enclosing), none,
        finished ++ (forest.placements enclosing earlier).map fun p => p.readIn p.lastNamed⟩ := by
  induction forest generalizing enclosing earlier finished with
  | nil => simp [lines, names, placements]
  | interface i rest ih =>
    rw [lines, List.foldl_append, i.foldl_read_lines, ih]
    simp [names, placements, Placement.readIn, Placement.lastNamed]
  | module name inner rest ihInner ihRest =>
    have hhead := Module.read_headLine ⟨name, []⟩ (moduleText (earlier.getLast?.or enclosing)) finished
    -- behind the module its block has some more names, and the last of them is still the last named
    have hbehind : inner.names.getLast?.or (some name) =
        (earlier ++ name :: inner.names).getLast?.or enclosing := by
      rw [List.getLast?_append, List.getLast?_cons]
      cases inner.names.getLast? <;> rfl
    have hinner := ihInner (some name) [] finished
    rw [List.nil_append, hbehind] at hinner
    have hclose := Module.read_close (moduleText ((earlier ++ name :: inner.names).getLast?.or enclosing))
    rw [lines, List.foldl_append, List.foldl_cons, moduleHeadLine, hhead, List.foldl_append]
    refine (congrArg (fun r => List.foldl _ (List.foldl _ r _) _) hinner).trans ?_
    rw [List.foldl_cons, List.foldl_nil, hclose, ihRest]
    simp [names, placements]

end Forest

end RemoteDocument

open RemoteDocument

namespace RemoteInterface

/-- **A printed forest is read back**, in every layout: every interface in order, in the module that was
named last before it in its block, and in the module of the block when none was named there; at the top
that is no module.  So an interface with no module before it in its block is in the innermost module
around it. -/
theorem parse_forest (layout : Layout) (forest : Forest) (path : String) :
    parse (String.ofList (forest.print layout)) path =
        .ok ((forest.placements none []).map fun p => p.readIn p.lastNamed) ∧
      ∀ p ∈ forest.placements none [], p.earlier = [] →
        p.readIn p.lastNamed = p.readIn p.enclosing := by
  constructor
  · have hfold := forest.foldl_read_lines none [] []
    have hinterfaces : ofLines forest.lines =
        (forest.placements none []).map fun p => p.readIn p.lastNamed := by
      rw [ofLines]
      refine (congrArg Reading.interfaces hfold).trans ?_
      simp [Reading.interfaces]
    rw [parse, String.toList_ofList, forest.logicalLines_print, forest.balanced_lines, hinterfaces]
    exact if_neg fun h => h.2 rfl
  · intro p _ hearlier
    rw [Placement.lastNamed, hearlier]
    rfl

/-- A module that has ended, and an interface behind it. -/
def endedModule : Forest :=
  .module ⟨['M'], by decide, List.forall_mem_singleton.2 (by decide)⟩ .nil
    (.interface ⟨⟨['N'], by decide, List.forall_mem_singleton.2 (by decide)⟩, [], []⟩ .nil)

/-- An interface need not be in the module around it: behind a module that has ended it is read in that
one. -/
theorem enclosing_module_not_kept :
    ¬ ∀ (layout : Layout) (forest : Forest) (path : String),
      ∃ interfaces, parse (String.ofList (forest.print layout)) path = .ok interfaces ∧
        interfaces.map (·.module) =
          (forest.placements none []).map fun p => moduleText p.enclosing := by
  intro hclaim
  obtain ⟨interfaces, hparse, hmodules⟩ := hclaim ⟨false, true⟩ endedModule "unit.idl"
  have hread : parse (String.ofList (endedModule.print ⟨false, true⟩)) "unit.idl" =
      .ok [⟨"N", "M", [], [], []⟩] := by
    decide +kernel
  obtain rfl := Except.ok.inj (hread.symm.trans hparse)
  simp [endedModule, Forest.placements, moduleText] at hmodules

end RemoteInterface

end Survey
