/-
# Changes of a model

After a scan a model is changed in three ways only: a type is taken out, the failures are forgotten,
and the counts are made anew.  A run is a scan with any number of such changes behind it.  What holds
after every scan and is kept by every single change holds after every run.
-/
import Survey.Scan

namespace Survey.Model

/-- A change of a model. -/
inductive Change where
  /-- Takes the type with a qualified name out. -/
  | dropClass (qualifiedName : String)
  /-- Forgets the failures. -/
  | clearFailures
  /-- Counts the types, their members and the failures anew. -/
  | recount
deriving DecidableEq, Repr

/-- The model after a change. -/
def change (model : Model) : Change → Model
  | .dropClass qualifiedName => model.dropClass qualifiedName
  | .clearFailures => model.clearFailures
  | .recount => model.recount

/-- The model after a scan, in which some files may find it cancelled, and some changes. -/
def afterRun (settings : Settings) (tree : FileTree) (root : List String)
    (isCancelled : List String → Bool) (changes : List Change) : Model :=
  changes.foldl change (scanWith settings tree root isCancelled)

/-- What every scan establishes and every change keeps holds after every run. -/
theorem holds_afterRun {P : Model → Prop} {settings : Settings} {tree : FileTree}
    {root : List String} {isCancelled : List String → Bool}
    (hscan : P (scanWith settings tree root isCancelled))
    (hchange : ∀ model c, P model → P (model.change c)) (changes : List Change) :
    P (afterRun settings tree root isCancelled changes) := by
  rw [afterRun]
  generalize scanWith settings tree root isCancelled = model at hscan
  induction changes generalizing model with
  | nil => exact hscan
  | cons c changes ih => exact ih _ (hchange model c hscan)

end Survey.Model
