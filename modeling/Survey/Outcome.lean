/-
# Outcomes

Every file that a scan discovers has one outcome: what was read from it, or a failure.  The
outcomes of some files are taken apart into results and failures, each in the order of the files.
-/
import Survey.Failure

namespace Survey

/-- What came of one file. -/
abbrev Outcome (α : Type) : Type := Except Failure α

namespace Outcome

variable {α : Type}

/-- The result of an outcome, if it has one. -/
def result? : Outcome α → Option α
  | .ok result => some result
  | .error _ => none

/-- The failure of an outcome, if it has one. -/
def failure? : Outcome α → Option Failure
  | .ok _ => none
  | .error failure => some failure

@[simp] theorem result?_eq_some_iff {outcome : Outcome α} {a : α} :
    outcome.result? = some a ↔ outcome = .ok a := by
  cases outcome <;> simp [result?]

@[simp] theorem failure?_eq_some_iff {outcome : Outcome α} {f : Failure} :
    outcome.failure? = some f ↔ outcome = .error f := by
  cases outcome <;> simp [failure?]

/-- The results among some outcomes. -/
def results (outcomes : List (Outcome α)) : List α := outcomes.filterMap result?

/-- The failures among some outcomes. -/
def failures (outcomes : List (Outcome α)) : List Failure := outcomes.filterMap failure?

end Outcome

end Survey
