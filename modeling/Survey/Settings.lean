/-
# Settings of a scan

What a scan is told: which files it reads, which directories it leaves out, how many files it may
parse at once, and whether it is cancelled.  The number of workers is kept between one and 256,
whatever is asked for.
-/

namespace Survey

/-- A value brought into the bounds `minimum` and `maximum`; the upper bound wins when the two
bounds cross. -/
def clamp (value minimum maximum : Nat) : Nat := min (max value minimum) maximum

/-- The settings of a scan. -/
structure Settings where
  /-- The number of files that may be parsed at once, as asked for. -/
  maxConcurrentParses : Nat := 10
  /-- The extensions of source units, in lower case and without the dot. -/
  sourceExtensions : List String := ["java"]
  /-- What the names of routing documents start with. -/
  configFileStem : String := "struts-config"
  /-- The extension of interface definition documents. -/
  interfaceExtension : String := "idl"
  /-- The names of directories that are not entered. -/
  ignoredDirectories : List String := [".git", ".svn", "target", "node_modules"]
  /-- Whether the scan is cancelled; none when it cannot be. -/
  cancel : Option Bool := none
deriving DecidableEq, Repr

namespace Settings

/-- The largest number of workers. -/
def maxWorkers : Nat := 256

/-- The number of workers: what is asked for, but at least one and at most `maxWorkers`. -/
def workerCount (settings : Settings) : Nat := clamp settings.maxConcurrentParses 1 maxWorkers

/-- Whether another number of workers is used than was asked for. -/
def isLimitClamped (settings : Settings) : Bool :=
  settings.workerCount != settings.maxConcurrentParses

/-- Whether the scan is cancelled. -/
def isCancelled (settings : Settings) : Bool := settings.cancel.getD false

theorem one_le_workerCount (settings : Settings) : 1 ≤ settings.workerCount := by
  simp only [workerCount, clamp, maxWorkers]
  omega

theorem workerCount_le (settings : Settings) : settings.workerCount ≤ maxWorkers := by
  simp only [workerCount, clamp, maxWorkers]
  omega

end Settings

end Survey
