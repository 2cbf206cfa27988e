/-
# The gauge of parses in flight

A gauge counts the parses that are under way and remembers the highest count it has seen.  A parse
enters in two steps, counting itself and then raising the peak to the count that it saw, and
leaves in a third; other parses may take their steps in between.
-/

namespace Survey

/-- The number of parses under way, and the highest number seen. -/
structure Gauge where
  /-- The parses under way. -/
  current : Nat := 0
  /-- The highest number of parses seen. -/
  peak : Nat := 0
deriving DecidableEq, Repr

namespace Gauge

/-- The first step of a parse: counts it, and tells the new count. -/
def countIn (g : Gauge) : Gauge × Nat := ({ g with current := g.current + 1 }, g.current + 1)

/-- The second step of a parse: raises the peak to the count that it saw. -/
def raise (g : Gauge) (seen : Nat) : Gauge := { g with peak := max g.peak seen }

/-- The last step of a parse. -/
def leave (g : Gauge) : Gauge := { g with current := g.current - 1 }

/-- The first two steps of a parse with nothing in between. -/
def enter (g : Gauge) : Gauge :=
  let (counted, seen) := g.countIn
  counted.raise seen

/-- A move of somebody who takes and gives back slots one at a time. -/
inductive Move where
  /-- Takes a slot. -/
  | enter
  /-- Gives back a slot, if one is held. -/
  | leave
deriving DecidableEq, Repr

/-- The gauge after a move; giving back a slot that is not held does nothing. -/
def apply (g : Gauge) : Move → Gauge
  | .enter => g.enter
  | .leave => if g.current = 0 then g else g.leave

/-- The peaks after each of some moves. -/
def peaks (g : Gauge) : List Move → List Nat
  | [] => []
  | move :: moves => (g.apply move).peak :: (g.apply move).peaks moves

/-- The gauge after a number of parses, each finished before the next begins. -/
def afterParses (g : Gauge) : Nat → Gauge
  | 0 => g
  | count + 1 => g.enter.leave.afterParses count

end Gauge

end Survey
