/-
# The gauge under every interleaving

Workers share one gauge.  Each of them takes parses as long as some are waiting, and every parse
goes through three steps: the worker counts itself in and remembers the count that it saw, raises
the peak to that count, and leaves at the end.  The steps of different workers may come in any
order; a schedule lists the workers in the order in which they take their steps.

The count is always the number of workers inside a parse.  The peak may lag behind it, but never by
more than what some worker still holds in its hands: the highest count so far has either reached the
peak or is remembered by a worker that has yet to raise it (`Pool.Exact.reached`).  So whenever no
worker is between its first two steps, the peak is exactly the highest count so far.
-/
import Mathlib.Data.Finset.Card
import Mathlib.Data.Fintype.Card
import Mathlib.Data.List.Infix
import Mathlib.Order.Bounds.Basic
import Survey.Scan

namespace Survey

/-! ### Values along the way -/

section

variable {α : Type} {value : List α → Nat} {steps : List α}

/-- The values that a number depending on the steps taken has had, from no step to all of them. -/
def valuesAlong (value : List α → Nat) (steps : List α) : Set Nat :=
  {n | ∃ front, front <+: steps ∧ value front = n}

lemma isGreatest_valuesAlong_nil : IsGreatest (valuesAlong value []) (value []) := by
  refine ⟨⟨[], List.prefix_rfl, rfl⟩, ?_⟩
  rintro n ⟨front, hfront, rfl⟩
  rw [List.prefix_nil.1 hfront]

/-- One more step adds one value. -/
lemma valuesAlong_append_singleton (value : List α → Nat) (steps : List α) (a : α) :
    valuesAlong value (steps ++ [a]) = insert (value (steps ++ [a])) (valuesAlong value steps) := by
  ext n
  constructor
  · rintro ⟨front, hfront, rfl⟩
    rcases List.prefix_concat_iff.1 hfront with rfl | hfront
    · exact Or.inl rfl
    · exact Or.inr ⟨front, hfront, rfl⟩
  · rintro (rfl | ⟨front, hfront, rfl⟩)
    · exact ⟨_, List.prefix_rfl, rfl⟩
    · exact ⟨front, hfront.trans (List.prefix_append steps [a]), rfl⟩

lemma isGreatest_valuesAlong_append_singleton {high : Nat}
    (h : IsGreatest (valuesAlong value steps) high) (a : α) :
    IsGreatest (valuesAlong value (steps ++ [a])) (max high (value (steps ++ [a]))) := by
  rw [valuesAlong_append_singleton, max_comm]
  exact h.insert _

end

/-! ### Pools of workers -/

/-- Where a worker stands in its parse. -/
inductive Stage where
  /-- Outside of all parses. -/
  | idle
  /-- Counted in, with the count that it saw; the peak is still to be raised. -/
  | counted (seen : Nat)
  /-- Inside a parse, with the peak raised. -/
  | parsing
deriving DecidableEq, Repr

/-- Workers that share a gauge. -/
structure Pool (workers : Nat) where
  /-- The gauge that the workers share. -/
  gauge : Gauge
  /-- Where each worker stands. -/
  stage : Fin workers → Stage
  /-- The number of parses that no worker has begun. -/
  waiting : Nat

namespace Pool

variable {workers : Nat} {pool start : Pool workers} {w w' : Fin workers} {high : Nat}

/-- The pool before its first parse. -/
def ofParses (workers parses : Nat) : Pool workers := ⟨{}, fun _ => .idle, parses⟩

/-- The pool after the next step of a worker; an idle worker begins a parse if one is waiting. -/
def step (pool : Pool workers) (w : Fin workers) : Pool workers :=
  match pool.stage w, pool.waiting with
  | .idle, 0 => pool
  | .idle, waiting + 1 =>
    let (gauge, seen) := pool.gauge.countIn
    ⟨gauge, Function.update pool.stage w (.counted seen), waiting⟩
  | .counted seen, waiting =>
    ⟨pool.gauge.raise seen, Function.update pool.stage w .parsing, waiting⟩
  | .parsing, waiting => ⟨pool.gauge.leave, Function.update pool.stage w .idle, waiting⟩

/-- The pool after the steps of some workers, one step for each mention. -/
def run (pool : Pool workers) (schedule : List (Fin workers)) : Pool workers :=
  schedule.foldl step pool

/-- The workers inside a parse: those that have counted themselves in and have not left. -/
def busy (pool : Pool workers) : Finset (Fin workers) :=
  Finset.univ.filter fun w => pool.stage w ≠ .idle

/-- Whether no worker is between the first two steps of a parse. -/
def Settled (pool : Pool workers) : Prop := ∀ w seen, pool.stage w ≠ .counted seen

/-- Whether all parses are over. -/
def Finished (pool : Pool workers) : Prop := pool.waiting = 0 ∧ ∀ w, pool.stage w = .idle

/-- The counts that a gauge has had along a schedule, from the start on. -/
def counts (pool : Pool workers) (schedule : List (Fin workers)) : Set Nat :=
  valuesAlong (fun front => (pool.run front).gauge.current) schedule

/-! ### What a step does -/

lemma mem_busy : w ∈ pool.busy ↔ pool.stage w ≠ .idle := by simp [busy]

/-- Everything that a step can do. -/
lemma step_cases (pool : Pool workers) (w : Fin workers) :
    (pool.stage w = .idle ∧ pool.waiting = 0 ∧ pool.step w = pool) ∨
    (∃ waiting, pool.stage w = .idle ∧ pool.waiting = waiting + 1 ∧
      pool.step w = ⟨{ pool.gauge with current := pool.gauge.current + 1 },
        Function.update pool.stage w (.counted (pool.gauge.current + 1)), waiting⟩) ∨
    (∃ seen, pool.stage w = .counted seen ∧
      pool.step w = ⟨{ pool.gauge with peak := max pool.gauge.peak seen },
        Function.update pool.stage w .parsing, pool.waiting⟩) ∨
    (pool.stage w = .parsing ∧
      pool.step w = ⟨{ pool.gauge with current := pool.gauge.current - 1 },
        Function.update pool.stage w .idle, pool.waiting⟩) := by
  cases hstage : pool.stage w with
  | idle =>
    cases hwaiting : pool.waiting with
    | zero => exact Or.inl ⟨rfl, rfl, by simp [step, hstage, hwaiting]⟩
    | succ waiting =>
      exact Or.inr (Or.inl ⟨waiting, rfl, rfl, by simp [step, hstage, hwaiting, Gauge.countIn]⟩)
  | counted seen =>
    exact Or.inr (Or.inr (Or.inl ⟨seen, rfl, by simp [step, hstage, Gauge.raise]⟩))
  | parsing => exact Or.inr (Or.inr (Or.inr ⟨rfl, by simp [step, hstage, Gauge.leave]⟩))

/-- A worker that goes to another place joins those inside a parse or leaves them. -/
lemma busy_update (gauge : Gauge) (waiting : Nat) (stage : Stage) :
    busy ⟨gauge, Function.update pool.stage w stage, waiting⟩ =
      if stage = .idle then pool.busy.erase w else insert w pool.busy := by
  ext w'
  rw [mem_busy]
  by_cases hw : w' = w
  · subst hw
    split <;> simp_all
  · split <;> simp [hw, mem_busy]

/-! ### The invariant -/

/-- The state of a pool that began with a number of parses and whose highest count so far is known.
The highest count has reached the peak, or a worker is about to bring it there. -/
structure Exact (parses : Nat) (pool : Pool workers) (high : Nat) : Prop where
  current_eq : pool.gauge.current = pool.busy.card
  current_le : pool.gauge.current ≤ high
  peak_le : pool.gauge.peak ≤ high
  seen_le : ∀ w seen, pool.stage w = .counted seen → seen ≤ high
  reached : high ≤ pool.gauge.peak ∨ ∃ w, pool.stage w = .counted high
  begun : pool.waiting = parses ∨ 1 ≤ high

variable {parses : Nat}

lemma exact_ofParses : Exact parses (ofParses workers parses) 0 where
  current_eq := by simp [ofParses, busy]
  current_le := Nat.le_refl _
  peak_le := Nat.le_refl _
  seen_le w seen h := by simp [ofParses] at h
  reached := Or.inl (Nat.le_refl _)
  begun := Or.inl rfl

/-- A worker inside a parse is counted, so it can be counted out. -/
lemma Exact.current_pos (h : Exact parses pool high) (hw : pool.stage w ≠ .idle) :
    0 < pool.gauge.current := by
  rw [h.current_eq]
  exact Finset.card_pos.2 ⟨w, mem_busy.2 hw⟩

/-- Counting in: the new count is the one that the worker remembers, so nothing is lost when it is
the highest so far. -/
lemma Exact.countIn (h : Exact parses pool high) (hstage : pool.stage w = .idle) {waiting : Nat} :
    Exact parses ⟨{ pool.gauge with current := pool.gauge.current + 1 },
      Function.update pool.stage w (.counted (pool.gauge.current + 1)), waiting⟩
      (max high (pool.gauge.current + 1)) where
  current_eq := by
    have hnew : w ∉ pool.busy := fun hmem => mem_busy.1 hmem hstage
    rw [busy_update, if_neg (by simp), Finset.card_insert_of_notMem hnew, h.current_eq]
  current_le := Nat.le_max_right _ _
  peak_le := Nat.le_trans h.peak_le (Nat.le_max_left _ _)
  seen_le w' seen hseen := by
    by_cases hw : w' = w
    · subst hw
      simp only [Function.update_self, Stage.counted.injEq] at hseen
      omega
    · have := h.seen_le w' seen (by simpa [hw] using hseen)
      omega
  reached := by
    rcases Nat.lt_or_ge high (pool.gauge.current + 1) with hlt | hge
    · -- a new highest count, which the worker itself has seen
      exact Or.inr ⟨w, by simp [Nat.max_eq_right (Nat.le_of_lt hlt)]⟩
    · rw [Nat.max_eq_left hge]
      refine h.reached.imp_right fun ⟨w', hw'⟩ => ⟨w', ?_⟩
      have hne : w' ≠ w := fun heq => by simp [heq, hstage] at hw'
      simpa [hne] using hw'
  begun := Or.inr (by omega)

/-- Raising: what the worker remembers goes into the peak. -/
lemma Exact.raise (h : Exact parses pool high) {seen : Nat}
    (hstage : pool.stage w = .counted seen) :
    Exact parses ⟨{ pool.gauge with peak := max pool.gauge.peak seen },
      Function.update pool.stage w .parsing, pool.waiting⟩ high where
  current_eq := by
    have hold : w ∈ pool.busy := mem_busy.2 (by simp [hstage])
    rw [busy_update, if_neg (by simp), Finset.insert_eq_self.2 hold]
    exact h.current_eq
  current_le := h.current_le
  peak_le := Nat.max_le.2 ⟨h.peak_le, h.seen_le w seen hstage⟩
  seen_le w' seen' hseen := by
    by_cases hw : w' = w
    · simp [hw] at hseen
    · exact h.seen_le w' seen' (by simpa [hw] using hseen)
  reached := by
    rcases h.reached with hpeak | ⟨w', hw'⟩
    · exact Or.inl (Nat.le_trans hpeak (Nat.le_max_left _ _))
    · by_cases hw : w' = w
      · -- the worker that was about to bring the highest count has done so
        obtain rfl : seen = high := by simpa [hw, hstage] using hw'
        exact Or.inl (Nat.le_max_right _ _)
      · exact Or.inr ⟨w', by simpa [hw] using hw'⟩
  begun := h.begun

/-- Leaving: one worker fewer is counted, and no worker that remembers a count is touched. -/
lemma Exact.leave (h : Exact parses pool high) (hstage : pool.stage w = .parsing) :
    Exact parses ⟨{ pool.gauge with current := pool.gauge.current - 1 },
      Function.update pool.stage w .idle, pool.waiting⟩ high where
  current_eq := by
    have hold : w ∈ pool.busy := mem_busy.2 (by simp [hstage])
    rw [busy_update, if_pos rfl, Finset.card_erase_of_mem hold, h.current_eq]
  current_le := Nat.le_trans (Nat.sub_le _ _) h.current_le
  peak_le := h.peak_le
  seen_le w' seen hseen := by
    by_cases hw : w' = w
    · simp [hw] at hseen
    · exact h.seen_le w' seen (by simpa [hw] using hseen)
  reached := by
    refine h.reached.imp_right fun ⟨w', hw'⟩ => ⟨w', ?_⟩
    have hne : w' ≠ w := fun heq => by simp [heq, hstage] at hw'
    simpa [hne] using hw'
  begun := h.begun

/-- Every step keeps the invariant, with the new count among those that the gauge has had. -/
lemma Exact.step (h : Exact parses pool high) (w : Fin workers) :
    Exact parses (pool.step w) (max high (pool.step w).gauge.current) := by
  rcases pool.step_cases w with ⟨-, -, hstep⟩ | ⟨waiting, hstage, -, hstep⟩ |
    ⟨seen, hstage, hstep⟩ | ⟨hstage, hstep⟩
  · rw [hstep, Nat.max_eq_left h.current_le]
    exact h
  · rw [hstep]
    exact h.countIn hstage
  · rw [hstep, Nat.max_eq_left h.current_le]
    exact h.raise hstage
  · rw [hstep, Nat.max_eq_left (Nat.le_trans (Nat.sub_le _ _) h.current_le)]
    exact h.leave hstage

/-! ### Whole schedules -/

lemma run_append (pool : Pool workers) (schedule schedule' : List (Fin workers)) :
    pool.run (schedule ++ schedule') = (pool.run schedule).run schedule' := List.foldl_append

/-- After every schedule the gauge has had a highest count, and the invariant holds with it. -/
lemma exists_exact_run (workers parses : Nat) (schedule : List (Fin workers)) :
    ∃ high, IsGreatest ((ofParses workers parses).counts schedule) high ∧
      Exact parses ((ofParses workers parses).run schedule) high := by
  induction schedule using List.reverseRecOn with
  | nil => exact ⟨0, isGreatest_valuesAlong_nil, exact_ofParses⟩
  | append_singleton schedule w ih =>
    obtain ⟨high, hhigh, hexact⟩ := ih
    refine ⟨_, isGreatest_valuesAlong_append_singleton hhigh w, ?_⟩
    rw [run_append]
    exact hexact.step w

/-- No count is above the number of workers. -/
lemma count_le_of_mem_counts {schedule : List (Fin workers)} {count : Nat}
    (h : count ∈ (ofParses workers parses).counts schedule) : count ≤ workers := by
  obtain ⟨front, -, rfl⟩ := h
  obtain ⟨high, -, hexact⟩ := exists_exact_run workers parses front
  show ((ofParses workers parses).run front).gauge.current ≤ workers
  rw [hexact.current_eq]
  exact (Finset.card_le_univ _).trans_eq (Fintype.card_fin workers)

/-- What the gauge of a pool tells after some steps of its workers. -/
structure Measured (workers parses : Nat) (schedule : List (Fin workers)) (pool : Pool workers) :
    Prop where
  /-- The count is the number of workers inside a parse. -/
  current_eq : pool.gauge.current = pool.busy.card
  /-- Whoever is about to leave is counted, so the count is never taken below zero. -/
  current_pos : ∀ w, pool.stage w = .parsing → 0 < pool.gauge.current
  /-- The peak is at most the number of workers. -/
  peak_le_workers : pool.gauge.peak ≤ workers
  /-- The peak is at most some count that the gauge has had. -/
  exists_peak_le : ∃ count ∈ (ofParses workers parses).counts schedule, pool.gauge.peak ≤ count
  /-- With no raise pending, the peak is the highest count that the gauge has had. -/
  isGreatest_peak : pool.Settled →
    IsGreatest ((ofParses workers parses).counts schedule) pool.gauge.peak
  /-- At the end nobody is counted, and the peak shows whether there was a parse. -/
  finished : pool.Finished → pool.gauge.current = 0 ∧ (0 < parses → 1 ≤ pool.gauge.peak)

lemma measured_run (workers parses : Nat) (schedule : List (Fin workers)) :
    Measured workers parses schedule ((ofParses workers parses).run schedule) := by
  obtain ⟨high, hhigh, hexact⟩ := exists_exact_run workers parses schedule
  have hsettled (hsettled : ((ofParses workers parses).run schedule).Settled) :
      ((ofParses workers parses).run schedule).gauge.peak = high := by
    refine Nat.le_antisymm hexact.peak_le (hexact.reached.resolve_right ?_)
    rintro ⟨w, hw⟩
    exact hsettled w high hw
  constructor
  case current_eq => exact hexact.current_eq
  case current_pos => exact fun w hw => hexact.current_pos (w := w) (by simp [hw])
  case peak_le_workers => exact Nat.le_trans hexact.peak_le (count_le_of_mem_counts hhigh.1)
  case exists_peak_le => exact ⟨high, hhigh.1, hexact.peak_le⟩
  case isGreatest_peak => exact fun h => hsettled h ▸ hhigh
  case finished =>
    rintro ⟨hwaiting, hidle⟩
    constructor
    · rw [hexact.current_eq, Finset.card_eq_zero, Finset.eq_empty_iff_forall_notMem]
      exact fun w hw => mem_busy.1 hw (hidle w)
    · intro hparses
      rw [hsettled fun w seen => by simp [hidle w]]
      have hbegun := hexact.begun
      omega

end Pool

/-! ### One worker -/

namespace Pool

variable {workers : Nat}

/-- A worker that takes its three steps in a row makes one parse. -/
lemma run_parse (gauge : Gauge) (waiting : Nat) (w : Fin workers) :
    run ⟨gauge, fun _ => .idle, waiting + 1⟩ [w, w, w] =
      ⟨gauge.enter.leave, fun _ => .idle, waiting⟩ := by
  simp [run, step, Gauge.enter]

/-- A worker that is alone makes all parses, each finished before the next begins. -/
lemma run_alone (w : Fin workers) (parses : Nat) (gauge : Gauge) :
    ∃ schedule : List (Fin workers), run ⟨gauge, fun _ => .idle, parses⟩ schedule =
      ⟨gauge.afterParses parses, fun _ => .idle, 0⟩ := by
  induction parses generalizing gauge with
  | zero => exact ⟨[], rfl⟩
  | succ parses ih =>
    obtain ⟨schedule, hschedule⟩ := ih gauge.enter.leave
    refine ⟨[w, w, w] ++ schedule, ?_⟩
    rw [run_append, run_parse]
    exact hschedule

end Pool

/-! ### Taking and giving back one at a time -/

namespace Gauge

/-- The number of slots held after some moves; giving back a slot that is not held does nothing. -/
def held (moves : List Move) : Nat :=
  moves.foldl (fun slots move => match move with | .enter => slots + 1 | .leave => slots - 1) 0

/-- The gauge after some moves counts the slots held, and its peak is the highest number held. -/
lemma measured_foldl_apply (moves : List Move) :
    (moves.foldl apply {}).current = held moves ∧
      IsGreatest (valuesAlong held moves) (moves.foldl apply {}).peak := by
  induction moves using List.reverseRecOn with
  | nil => exact ⟨rfl, isGreatest_valuesAlong_nil⟩
  | append_singleton moves move ih =>
    obtain ⟨hcurrent, hpeak⟩ := ih
    have hnext := isGreatest_valuesAlong_append_singleton hpeak move
    have hle : held moves ≤ (moves.foldl apply {}).peak := hpeak.2 ⟨moves, List.prefix_rfl, rfl⟩
    rw [List.foldl_append, List.foldl_cons, List.foldl_nil]
    cases move with
    | enter =>
      have hheld : held (moves ++ [.enter]) = held moves + 1 := by simp [held]
      rw [hheld] at hnext ⊢
      refine ⟨congrArg (· + 1) hcurrent, ?_⟩
      simpa [apply, enter, countIn, raise, hcurrent] using hnext
    | leave =>
      have hheld : held (moves ++ [.leave]) = held moves - 1 := by simp [held]
      rw [hheld, Nat.max_eq_left (by omega)] at hnext
      rw [hheld, apply]
      split
      · next hzero => exact ⟨by omega, hnext⟩
      · exact ⟨by simp only [leave]; omega, hnext⟩

/-- The peak after a move among others is that of the gauge at this point. -/
lemma peaks_getElem? (g : Gauge) (front : List Move) (move : Move) (back : List Move) :
    (g.peaks (front ++ move :: back))[front.length]? =
      some ((front ++ [move]).foldl apply g).peak := by
  induction front generalizing g with
  | nil => rfl
  | cons first front ih => exact ih (g.apply first)

end Gauge

/-! ### Scans -/

/-- The model of the files below a root, parsed by the workers of a pool that take their steps in
the order of a schedule. -/
def scanPooled (settings : Settings) (tree : FileTree) (root : List String)
    (isCancelled : List String → Bool) (schedule : List (Fin settings.workerCount)) : Model :=
  let discovery := Discovery.ofTree settings tree root
  let pool := (Pool.ofParses settings.workerCount discovery.total).run schedule
  (Model.merge (.ofDiscovery tree root isCancelled discovery)).withCounts discovery pool.gauge.peak

/-- Parsing the files one after the other is one way to schedule a pool. -/
lemma exists_scanPooled_eq (settings : Settings) (tree : FileTree) (root : List String)
    (isCancelled : List String → Bool) :
    ∃ schedule, ((Pool.ofParses settings.workerCount
        (Discovery.ofTree settings tree root).total).run schedule).Finished ∧
      scanPooled settings tree root isCancelled schedule =
        scanWith settings tree root isCancelled := by
  obtain ⟨schedule, hschedule⟩ := Pool.run_alone ⟨0, settings.one_le_workerCount⟩
    (Discovery.ofTree settings tree root).total {}
  refine ⟨schedule, ?_, ?_⟩
  · rw [Pool.ofParses, hschedule]
    exact ⟨rfl, fun _ => rfl⟩
  · rw [scanPooled, Pool.ofParses, hschedule]
    rfl

/-- **The gauge measures the parses in flight.**  For every number of workers, every number of
parses and every order of their steps: the count is the number of workers inside a parse and never
goes below zero, the peak stays within the number of workers and the counts that there were, it is
the highest of them whenever no worker has yet to raise it, and at the end nobody is counted.  So
the peak that a scan notes is at most the number of its workers, which is at most 256, in whatever
order these take their steps; parsing one file after the other is one such order.  When slots are
taken and given back one at a time, the peak after each move is the highest number of slots held so
far. -/
theorem gauge_measures_parses :
    (∀ (workers parses : Nat) (schedule : List (Fin workers)),
      Pool.Measured workers parses schedule ((Pool.ofParses workers parses).run schedule)) ∧
    (∀ (settings : Settings) (tree : FileTree) (root : List String)
        (isCancelled : List String → Bool),
      (∀ schedule, (scanPooled settings tree root isCancelled
          schedule).statistics.peakConcurrentParses ≤ settings.workerCount) ∧
      settings.workerCount ≤ 256 ∧
      ∃ schedule, ((Pool.ofParses settings.workerCount
          (Discovery.ofTree settings tree root).total).run schedule).Finished ∧
        scanPooled settings tree root isCancelled schedule =
          scanWith settings tree root isCancelled) ∧
    ∀ front move back, ∃ peak, (Gauge.peaks {} (front ++ move :: back))[front.length]? = some peak ∧
      IsGreatest (valuesAlong Gauge.held (front ++ [move])) peak := by
  refine ⟨Pool.measured_run, fun settings tree root isCancelled => ⟨fun schedule => ?_,
    settings.workerCount_le, exists_scanPooled_eq settings tree root isCancelled⟩,
    fun front move back => ?_⟩
  · exact (Pool.measured_run _ _ schedule).peak_le_workers
  · exact ⟨_, Gauge.peaks_getElem? {} front move back, (Gauge.measured_foldl_apply _).2⟩

end Survey
