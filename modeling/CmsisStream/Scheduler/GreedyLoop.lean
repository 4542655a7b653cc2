import CmsisStream.Dataflow.Loop
import CmsisStream.Scheduler.Execution
import Mathlib.Algebra.BigOperators.Group.Finset.Basic
import Mathlib.Algebra.Order.BigOperators.Group.Finset
import Mathlib.Algebra.Order.Field.Basic

/-!
# The greedy scheduling loop

The main loop of `computeSchedule` executes, among the nodes with remaining
cycles which do not make a FIFO underflow, the one giving the smallest maximum
occupancy.  The measure of occupancy is a parameter: the source divides
floating point numbers, and nothing below depends on how the quotients are
rounded or how ties are broken.

Every state reached by the loop satisfies `GreedyInvariant`.  The loop cannot
get stuck when some firing order completes the period
(`exists_greedyCandidate`), which is the exchange property of the counting net.
-/

namespace CmsisStream.Scheduler

open Dataflow

variable {g : Graph}

/-- The normalized occupancy of a possible evolution of the state. -/
abbrev Score (g : Graph) := SchedState g → Fin g.nbNodes → ℚ

/-- The normalization vector. -/
def normV (g : Graph) (e : Fin g.nbEdges) : ℕ :=
  max (g.edge e).src.nbSamples.cycleMax (g.edge e).dst.nbSamples.cycleMax

/-- The occupancy of the source, `(newB / normV).max()`, without rounding. -/
def occupancy (g : Graph) : Score g := fun s node =>
  (((List.finRange g.nbEdges).map fun e => (s.newB node e : ℚ) / normV g e).max?).getD 0

/-- The initial value of `minVal`. -/
def initialMinVal : ℚ := 10000000

/-- A node with remaining cycles whose execution gives no FIFO underflow. -/
def GreedyCandidate (s : SchedState g) (node : Fin g.nbNodes) : Prop :=
  0 < s.n node ∧ ∀ e, 0 ≤ s.newB node e

instance (s : SchedState g) (node : Fin g.nbNodes) : Decidable (GreedyCandidate s node) :=
  inferInstanceAs (Decidable (_ ∧ _))

/-- One iteration of the search for the best node. -/
def greedyConsider (score : Score g) (s : SchedState g)
    (best : ℚ × Option (Fin g.nbNodes)) (node : Fin g.nbNodes) :
    ℚ × Option (Fin g.nbNodes) :=
  if GreedyCandidate s node then
    if score s node ≤ best.1 then (score s node, some node) else best
  else best

/-- The node selected by the main loop; `none` for `selected = -1`. -/
def selectGreedy (score : Score g) (s : SchedState g) : Option (Fin g.nbNodes) :=
  ((List.finRange g.nbNodes).foldl (greedyConsider score s) (initialMinVal, none)).2

/-- The body of the main loop once a node is selected. -/
def greedyExecute (analyze : Bool) (s : SchedState g) (selected : Fin g.nbNodes) :
    SchedState g :=
  let executed := s.execute analyze selected
  { executed with bMax := fun e => max (executed.b e) (s.bMax e) }

/-- No node has remaining cycles. -/
def SchedState.finished (s : SchedState g) : Bool := decide (∀ i, s.n i = 0)

/-- The main loop of `computeSchedule`; it is stuck when the source raises
`DeadlockError`. -/
def greedyLoop (score : Score g) (analyze : Bool) : Loop (SchedState g) where
  finished := SchedState.finished
  step s := (selectGreedy score s).map (greedyExecute analyze s)

/-- The state before the main loop. -/
def initialState (g : Graph) (initN : Fin g.nbNodes → ℤ) : SchedState g where
  b e := (g.edge e).delay
  n := initN
  srcPosition _ := 0
  dstPosition _ := 0
  positionInCycle _ := 0
  bMax e := (g.edge e).delay
  schedule := []
  liveInterval _ := (-1, -1)

/-! ### Selection -/

theorem greedyConsider_cases (score : Score g) (s : SchedState g)
    (best : ℚ × Option (Fin g.nbNodes)) (node : Fin g.nbNodes) :
    greedyConsider score s best node = best ∨
      (GreedyCandidate s node ∧
        greedyConsider score s best node = (score s node, some node)) := by
  unfold greedyConsider
  split_ifs with candidate smaller
  · exact Or.inr ⟨candidate, rfl⟩
  · exact Or.inl rfl
  · exact Or.inl rfl

theorem foldl_greedyConsider_candidate {score : Score g} {s : SchedState g}
    (nodes : List (Fin g.nbNodes)) {best : ℚ × Option (Fin g.nbNodes)}
    (sound : ∀ node, best.2 = some node → GreedyCandidate s node) :
    ∀ node, (nodes.foldl (greedyConsider score s) best).2 = some node →
      GreedyCandidate s node := by
  induction nodes generalizing best with
  | nil => exact sound
  | cons first nodes ih =>
      apply ih
      rcases greedyConsider_cases score s best first with same | ⟨candidate, eq⟩
      · rw [same]
        exact sound
      · rw [eq]
        rintro node ⟨⟩
        exact candidate

theorem selectGreedy_candidate {score : Score g} {s : SchedState g} {node : Fin g.nbNodes}
    (selected : selectGreedy score s = some node) : GreedyCandidate s node :=
  foldl_greedyConsider_candidate _ (by simp) node selected

theorem foldl_greedyConsider_isSome {score : Score g} {s : SchedState g}
    (nodes : List (Fin g.nbNodes)) {best : ℚ × Option (Fin g.nbNodes)}
    (isSome : best.2.isSome) : (nodes.foldl (greedyConsider score s) best).2.isSome := by
  induction nodes generalizing best with
  | nil => exact isSome
  | cons first nodes ih =>
      apply ih
      rcases greedyConsider_cases score s best first with same | ⟨-, eq⟩
      · rwa [same]
      · rw [eq]
        rfl

theorem selectGreedy_isSome {score : Score g} {s : SchedState g} {node : Fin g.nbNodes}
    (candidate : GreedyCandidate s node)
    (below : score s node ≤ initialMinVal) : (selectGreedy score s).isSome := by
  have general : ∀ nodes : List (Fin g.nbNodes), node ∈ nodes →
      (nodes.foldl (greedyConsider score s) (initialMinVal, none)).2.isSome := by
    intro nodes
    induction nodes with
    | nil => simp
    | cons first nodes ih =>
        intro mem
        rcases greedyConsider_cases score s (initialMinVal, none) first with same | ⟨-, eq⟩
        · rcases List.mem_cons.mp mem with rfl | rest
          · -- the node itself is considered while `minVal` still has its initial value
            simp [greedyConsider, candidate, below] at same
          · rw [List.foldl_cons, same]
            exact ih rest
        · rw [List.foldl_cons, eq]
          exact foldl_greedyConsider_isSome nodes rfl
  exact general _ (List.mem_finRange node)

/-! ### Invariant -/

/-- The capacities given by the maxima recorded so far. -/
def capacityOf (bMax : Fin g.nbEdges → ℤ) : Fin g.nbEdges → WithTop ℤ := fun e => bMax e

/-- What holds in every state of the main loop. -/
structure GreedyInvariant (q : Fin g.nbNodes → ℤ) (s : SchedState g) : Prop where
  tracks : s.Tracks q
  admissible : g.net.Admissible (capacityOf s.bMax) s.schedule
  executed_le : s.executed ≤ g.repetitions q
  bMax_reached : ∀ e, ∃ before, before <+: s.schedule ∧
    g.net.level (counts before) e = s.bMax e

theorem initialState_tracks (q : Fin g.nbNodes → ℤ) : (initialState g q).Tracks q := by
  constructor <;>
    simp [initialState, SchedState.executed, Net.level, Graph.net, NbSamples.transferred]

theorem initialState_invariant (q : Fin g.nbNodes → ℤ) :
    GreedyInvariant q (initialState g q) := by
  refine ⟨initialState_tracks q, ?_, ?_, ?_⟩
  · rw [initialState, Net.admissible_nil_iff]
    intro e
    simp [Net.level, Graph.net, NbSamples.transferred, capacityOf]
  · intro node
    simp [initialState, SchedState.executed]
  · intro e
    refine ⟨[], List.nil_prefix, ?_⟩
    simp [initialState, Net.level, Graph.net, NbSamples.transferred]

theorem GreedyInvariant.delay_le {q : Fin g.nbNodes → ℤ} {s : SchedState g}
    (invariant : GreedyInvariant q s) (e : Fin g.nbEdges) : (g.edge e).delay ≤ s.bMax e := by
  have within := (invariant.admissible [] List.nil_prefix e).2
  simp only [counts_nil, Net.level, Graph.net, NbSamples.transferred, cyclicTotal_zero,
    Nat.cast_zero, add_zero, sub_zero] at within
  exact WithTop.coe_le_coe.mp within

/-- A node has remaining cycles exactly when it was not executed often enough. -/
theorem SchedState.Tracks.n_pos_iff {q : Fin g.nbNodes → ℤ} {s : SchedState g}
    (tracks : s.Tracks q) (node : Fin g.nbNodes) :
    0 < s.n node ↔ s.executed node < g.repetitions q node := by
  have positive := Graph.cyclePeriod_pos node
  rw [tracks.n, Graph.repetitions, ← Nat.div_lt_iff_lt_mul positive]
  generalize s.executed node / g.cyclePeriod node = cycles
  omega

/-- When no cycle remains, every node was executed as often as required. -/
theorem SchedState.Tracks.executed_eq {q : Fin g.nbNodes → ℤ} {s : SchedState g}
    (tracks : s.Tracks q) (le : s.executed ≤ g.repetitions q) (done : ∀ i, s.n i = 0) :
    s.executed = g.repetitions q := by
  funext node
  apply le_antisymm (le node)
  by_contra notReached
  have remaining := (tracks.n_pos_iff node).mpr (not_le.mp notReached)
  rw [done] at remaining
  exact lt_irrefl _ remaining

/-- When every node was executed as often as required, no cycle remains. -/
theorem SchedState.Tracks.done_of_executed {q : Fin g.nbNodes → ℤ} {s : SchedState g}
    (tracks : s.Tracks q) (executed : s.executed = g.repetitions q) (nonneg : ∀ i, 0 ≤ q i)
    (i : Fin g.nbNodes) : s.n i = 0 := by
  rw [tracks.n, executed, Graph.repetitions,
    Nat.mul_div_cancel _ (Graph.cyclePeriod_pos i), Int.toNat_of_nonneg (nonneg i),
    sub_self]

theorem SchedState.Tracks.q_nonneg {q : Fin g.nbNodes → ℤ} {s : SchedState g}
    (tracks : s.Tracks q) (done : ∀ i, s.n i = 0) (node : Fin g.nbNodes) : 0 ≤ q node := by
  have remaining := tracks.n node
  rw [done] at remaining
  generalize s.executed node / g.cyclePeriod node = cycles at remaining
  omega

/-- A bump of a node with remaining cycles stays below the repetitions. -/
theorem bump_executed_le {q : Fin g.nbNodes → ℤ} {s : SchedState g} (tracks : s.Tracks q)
    (le : s.executed ≤ g.repetitions q) {node : Fin g.nbNodes} (remaining : 0 < s.n node) :
    bump s.executed node ≤ g.repetitions q := by
  intro other
  by_cases same : other = node
  · subst same
    rw [bump_self]
    exact (tracks.n_pos_iff other).mp remaining
  · rw [bump_of_ne _ same]
    exact le other

@[simp]
theorem greedyExecute_schedule (analyze : Bool) (s : SchedState g) (node : Fin g.nbNodes) :
    (greedyExecute analyze s node).schedule = s.schedule ++ [node] := rfl

@[simp]
theorem greedyExecute_executed (analyze : Bool) (s : SchedState g) (node : Fin g.nbNodes) :
    (greedyExecute analyze s node).executed = bump s.executed node :=
  counts_concat _ _

theorem greedyExecute_bMax (analyze : Bool) (s : SchedState g) (node : Fin g.nbNodes)
    (e : Fin g.nbEdges) :
    (greedyExecute analyze s node).bMax e = max (s.newB node e) (s.bMax e) := rfl

theorem greedyExecute_tracks (noLoop : g.NoLoop) {q : Fin g.nbNodes → ℤ} {s : SchedState g}
    (analyze : Bool) (tracks : s.Tracks q) (node : Fin g.nbNodes) :
    (greedyExecute analyze s node).Tracks q := by
  have executed := tracks.execute analyze noLoop node
  exact ⟨executed.b, executed.n, executed.srcPosition, executed.dstPosition,
    executed.positionInCycle⟩

/-- Executing a candidate preserves the invariant of the main loop. -/
theorem GreedyInvariant.execute (noLoop : g.NoLoop) {q : Fin g.nbNodes → ℤ}
    {s : SchedState g} (invariant : GreedyInvariant q s) (analyze : Bool)
    {node : Fin g.nbNodes} (candidate : GreedyCandidate s node) :
    GreedyInvariant q (greedyExecute analyze s node) := by
  have newLevel := invariant.tracks.newB noLoop node
  have grows : capacityOf s.bMax ≤ capacityOf (greedyExecute analyze s node).bMax := by
    intro e
    exact WithTop.coe_le_coe.mpr (le_max_right _ _)
  refine ⟨greedyExecute_tracks noLoop analyze invariant.tracks node, ?_, ?_, ?_⟩
  · rw [greedyExecute_schedule, Net.admissible_concat_iff]
    refine ⟨invariant.admissible.mono grows, ?_⟩
    intro e
    change 0 ≤ g.net.level (bump s.executed node) e ∧
      ((g.net.level (bump s.executed node) e : ℤ) : WithTop ℤ) ≤ _
    rw [← newLevel]
    exact ⟨candidate.2 e, WithTop.coe_le_coe.mpr (le_max_left _ _)⟩
  · rw [greedyExecute_executed]
    exact bump_executed_le invariant.tracks invariant.executed_le candidate.1
  · intro e
    rw [greedyExecute_bMax, greedyExecute_schedule]
    rcases le_total (s.newB node e) (s.bMax e) with smaller | larger
    · obtain ⟨before, isPrefix, eq⟩ := invariant.bMax_reached e
      rw [max_eq_right smaller]
      exact ⟨before, isPrefix.trans (List.prefix_append _ _), eq⟩
    · rw [max_eq_left larger, newLevel]
      exact ⟨s.schedule ++ [node], List.prefix_rfl, by rw [counts_concat]; rfl⟩

theorem GreedyInvariant.step (noLoop : g.NoLoop) {q : Fin g.nbNodes → ℤ} {score : Score g}
    {analyze : Bool} {s next : SchedState g} (invariant : GreedyInvariant q s)
    (stepsTo : (greedyLoop score analyze).step s = some next) : GreedyInvariant q next := by
  obtain ⟨node, selected, rfl⟩ := Option.map_eq_some_iff.mp stepsTo
  exact invariant.execute noLoop analyze (selectGreedy_candidate selected)

theorem greedyLoop_reached (noLoop : g.NoLoop) {q : Fin g.nbNodes → ℤ} {score : Score g}
    {analyze : Bool} {s : SchedState g}
    (reached : (greedyLoop score analyze).Reached (initialState g q) s) : GreedyInvariant q s :=
  reached.invariant (initialState_invariant q) fun _ _ invariant stepsTo =>
    invariant.step noLoop stepsTo

theorem SchedState.finished_iff {s : SchedState g} : s.finished = true ↔ ∀ i, s.n i = 0 := by
  simp [SchedState.finished]

/-- The invariant holds at the end of the main loop, with no cycle left. -/
theorem greedyLoop_invariant (noLoop : g.NoLoop) {q : Fin g.nbNodes → ℤ} {score : Score g}
    {analyze : Bool} {fuel : ℕ} {final : SchedState g}
    (run : (greedyLoop score analyze).run fuel (initialState g q) = .finished final) :
    GreedyInvariant q final ∧ ∀ i, final.n i = 0 := by
  obtain ⟨reached, done⟩ := Loop.Reached.init.of_run run
  exact ⟨greedyLoop_reached noLoop reached, SchedState.finished_iff.mp done⟩

/-- After the last iteration every node was executed as often as required. -/
theorem greedyLoop_executed (noLoop : g.NoLoop) {q : Fin g.nbNodes → ℤ} {score : Score g}
    {analyze : Bool} {fuel : ℕ} {final : SchedState g}
    (run : (greedyLoop score analyze).run fuel (initialState g q) = .finished final) :
    final.executed = g.repetitions q := by
  obtain ⟨invariant, done⟩ := greedyLoop_invariant noLoop run
  exact invariant.tracks.executed_eq invariant.executed_le done

/-! ### Completeness -/

/-- A firing order which completes one period without going below zero. -/
structure CompletesPeriod (g : Graph) (q : Fin g.nbNodes → ℤ) (order : List (Fin g.nbNodes)) :
    Prop where
  fires : ∀ node, (counts order node : ℤ) = q node * g.cyclePeriod node
  nonneg : ∀ before, before <+: order → ∀ e, 0 ≤ g.net.level (counts before) e

namespace CompletesPeriod

variable {q : Fin g.nbNodes → ℤ} {order : List (Fin g.nbNodes)}

theorem q_nonneg (completes : CompletesPeriod g q order) (node : Fin g.nbNodes) :
    0 ≤ q node := by
  have positive : (0 : ℤ) < g.cyclePeriod node := by
    exact_mod_cast Graph.cyclePeriod_pos node
  have count : 0 ≤ q node * g.cyclePeriod node := completes.fires node ▸ Int.natCast_nonneg _
  exact nonneg_of_mul_nonneg_left count positive

theorem counts_eq (completes : CompletesPeriod g q order) :
    counts order = g.repetitions q := by
  funext node
  have count := completes.fires node
  rw [Graph.repetitions]
  zify
  rw [Int.toNat_of_nonneg (completes.q_nonneg node), count]

theorem admissible (completes : CompletesPeriod g q order) :
    g.net.Admissible (fun _ => ⊤) order :=
  fun before isPrefix e => ⟨completes.nonneg before isPrefix e, le_top⟩

end CompletesPeriod

/-- The candidates met by the main loop have a score at most the initial `minVal`. -/
def ScoresBelowSentinel (score : Score g) (analyze : Bool) (q : Fin g.nbNodes → ℤ) : Prop :=
  ∀ s, (greedyLoop score analyze).Reached (initialState g q) s →
    ∀ node, GreedyCandidate s node → score s node ≤ initialMinVal

/-- The executions left to do. -/
def SchedState.left (q : Fin g.nbNodes → ℤ) (s : SchedState g) : ℕ :=
  ∑ i, g.repetitions q i - s.schedule.length

theorem schedule_length_le {q : Fin g.nbNodes → ℤ} {s : SchedState g}
    (le : s.executed ≤ g.repetitions q) : s.schedule.length ≤ ∑ i, g.repetitions q i := by
  rw [← Net.sum_counts]
  exact Finset.sum_le_sum fun i _ => le i

/-- One more execution leaves less to do. -/
theorem left_lt_of_concat {q : Fin g.nbNodes → ℤ} {s next : SchedState g}
    {node : Fin g.nbNodes} (concat : next.schedule = s.schedule ++ [node])
    (le : next.executed ≤ g.repetitions q) : next.left q < s.left q := by
  have total := schedule_length_le le
  simp only [SchedState.left, concat, List.length_append, List.length_singleton] at total ⊢
  omega

/-- All the executions of a period are in the schedule. -/
theorem schedule_length_eq {q : Fin g.nbNodes → ℤ} {s : SchedState g}
    (executed : s.executed = g.repetitions q) :
    s.schedule.length = ∑ i, g.repetitions q i := by
  rw [← Net.sum_counts, ← executed]
  rfl

theorem repetitions_cast {q : Fin g.nbNodes → ℤ} (nonneg : ∀ i, 0 ≤ q i)
    (node : Fin g.nbNodes) : (g.repetitions q node : ℤ) = q node * g.cyclePeriod node := by
  rw [Graph.repetitions]
  push_cast
  rw [Int.toNat_of_nonneg (nonneg node)]

theorem sum_repetitions_cast {q : Fin g.nbNodes → ℤ} (nonneg : ∀ i, 0 ≤ q i) :
    ((∑ i, g.repetitions q i : ℕ) : ℤ) = ∑ i, q i * g.cyclePeriod i := by
  push_cast
  exact Finset.sum_congr rfl fun i _ => repetitions_cast nonneg i

section

variable {q : Fin g.nbNodes → ℤ} {order : List (Fin g.nbNodes)} {score : Score g}
  {analyze : Bool}

/-- As long as cycles remain, some node can be executed. -/
theorem exists_greedyCandidate (noLoop : g.NoLoop) (completes : CompletesPeriod g q order)
    {s : SchedState g} (invariant : GreedyInvariant q s) (remaining : ¬∀ i, s.n i = 0) :
    ∃ node, GreedyCandidate s node := by
  have notReached : s.executed ≠ counts order := fun eq =>
    remaining (invariant.tracks.done_of_executed (eq.trans completes.counts_eq)
      completes.q_nonneg)
  have le : s.executed ≤ counts order := completes.counts_eq ▸ invariant.executed_le
  have within : g.net.Within (fun _ => ⊤) s.executed :=
    invariant.admissible.within.mono fun _ => le_top
  obtain ⟨node, below, possible⟩ :=
    g.net.exists_within_bump noLoop completes.admissible within le notReached
  refine ⟨node, ?_, ?_⟩
  · rw [invariant.tracks.n_pos_iff, ← completes.counts_eq]
    exact below
  · intro e
    rw [invariant.tracks.newB noLoop]
    exact (possible e).1

/-- The main loop finds a node to execute while cycles remain. -/
theorem greedyLoop_progress (noLoop : g.NoLoop) (completes : CompletesPeriod g q order)
    (scores : ScoresBelowSentinel score analyze q) (s : SchedState g)
    (reached : (greedyLoop score analyze).Reached (initialState g q) s)
    (unfinished : (greedyLoop score analyze).finished s = false) :
    ((greedyLoop score analyze).step s).isSome := by
  have remaining : ¬∀ i, s.n i = 0 := by
    rw [← SchedState.finished_iff]
    exact Bool.not_eq_true _ ▸ unfinished
  obtain ⟨node, candidate⟩ :=
    exists_greedyCandidate noLoop completes (greedyLoop_reached noLoop reached) remaining
  rw [greedyLoop, Option.isSome_map]
  exact selectGreedy_isSome candidate (scores s reached node candidate)

theorem greedyLoop_decreases (noLoop : g.NoLoop) (s next : SchedState g)
    (reached : (greedyLoop score analyze).Reached (initialState g q) s)
    (stepsTo : (greedyLoop score analyze).step s = some next) : next.left q < s.left q := by
  have invariant := (greedyLoop_reached noLoop reached).step noLoop stepsTo
  obtain ⟨node, -, rfl⟩ := Option.map_eq_some_iff.mp stepsTo
  exact left_lt_of_concat (greedyExecute_schedule analyze s node) invariant.executed_le

end

/-! ### The sentinel -/

/-- The occupancy is at most a bound of all the FIFO sizes. -/
theorem occupancy_le {s : SchedState g} {node : Fin g.nbNodes} {bound : ℚ} (nonneg : 0 ≤ bound)
    (le : ∀ e, 0 ≤ s.newB node e ∧ (s.newB node e : ℚ) ≤ bound) :
    occupancy g s node ≤ bound := by
  have each : ∀ e, (s.newB node e : ℚ) / normV g e ≤ bound := by
    intro e
    rcases Nat.eq_zero_or_pos (normV g e) with zero | positive
    · simpa [zero] using nonneg
    · have atLeastOne : (1 : ℚ) ≤ normV g e := by exact_mod_cast positive
      have size : (0 : ℚ) ≤ s.newB node e := by exact_mod_cast (le e).1
      exact (div_le_self size atLeastOne).trans (le e).2
  unfold occupancy
  cases largest : ((List.finRange g.nbEdges).map fun e =>
      (s.newB node e : ℚ) / normV g e).max? with
  | none => exact nonneg
  | some value =>
      obtain ⟨e, -, eq⟩ := List.mem_map.mp (List.max?_mem largest)
      rw [Option.getD_some, ← eq]
      exact each e

/-- No FIFO has more samples than its delay and what its source produces in a period. -/
theorem newB_le (noLoop : g.NoLoop) {q : Fin g.nbNodes → ℤ} {s : SchedState g}
    (invariant : GreedyInvariant q s) {node : Fin g.nbNodes} (remaining : 0 < s.n node)
    (e : Fin g.nbEdges) : s.newB node e ≤ (g.edge e).delay +
      ((g.edge e).src.nbSamples.transferred (g.repetitions q (g.edge e).srcOwner) : ℕ) := by
  have le := bump_executed_le invariant.tracks invariant.executed_le remaining
  have produced := (g.edge e).src.nbSamples.transferred_mono (le (g.edge e).srcOwner)
  rw [invariant.tracks.newB noLoop]
  simp only [Net.level, Graph.net]
  omega

/-- Small delays and productions keep the scores below the initial `minVal`. -/
theorem scoresBelowSentinel_of_small (noLoop : g.NoLoop) {q : Fin g.nbNodes → ℤ}
    {analyze : Bool} (small : ∀ e, (g.edge e).delay +
      (g.edge e).src.nbSamples.transferred (g.repetitions q (g.edge e).srcOwner) ≤ 10000000) :
    ScoresBelowSentinel (occupancy g) analyze q := by
  intro s reached node candidate
  apply occupancy_le (by norm_num [initialMinVal])
  intro e
  have le := newB_le noLoop (greedyLoop_reached noLoop reached) candidate.1 e
  refine ⟨candidate.2 e, ?_⟩
  have bound : s.newB node e ≤ 10000000 := le.trans (by exact_mod_cast small e)
  rw [initialMinVal]
  exact_mod_cast bound

/-! ### Main result -/

/-- If some firing order completes a period, the main loop never deadlocks and ends after
as many firings as a period has. -/
theorem greedyLoop_complete (noLoop : g.NoLoop) {q : Fin g.nbNodes → ℤ}
    {order : List (Fin g.nbNodes)} (completes : CompletesPeriod g q order) {score : Score g}
    {analyze : Bool} (scores : ScoresBelowSentinel score analyze q) :
    (∀ fuel final, (greedyLoop score analyze).run fuel (initialState g q) ≠ .stuck final) ∧
      ∀ fuel : ℕ, ∑ i, q i * g.cyclePeriod i ≤ fuel →
        ∃ final, (greedyLoop score analyze).run fuel (initialState g q) = .finished final ∧
          (final.schedule.length : ℤ) = ∑ i, q i * g.cyclePeriod i := by
  have progress := greedyLoop_progress noLoop completes scores
  have total := sum_repetitions_cast completes.q_nonneg
  refine ⟨Loop.Reached.init.run_ne_stuck progress, ?_⟩
  intro fuel enough
  have enoughLeft : (initialState g q).left q ≤ fuel := by
    rw [← total] at enough
    exact (Nat.sub_le _ _).trans (Int.ofNat_le.mp enough)
  obtain ⟨final, run⟩ := Loop.Reached.init.run_finishes progress (SchedState.left q)
    (fun s next reached _ stepsTo => greedyLoop_decreases noLoop s next reached stepsTo)
    enoughLeft
  refine ⟨final, run, ?_⟩
  rw [← total, schedule_length_eq (greedyLoop_executed noLoop run)]

/-- A source connected to a sink. -/
def sourceSink (src dst : IOPort) (delay : ℕ) : Graph where
  nbNodes := 2
  nbEdges := 1
  edge _ := ⟨0, 1, src, dst, delay, 4, none⟩
  constantInputs _ := []
  duplicateInput _ := none
  duplicateInput_iff := by simp
  duplicateOutput := by simp

/-- A cyclo-static source, writing one sample and then two, connected to a sink. -/
def cycloSourceSink : Graph :=
  sourceSink ⟨.list [1, 2], by decide⟩ ⟨.int 3, by decide⟩ 0

theorem sourceSink_noLoop (src dst : IOPort) (delay : ℕ) : (sourceSink src dst delay).NoLoop :=
  fun _ same => absurd (congrArg Fin.val same) (by simp [sourceSink])

theorem cycloSourceSink_completes :
    CompletesPeriod cycloSourceSink (fun _ => 1) [(0 : Fin 2), (0 : Fin 2), (1 : Fin 2)] := by
  have prefixes : ∀ before ∈ List.inits [(0 : Fin 2), (0 : Fin 2), (1 : Fin 2)],
      ∀ e, 0 ≤ cycloSourceSink.net.level (counts before) e := by decide +kernel
  exact ⟨by decide +kernel, fun before isPrefix =>
    prefixes before ((List.mem_inits _ _).mpr isPrefix)⟩

theorem cycloSourceSink_greedyLoop :
    ∃ final, (greedyLoop (occupancy cycloSourceSink) true).run 3
        (initialState cycloSourceSink fun _ => 1) = .finished final ∧
      final.schedule.length = 3 := by
  have scores : ScoresBelowSentinel (occupancy cycloSourceSink) true fun _ => 1 :=
    scoresBelowSentinel_of_small (sourceSink_noLoop _ _ _) (by decide +kernel)
  have total : ∑ i, (1 : ℤ) * cycloSourceSink.cyclePeriod i = 3 := by decide +kernel
  obtain ⟨final, run, length⟩ := (greedyLoop_complete (sourceSink_noLoop _ _ _)
    cycloSourceSink_completes scores).2 3 total.le
  exact ⟨final, run, Int.ofNat_inj.mp (length.trans total)⟩

end CmsisStream.Scheduler
