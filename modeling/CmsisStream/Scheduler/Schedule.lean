import CmsisStream.Scheduler.LiveIntervals
import CmsisStream.Scheduler.Storage

/-!
# Computing a schedule

`computeSchedule` puts the pieces together: the repetition vector, the main
loop, the pass with sink prioritization when it is enabled and possible, and the
description of the FIFOs.  Whatever the strategy, the schedule is a period of
the counting net within the maxima recorded by the first pass.
-/

namespace CmsisStream.Scheduler

open Dataflow

/-- `astype(np.int32)` on an integral floating point number: a number which does not fit
is converted to the smallest integer. -/
def toInt32 (x : ℤ) : ℤ :=
  if -2 ^ 31 ≤ x ∧ x < 2 ^ 31 then x else -2 ^ 31

/-- The result of `computeSchedule`, with the final state of the simulation. -/
structure Schedule (g : Graph) where
  initN : Fin g.nbNodes → ℤ
  state : SchedState g
  fifos : FIFODescriptions g

namespace Schedule

variable {g : Graph}

/-- The nodes in the order in which they are executed. -/
def schedule (s : Schedule g) : List (Fin g.nbNodes) := s.state.schedule

/-- The maximum FIFO sizes of the first pass. -/
def bMax (s : Schedule g) : Fin g.nbEdges → ℤ := s.state.bMax

/-- The length of a FIFO. -/
def fifoLength (s : Schedule g) (e : Fin g.nbEdges) : ℤ := (s.fifos.fifo e).length

end Schedule

section Compute

variable {g : Graph}

/-- The exceptions of the scheduling loops. -/
def raise {State : Type*} : Loop.Outcome State → Except SchedError State
  | .finished final => .ok final
  | .stuck _ => .error .deadlock
  | .running _ => .error .outOfFuel

/-- The layers when sinks are prioritized and the graph has no loops; empty otherwise. -/
def topologicalSort (g : Graph) (config : Configuration) : List (List (Fin g.nbNodes)) :=
  if config.sinkPriority then g.computeSinkTopologicalSortOfNodes else []

/-- `mustDoSinkPrioritization` -/
def mustDoSinkPrioritization (g : Graph) (config : Configuration) : Bool :=
  topologicalSort g config ≠ []

/-- More iterations than a scheduling loop can have. -/
def loopFuel (g : Graph) (q : Fin g.nbNodes → ℤ) : ℕ :=
  ∑ i, g.repetitions q i + 1

/-- The two passes of `computeSchedule`: the final state, and the evolution time at the end
of the first pass. -/
def schedulingPasses (score : Score g) (config : Configuration) (initN : Fin g.nbNodes → ℤ) :
    Except SchedError (SchedState g × ℕ) := do
  let first ← raise ((greedyLoop score (!mustDoSinkPrioritization g config)).run
    (loopFuel g initN) (initialState g initN))
  if mustDoSinkPrioritization g config then
    let final ← raise (computeTopologicalOrderSchedule score (topologicalSort g config) initN
      first (loopFuel g initN))
    return (final.2, first.schedule.length)
  else return (first, first.schedule.length)

/-- `Graph.computeSchedule` in synchronous mode, for a graph with data edges. -/
def computeSchedule (nullspace : Nullspace) (score : Score g) (coloring : Coloring g)
    (config : Configuration) : Except SchedError (Schedule g) := do
  if !g.isConnected then throw .graphIsNotConnected
  let initN ← nullVector nullspace g.topologyMatrix
  let (state, evolutionTime) ← schedulingPasses score config initN
  let fifoMax := fun e => toInt32 (state.bMax e)
  let fifos ← initializeFIFODescriptions g coloring config state.liveInterval fifoMax
    evolutionTime
  return { initN := initN, state := state, fifos := fifos }

theorem raise_eq_ok {State : Type*} {outcome : Loop.Outcome State} {final : State} :
    raise outcome = .ok final ↔ outcome = .finished final := by
  cases outcome <;> simp [raise]

/-- What holds of the final state of the scheduling passes. -/
structure SchedulePeriod (q : Fin g.nbNodes → ℤ) (s : SchedState g) : Prop where
  invariant : SinkInvariant q s.bMax s
  executed : s.executed = g.repetitions q
  nonneg : ∀ i, 0 ≤ q i
  recorded : s.LiveRecorded

/-- Both passes end after one period, within the maxima of the first pass. -/
theorem schedulingPasses_period (noLoop : g.NoLoop) {score : Score g} {config : Configuration}
    {q : Fin g.nbNodes → ℤ} {s : SchedState g} {evolutionTime : ℕ}
    (passes : schedulingPasses score config q = .ok (s, evolutionTime)) :
    SchedulePeriod q s ∧ evolutionTime = s.schedule.length := by
  unfold schedulingPasses at passes
  cases firstPass : raise ((greedyLoop score (!mustDoSinkPrioritization g config)).run
      (loopFuel g q) (initialState g q)) with
  | error error => simp [firstPass, bind, Except.bind] at passes
  | ok first =>
      simp only [firstPass, bind, Except.bind] at passes
      have run := raise_eq_ok.mp firstPass
      obtain ⟨invariant, done⟩ := greedyLoop_invariant noLoop run
      have executed := greedyLoop_executed noLoop run
      have nonneg := invariant.tracks.q_nonneg done
      have reached := (Loop.Reached.init.of_run run).1
      split_ifs at passes with prioritize
      · cases secondPass : raise (computeTopologicalOrderSchedule score
            (topologicalSort g config) q first (loopFuel g q)) with
        | error error => simp [secondPass] at passes
        | ok final =>
            simp only [secondPass, pure, Except.pure, Except.ok.injEq, Prod.mk.injEq] at passes
            obtain ⟨rfl, rfl⟩ := passes
            have run' := raise_eq_ok.mp secondPass
            have initial : SinkInvariant q first.bMax (restart q first) :=
              restart_invariant (invariant.tracks.positionsReset executed)
                fun e => invariant.delay_le e
            obtain ⟨invariant', executed'⟩ := sinkLoop_invariant noLoop initial run'
            rw [prioritize] at reached
            have unused : first.Unused := greedyLoop_unused reached
            have recorded : (restart q first).LiveRecorded :=
              SchedState.Unused.liveRecorded unused rfl
            have reached' := (Loop.Reached.init.of_run run').1
            refine ⟨⟨?_, executed', nonneg,
              sinkLoop_liveRecorded noLoop initial recorded reached'⟩, ?_⟩
            · rw [invariant'.bMax_eq]
              exact invariant'
            · rw [schedule_length_eq executed, schedule_length_eq executed']
      · simp only [pure, Except.pure, Except.ok.injEq, Prod.mk.injEq] at passes
        obtain ⟨rfl, rfl⟩ := passes
        rw [Bool.not_eq_true] at prioritize
        rw [prioritize] at reached
        exact ⟨⟨⟨invariant.tracks, invariant.admissible, invariant.executed_le, rfl⟩, executed,
          nonneg, greedyLoop_liveRecorded noLoop reached⟩, rfl⟩

theorem raise_ne_outOfFuel {State : Type*} {outcome : Loop.Outcome State}
    (notRunning : ∀ final, outcome ≠ .running final) : raise outcome ≠ .error .outOfFuel := by
  cases outcome with
  | finished final => simp [raise]
  | stuck final => simp [raise]
  | running final => exact absurd rfl (notRunning final)

/-- The fuel is enough for both passes. -/
theorem schedulingPasses_ne_outOfFuel (noLoop : g.NoLoop) (score : Score g)
    (config : Configuration) (q : Fin g.nbNodes → ℤ) :
    schedulingPasses score config q ≠ .error .outOfFuel := by
  have enough : ∀ s : SchedState g, s.left q < loopFuel g q := fun s =>
    Nat.lt_succ_of_le (Nat.sub_le _ _)
  unfold schedulingPasses
  cases firstPass : raise ((greedyLoop score (!mustDoSinkPrioritization g config)).run
      (loopFuel g q) (initialState g q)) with
  | error error =>
      simp only [bind, Except.bind]
      rintro ⟨⟩
      exact raise_ne_outOfFuel (Loop.Reached.init.run_ne_running (SchedState.left q)
        (fun s next reached _ stepsTo => greedyLoop_decreases noLoop s next reached stepsTo)
        (enough _)) firstPass
  | ok first =>
      simp only [bind, Except.bind]
      have run := raise_eq_ok.mp firstPass
      obtain ⟨invariant, done⟩ := greedyLoop_invariant noLoop run
      have initial : SinkInvariant q first.bMax (restart q first) :=
        restart_invariant
          (invariant.tracks.positionsReset (greedyLoop_executed noLoop run))
          fun e => invariant.delay_le e
      split_ifs
      · cases secondPass : raise (computeTopologicalOrderSchedule score
            (topologicalSort g config) q first (loopFuel g q)) with
        | error error =>
            simp only
            rintro ⟨⟩
            exact raise_ne_outOfFuel (Loop.Reached.init.run_ne_running (fun s => s.2.left q)
              (fun s next reached _ stepsTo =>
                sinkLoop_decreases noLoop initial s next reached stepsTo) (enough _)) secondPass
        | ok final => simp [pure, Except.pure]
      · simp [pure, Except.pure]

/-- A schedule is only computed for a connected graph with a repetition vector. -/
theorem computeSchedule_solved {nullspace : Nullspace} {score : Score g} {coloring : Coloring g}
    {config : Configuration} {result : Schedule g}
    (computed : computeSchedule nullspace score coloring config = .ok result) :
    g.isConnected = true ∧ nullVector nullspace g.topologyMatrix = .ok result.initN := by
  simp only [computeSchedule, bind, Except.bind, pure, Except.pure] at computed
  split at computed
  · simp at computed
  rename_i connected
  split at computed
  · simp at computed
  rename_i initN solved
  split at computed
  · simp at computed
  split at computed
  · simp at computed
  cases computed
  refine ⟨?_, solved⟩
  revert connected
  cases g.isConnected <;> simp

/-- The steps of a successful `computeSchedule`. -/
theorem computeSchedule_ok (noLoop : g.NoLoop) {nullspace : Nullspace} {score : Score g}
    {coloring : Coloring g} {config : Configuration} {result : Schedule g}
    (computed : computeSchedule nullspace score coloring config = .ok result) :
    nullVector nullspace g.topologyMatrix = .ok result.initN ∧
      SchedulePeriod result.initN result.state ∧
      initializeFIFODescriptions g coloring config result.state.liveInterval
        (fun e => toInt32 (result.bMax e)) result.schedule.length = .ok result.fifos := by
  unfold computeSchedule at computed
  simp only [bind, Except.bind, pure, Except.pure] at computed
  split at computed
  · simp at computed
  split at computed
  · simp at computed
  rename_i q solved
  split at computed
  · simp at computed
  rename_i passes
  split at computed
  · simp at computed
  rename_i described
  obtain rfl := Except.ok.inj computed
  obtain ⟨period, evolutionTime⟩ := schedulingPasses_period noLoop passes
  rw [evolutionTime] at described
  exact ⟨solved, period, described⟩

end Compute

/-! ### Admissibility -/

section Admissibility

variable {g : Graph} {q : Fin g.nbNodes → ℤ} {s : SchedState g}

namespace SchedulePeriod

theorem counts_eq (period : SchedulePeriod q s) (node : Fin g.nbNodes) :
    (counts s.schedule node : ℤ) = q node * g.cyclePeriod node := by
  rw [← repetitions_cast period.nonneg node]
  exact congrArg Nat.cast (congrFun period.executed node)

/-- Every node is executed in a period. -/
theorem counts_pos (period : SchedulePeriod q s) (positive : ∀ node, 0 < q node)
    (node : Fin g.nbNodes) : 0 < counts s.schedule node := by
  have cycle : (0 : ℤ) < g.cyclePeriod node := by exact_mod_cast Graph.cyclePeriod_pos node
  have product := mul_pos (positive node) cycle
  rw [← period.counts_eq node] at product
  exact_mod_cast product

theorem bMax_nonneg (period : SchedulePeriod q s) (e : Fin g.nbEdges) : 0 ≤ s.bMax e := by
  obtain ⟨low, high⟩ := period.invariant.admissible [] List.nil_prefix e
  exact low.trans (WithTop.coe_le_coe.mp high)

/-- The period can be repeated: the FIFOs stay within the maxima of the first pass. -/
theorem repeats (period : SchedulePeriod q s) (noLoop : g.NoLoop)
    (balanced : ∀ e, ∑ node, g.topologyMatrix e node * q node = 0) (iterations : ℕ) :
    g.net.Admissible (capacityOf s.bMax) (List.replicate iterations s.schedule).flatten := by
  apply period.invariant.admissible.repeat
  have executed : counts s.schedule = g.repetitions q := period.executed
  rw [executed]
  exact Graph.balanced_repetitions noLoop period.nonneg balanced

/-- After any number of periods the FIFOs are back at their initial delay. -/
theorem level_after (period : SchedulePeriod q s) (noLoop : g.NoLoop)
    (balanced : ∀ e, ∑ node, g.topologyMatrix e node * q node = 0) (iterations : ℕ)
    (e : Fin g.nbEdges) :
    g.net.level (counts (List.replicate iterations s.schedule).flatten) e =
      (g.edge e).delay := by
  have executed : counts s.schedule = g.repetitions q := period.executed
  have isBalanced := (Graph.balanced_repetitions noLoop period.nonneg balanced).nsmul iterations
  have unchanged := isBalanced 0 e
  rw [Net.counts_flatten_replicate, executed]
  rw [zero_add] at unchanged
  rw [unchanged]
  simp [Net.level, Graph.net, NbSamples.transferred]

end SchedulePeriod

theorem toInt32_of_fits {x : ℤ} (nonneg : 0 ≤ x) (fits : x < 2 ^ 31) : toInt32 x = x := by
  rw [toInt32, if_pos]
  omega

theorem toInt32_le {x : ℤ} (nonneg : 0 ≤ x) : toInt32 x ≤ x := by
  unfold toInt32
  split_ifs <;> omega

/-- The length of a FIFO stands for no more bytes than its maximum. -/
theorem bytesNeeded_toInt32_le {maximum : Fin g.nbEdges → ℤ} {e : Fin g.nbEdges}
    (nonneg : 0 ≤ maximum e) :
    g.bytesNeeded (fun e => toInt32 (maximum e)) e ≤ g.bytesNeeded maximum e :=
  mul_le_mul_of_nonneg_left (toInt32_le nonneg) (Int.natCast_nonneg _)

/-- It stands for the same bytes when they are less than `2 ^ 31`. -/
theorem bytesNeeded_toInt32 {maximum : Fin g.nbEdges → ℤ} {e : Fin g.nbEdges}
    (nonneg : 0 ≤ maximum e) (small : g.bytesNeeded maximum e < 2 ^ 31) :
    g.bytesNeeded (fun e => toInt32 (maximum e)) e = g.bytesNeeded maximum e := by
  unfold Graph.bytesNeeded at small ⊢
  rcases Nat.eq_zero_or_pos (g.edge e).bytes with empty | positive
  · simp [empty]
  · have atLeast : maximum e ≤ (g.edge e).bytes * maximum e :=
      le_mul_of_one_le_left nonneg (by exact_mod_cast positive)
    exact congrArg _ (toInt32_of_fits nonneg (atLeast.trans_lt small))

/-- The length of a FIFO is its maximum in the first pass, converted to 32 bits. -/
theorem Schedule.fifoLength_eq {coloring : Coloring g} {config : Configuration}
    {result : Schedule g} {maxTime : ℕ} {live : Fin g.nbEdges → Interval}
    (described : initializeFIFODescriptions g coloring config live
      (fun e => toInt32 (result.bMax e)) maxTime = .ok result.fifos) (e : Fin g.nbEdges) :
    result.fifoLength e = toInt32 (result.bMax e) := by
  obtain ⟨-, -, -, eq⟩ := initializeFIFODescriptions_ok described
  rw [Schedule.fifoLength, eq]
  rfl

end Admissibility

/-! ### Examples -/

/-- A null space routine for the graphs below, whose nodes all execute one cycle. -/
def onesNullspace : Nullspace := fun _ columns m =>
  if ∀ row, ∑ column, m row column = 0 then [fun _ : Fin columns => 1] else []

theorem onesNullspace_sound : onesNullspace.Sound := by
  intro rows columns m vector mem row
  unfold onesNullspace at mem
  split_ifs at mem with sums
  · obtain rfl := List.mem_singleton.mp mem
    simp only [mul_one]
    exact_mod_cast sums row
  · simp at mem

theorem toOption_eq_some {ε α : Type*} {outcome : Except ε α} {result : α} :
    outcome.toOption = some result ↔ outcome = .ok result := by
  cases outcome <;> simp [Except.toOption]

/-- Every FIFO has its own colour. -/
def ownColors (g : Graph) : Coloring g := fun nodes _ => nodes.map fun e => (e, e.val)

/-- A source connected to a sink with a delay which does not fit in 32 bits. -/
def longDelay : Graph :=
  sourceSink ⟨.int 1024, by decide⟩ ⟨.int 1024, by decide⟩ (2 ^ 31)

end CmsisStream.Scheduler
