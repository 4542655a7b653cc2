import CmsisStream.Dataflow.Progress
import CmsisStream.Scheduler.AsynchronousNodes
import CmsisStream.Scheduler.BalanceEquations
import Mathlib.Data.Rat.Floor

/-!
# A synchronous graph run in asynchronous mode

In asynchronous mode the schedule is computed as for a synchronous graph, and the FIFOs are made
longer by a factor.  When the nodes have the rates given in the graph, no execution of the schedule
is skipped.  In any other order the FIFOs have the same samples, and when all the nodes are tried
again and again none of them stops.
-/

namespace CmsisStream.Scheduler

open Dataflow Platform

/-- The rounding of floating point numbers: it is monotone, and the integers up to `2 ^ 53` are
floating point numbers. -/
structure Rounding where
  round : ℚ → ℚ
  monotone : Monotone round
  integer : ∀ n : ℤ, |n| ≤ 2 ^ 53 → round n = n

/-- `config.FIFOIncrease`: a floating point number is a factor, an integer is a percentage. -/
inductive FIFOIncrease where
  | float (scale : ℚ)
  | int (percent : ℤ)

namespace FIFOIncrease

/-- The factor given by the configuration. -/
def scale (rounding : Rounding) : FIFOIncrease → ℚ
  | float scale => scale
  | int percent => rounding.round (1 + rounding.round (rounding.round percent / 100))

/-- The factor of a FIFO: the one given for it when it is not one. -/
def scaleOf (rounding : Rounding) (increase : FIFOIncrease) (fifoScale : ℚ) : ℚ :=
  if fifoScale ≠ 1 then fifoScale else increase.scale rounding

/-- The length of a FIFO in asynchronous mode. -/
def length (rounding : Rounding) (increase : FIFOIncrease) (fifoScale : ℚ) (fifoLength : ℤ) : ℤ :=
  ⌈rounding.round (fifoLength * increase.scaleOf rounding fifoScale)⌉

variable (rounding : Rounding)

/-- A percentage which is not negative does not make the FIFOs shorter. -/
theorem one_le_scale {percent : ℤ} (nonneg : 0 ≤ percent) : 1 ≤ (int percent).scale rounding := by
  have zero : rounding.round 0 = 0 := by
    simpa using rounding.integer 0 (by norm_num)
  have one : rounding.round 1 = 1 := by
    simpa using rounding.integer 1 (by norm_num)
  have cast : (0 : ℚ) ≤ percent := by exact_mod_cast nonneg
  have rounded : 0 ≤ rounding.round percent := by
    rw [← zero]
    exact rounding.monotone cast
  have percentage : 0 ≤ rounding.round (rounding.round percent / 100) := by
    rw [← zero]
    exact rounding.monotone (by positivity)
  calc (1 : ℚ) = rounding.round 1 := one.symm
    _ ≤ rounding.round (1 + rounding.round (rounding.round percent / 100)) :=
      rounding.monotone (by linarith)

theorem le_length {increase : FIFOIncrease} {fifoScale : ℚ} {fifoLength : ℤ}
    (longer : 1 ≤ increase.scaleOf rounding fifoScale) (nonneg : 0 ≤ fifoLength)
    (small : fifoLength < 2 ^ 31) : fifoLength ≤ increase.length rounding fifoScale fifoLength := by
  have exact : rounding.round fifoLength = fifoLength := by
    apply rounding.integer
    rw [abs_of_nonneg nonneg]
    omega
  have cast : (0 : ℚ) ≤ fifoLength := by exact_mod_cast nonneg
  have scaled : (fifoLength : ℚ) ≤ fifoLength * increase.scaleOf rounding fifoScale :=
    le_mul_of_one_le_right cast longer
  have rounded := rounding.monotone scaled
  rw [exact] at rounded
  exact_mod_cast rounded.trans (Int.le_ceil _)

end FIFOIncrease

variable {g : Graph}

/-- `Graph.computeSchedule` in asynchronous mode, for a graph with data edges. -/
def computeAsynchronousSchedule (nullspace : Nullspace) (score : Score g) (config : Configuration)
    (rounding : Rounding) (increase : FIFOIncrease) (fifoScale : Fin g.nbEdges → ℚ) :
    Except SchedError (Schedule g) := do
  if !g.isConnected then throw .graphIsNotConnected
  let initN ← nullVector nullspace g.topologyMatrix
  let (state, _) ← schedulingPasses score config initN
  let fifos ← initializeAsynchronousFIFODescriptions g fun e =>
    increase.length rounding (fifoScale e) (toInt32 (state.bMax e))
  return { initN := initN, state := state, fifos := fifos }

/-- What is known of a schedule computed in asynchronous mode. -/
structure AsynchronousPeriod (nullspace : Nullspace) (rounding : Rounding)
    (increase : FIFOIncrease) (fifoScale : Fin g.nbEdges → ℚ) (result : Schedule g) : Prop where
  connected : g.isConnected = true
  solved : nullVector nullspace g.topologyMatrix = .ok result.initN
  period : g.NoLoop → SchedulePeriod result.initN result.state
  described : initializeAsynchronousFIFODescriptions g (fun e =>
    increase.length rounding (fifoScale e) (toInt32 (result.bMax e))) = .ok result.fifos

theorem computeAsynchronousSchedule_ok {nullspace : Nullspace} {score : Score g}
    {config : Configuration} {rounding : Rounding} {increase : FIFOIncrease}
    {fifoScale : Fin g.nbEdges → ℚ} {result : Schedule g}
    (computed : computeAsynchronousSchedule nullspace score config rounding increase fifoScale =
      .ok result) : AsynchronousPeriod nullspace rounding increase fifoScale result := by
  unfold computeAsynchronousSchedule at computed
  simp only [bind, Except.bind, pure, Except.pure] at computed
  split at computed
  · simp at computed
  rename_i connected
  split at computed
  · simp at computed
  rename_i initN solved
  split at computed
  · simp at computed
  rename_i passes isPasses
  split at computed
  · simp at computed
  rename_i fifos described
  cases computed
  refine ⟨?_, solved, fun noLoop => ?_, described⟩
  · revert connected
    cases g.isConnected <;> simp
  · exact (schedulingPasses_period noLoop isPasses).1

/-- The classes have the rates given in the graph; the state of a node says how many times it has
been executed. -/
structure NodeClasses.FollowRates {β σ : Type} (classes : NodeClasses g β σ)
    (executions : Fin g.nbNodes → σ → ℕ) : Prop where
  inputSize : ∀ state e, classes.inputSize (g.edge e).dstOwner state e =
    (g.edge e).dst.nbSamples.cycleValue
      (executions (g.edge e).dstOwner state % (g.edge e).dst.nbSamples.cyclePeriod)
  outputSize : ∀ state e, classes.outputSize (g.edge e).srcOwner state e =
    (g.edge e).src.nbSamples.cycleValue
      (executions (g.edge e).srcOwner state % (g.edge e).src.nbSamples.cyclePeriod)
  run : ∀ node state inputs,
    executions node (classes.run node state inputs).1 = executions node state + 1

theorem NodeClasses.FollowRates.follows {β σ : Type} {classes : NodeClasses g β σ}
    {executions : Fin g.nbNodes → σ → ℕ} (rates : classes.FollowRates executions)
    (lengths : Fin g.nbEdges → ℤ) : (classes.processNet lengths).Follows g.net executions := by
  refine ⟨rfl, rfl, ?_, ?_, rates.run⟩
  · intro state e
    have size := rates.inputSize state e
    have next := NbSamples.transferred_succ (g.edge e).dst.nbSamples
      (executions (g.edge e).dstOwner state)
    rw [← size] at next
    exact next
  · intro state e
    have size := rates.outputSize state e
    have next := NbSamples.transferred_succ (g.edge e).src.nbSamples
      (executions (g.edge e).srcOwner state)
    rw [← size] at next
    exact next

/-- A schedule computed in asynchronous mode, with FIFOs which are not shorter than in synchronous
mode, and nodes which have the rates of the graph. -/
structure RunsAsynchronously {β σ : Type} (nullspace : Nullspace) (score : Score g)
    (config : Configuration) (rounding : Rounding) (increase : FIFOIncrease)
    (fifoScale : Fin g.nbEdges → ℚ) (result : Schedule g) (classes : NodeClasses g β σ)
    (executions : Fin g.nbNodes → σ → ℕ) (nodes : Fin g.nbNodes → σ) : Prop where
  basis : ReducedBasis g.topologyMatrix (nullspace _ _ g.topologyMatrix)
  given : g.CustomBuffersGiven
  computed : computeAsynchronousSchedule nullspace score config rounding increase fifoScale =
    .ok result
  int32 : ∀ e, result.bMax e < 2 ^ 31
  longer : ∀ e, 1 ≤ increase.scaleOf rounding (fifoScale e)
  rates : classes.FollowRates executions
  fits : classes.Fits result.fifoLength
  fresh : ∀ node, executions node (nodes node) = 0

/-- Small numbers are not rounded. -/
def exactRounding : Rounding where
  round := id
  monotone := monotone_id
  integer _ _ := rfl

/-- The source and the sink with a delay, in FIFOs of twice the length. -/
def DoubledRun (result : Schedule delayedSourceSink) : Prop :=
  RunsAsynchronously (pairNullspace 1) (occupancy delayedSourceSink) ⟨false, true, false⟩
    exactRounding (.int 100) (fun _ => 1) result (addingClasses delayedSourceSink 1)
    (fun _ state => state.1) fun _ => (0, 0)

theorem exists_doubledRun : ∃ result, DoubledRun result := by
  have evaluated : (computeAsynchronousSchedule (pairNullspace 1) (occupancy delayedSourceSink)
      ⟨false, true, false⟩ exactRounding (.int 100) fun _ => 1).toOption.map
        (fun result => decide (∀ e, result.bMax e < 2 ^ 31 ∧ result.fifoLength e = 10)) =
      some true := by
    decide +kernel
  rcases Option.map_eq_some_iff.mp evaluated with ⟨result, computed, described⟩
  have lengths := of_decide_eq_true described
  refine ⟨result, delayedSourceSink_reducedBasis, ?_, toOption_eq_some.mp computed,
    fun e => (lengths e).1, fun _ => ?_, ⟨fun _ _ => rfl, fun _ _ => rfl, fun _ _ _ => rfl⟩, ?_,
    fun _ => rfl⟩
  · intro e constraint custom
    simp [delayedSourceSink, sourceSink] at custom
  · have factor : 1 ≤ (FIFOIncrease.int 100).scale exactRounding :=
      FIFOIncrease.one_le_scale exactRounding (by norm_num)
    simpa [FIFOIncrease.scaleOf] using factor
  · apply addingClasses_fits _ (by norm_num)
    intro e
    rw [(lengths e).2]
    norm_num

theorem Graph.level_start (e : Fin g.nbEdges) :
    g.net.level (fun _ => 0) e = (g.edge e).delay := by
  simp [Net.level, Graph.net, NbSamples.transferred]

theorem counts_iterations (schedule : List (Fin g.nbNodes)) (iterations : ℕ)
    (node : Fin g.nbNodes) :
    counts (List.replicate iterations schedule).flatten node =
      iterations * counts schedule node := by
  rw [Net.counts_flatten_replicate]
  simp

section Liveness

variable {β σ : Type} {nullspace : Nullspace} {score : Score g} {config : Configuration}
  {rounding : Rounding} {increase : FIFOIncrease} {fifoScale : Fin g.nbEdges → ℚ}
  {result : Schedule g} {classes : NodeClasses g β σ} {executions : Fin g.nbNodes → σ → ℕ}
  {nodes : Fin g.nbNodes → σ}

namespace RunsAsynchronously

variable (runs : RunsAsynchronously nullspace score config rounding increase fifoScale result
  classes executions nodes)

include runs

theorem noLoop : g.NoLoop := by
  have period := computeAsynchronousSchedule_ok runs.computed
  exact noLoop_of_nullVector runs.basis period.connected period.solved

theorem injective : Function.Injective result.fifos.storage := by
  intro e o same
  exact storage_injective runs.given (computeAsynchronousSchedule_ok runs.computed).described same

theorem period : SchedulePeriod result.initN result.state :=
  (computeAsynchronousSchedule_ok runs.computed).period runs.noLoop

/-- The schedule can be repeated in the FIFOs. -/
theorem admissible (iterations : ℕ) :
    g.net.Admissible (classes.processNet result.fifoLength).capacities
      (List.replicate iterations result.schedule).flatten := by
  have isPeriod := computeAsynchronousSchedule_ok runs.computed
  have repeats := runs.period.repeats runs.noLoop
    (nullVector_balanced runs.basis.kernel isPeriod.solved) iterations
  apply repeats.mono
  intro e
  have nonneg : 0 ≤ result.bMax e := runs.period.bMax_nonneg e
  have described : result.fifoLength e =
      increase.length rounding (fifoScale e) (toInt32 (result.bMax e)) := by
    rcases initializeAsynchronousFIFODescriptions_ok isPeriod.described with ⟨-, eq⟩
    rw [Schedule.fifoLength, eq]
    rfl
  apply WithTop.coe_le_coe.mpr
  change result.bMax e ≤ result.fifoLength e
  rw [described, toInt32_of_fits nonneg (runs.int32 e)]
  exact FIFOIncrease.le_length rounding (runs.longer e) nonneg (runs.int32 e)

theorem within (e : Fin g.nbEdges) : ((g.edge e).delay : ℤ) ≤ result.fifoLength e := by
  have start := (runs.admissible 0 [] List.nil_prefix e).2
  rw [counts_nil, Graph.level_start] at start
  exact WithTop.coe_le_coe.mp start

/-- Every node is executed in the schedule. -/
theorem counts_pos (node : Fin g.nbNodes) : 0 < counts result.schedule node := by
  have isPeriod := computeAsynchronousSchedule_ok runs.computed
  exact runs.period.counts_pos
    (nullVector_pos runs.basis isPeriod.connected runs.noLoop isPeriod.solved) node

/-- Attempts do no more than as many iterations of the schedule. -/
theorem count_performed_le {τ : Type} (machine : Machine τ (Fin g.nbNodes)) (s : τ)
    (attempts : List (Fin g.nbNodes)) (node : Fin g.nbNodes) :
    (machine.performed s attempts).count node ≤
      (List.replicate attempts.length result.schedule).flatten.count node := by
  have iterations : (List.replicate attempts.length result.schedule).flatten.count node =
      attempts.length * counts result.schedule node := counts_iterations _ attempts.length node
  rw [iterations]
  calc (machine.performed s attempts).count node ≤ attempts.count node :=
        (Machine.performed_sublist s attempts).count_le node
    _ ≤ attempts.length := List.count_le_length
    _ ≤ attempts.length * counts result.schedule node :=
        Nat.le_mul_of_pos_right _ (runs.counts_pos node)

/-- The queues before any execution. -/
theorem counted {S : Type} (store : Fin g.nbEdges → S) (memory : S → Memory β) :
    (classes.processNet result.fifoLength).Counted g.net executions
      (initialProcesses store memory nodes) := by
  have fresh : ProcessNet.executed executions (initialProcesses store memory nodes) =
      fun _ => 0 := funext runs.fresh
  refine ⟨fun e => ?_, ?_⟩
  · rw [fresh, Graph.level_start]
    simp [initialProcesses, Memory.load]
  · rw [fresh, ← counts_nil]
    exact runs.admissible 0 [] List.nil_prefix

variable (memory : Storage g → Memory β) (attempts : List (Fin g.nbNodes))

/-- The scheduler performs what the processes perform. -/
theorem same_performed :
    let start := AsyncState.init memory nodes
    let queues := initialProcesses result.fifos.storage memory nodes
    (AsyncState.scheduler result.fifos.storage result.fifoLength classes start).performed start
        attempts =
          ((classes.processNet result.fifoLength).machine queues).performed queues attempts ∧
      ((AsyncState.scheduler result.fifos.storage result.fifoLength classes start).attempts start
        attempts).Represents result.fifos.storage result.fifoLength
          (((classes.processNet result.fifoLength).machine queues).attempts queues attempts) := by
  intro start queues
  exact (scheduler_matches runs.injective runs.noLoop runs.fits).attempts
    (represents_init runs.within memory nodes) attempts

/-- How many times the nodes have been executed. -/
theorem executed_eq :
    let queues := initialProcesses result.fifos.storage memory nodes
    ProcessNet.executed executions
        (((classes.processNet result.fifoLength).machine queues).attempts queues attempts) =
      counts (((classes.processNet result.fifoLength).machine queues).performed queues
        attempts) := by
  intro queues
  have fresh : ProcessNet.executed executions queues = 0 := funext runs.fresh
  rw [((runs.counted result.fifos.storage memory).attempts (runs.rates.follows _) runs.noLoop
    _ attempts).2, fresh, zero_add]

end RunsAsynchronously

/-- The samples in asynchronous mode.  Whatever the order in which the nodes are tried, the samples
which are read from and written to a FIFO are the first ones of the repeated schedule. -/
theorem scheduler_prefix (runs : RunsAsynchronously nullspace score config rounding increase
      fifoScale result classes executions nodes)
    (memory : Storage g → Memory β) (attempts : List (Fin g.nbNodes)) :
    let start := AsyncState.init memory nodes
    let machine := AsyncState.scheduler result.fifos.storage result.fifoLength classes start
    ∃ iterations, ∀ e,
      (machine.attempts start attempts).consumed e <+:
        (machine.attempts start (List.replicate iterations result.schedule).flatten).consumed e ∧
      (machine.attempts start attempts).produced e <+:
        (machine.attempts start
          (List.replicate iterations result.schedule).flatten).produced e := by
  intro start machine
  let queues := initialProcesses result.fifos.storage memory nodes
  let net := (classes.processNet result.fifoLength).machine queues
  let iterated := (List.replicate attempts.length result.schedule).flatten
  rcases runs.same_performed memory attempts with ⟨-, some⟩
  rcases runs.same_performed memory iterated with ⟨-, all⟩
  have fresh : ProcessNet.executed executions queues = fun _ => 0 := funext runs.fresh
  have notSkipped : net.performed queues iterated = iterated :=
    (runs.counted result.fifos.storage memory).performed_of_admissible
      (runs.rates.follows _) runs.noLoop fresh (runs.admissible attempts.length)
  have less : (net.performed queues attempts).Subperm (net.performed queues iterated) := by
    rw [notSkipped, List.subperm_ext_iff]
    intro node _
    exact runs.count_performed_le net queues attempts node
  have continued := ProcessNet.machine_commutes.continued
    (Machine.run_performed queues iterated) (Machine.run_performed queues attempts) less
  refine ⟨attempts.length, fun e => ?_⟩
  rw [some.consumed, some.produced, all.consumed, all.produced]
  exact ProcessNet.prefix_of_run continued e

theorem doubled_prefix :
    ∃ result, DoubledRun result ∧
      let start := AsyncState.init (fun _ _ => 3) fun _ => (0, 0)
      let machine := AsyncState.scheduler result.fifos.storage result.fifoLength
        (addingClasses delayedSourceSink 1) start
      ∃ iterations, ∀ e,
        (machine.attempts start sourceFirst).consumed e <+:
          (machine.attempts start (List.replicate iterations result.schedule).flatten).consumed e ∧
        (machine.attempts start sourceFirst).produced e <+:
          (machine.attempts start
            (List.replicate iterations result.schedule).flatten).produced e := by
  rcases exists_doubledRun with ⟨result, runs⟩
  exact ⟨result, runs, scheduler_prefix runs (fun _ _ => 3) sourceFirst⟩

end Liveness

end CmsisStream.Scheduler
