import CmsisStream.Scheduler.GreedyLoop
import CmsisStream.Scheduler.SinkLayers

/-!
# The scheduling pass with sink prioritization

`computeTopologicalOrderSchedule` runs after the main loop and looks for a
schedule within the FIFO sizes `bMax` found by it, trying the nodes layer by
layer from the sinks.  The schedule of the first pass stays within these sizes,
so by the exchange property of bounded counting nets the second pass cannot get
stuck, in whatever order the nodes are tried.
-/

namespace CmsisStream.Scheduler

open Dataflow

variable {g : Graph}

/-- A node with remaining cycles whose execution gives no underflow or overflow. -/
def SinkCandidate (bMax : Fin g.nbEdges → ℤ) (s : SchedState g) (node : Fin g.nbNodes) : Prop :=
  0 < s.n node ∧ (∀ e, 0 ≤ s.newB node e) ∧ ∀ e, s.newB node e ≤ bMax e

instance (bMax : Fin g.nbEdges → ℤ) (s : SchedState g) (node : Fin g.nbNodes) :
    Decidable (SinkCandidate bMax s node) :=
  inferInstanceAs (Decidable (_ ∧ _ ∧ _))

/-- The search in a layer.  It stops at the first selected node, so `minVal` still has its
initial value whenever it is compared. -/
def selectInLayer (score : Score g) (bMax : Fin g.nbEdges → ℤ) (s : SchedState g)
    (layer : List (Fin g.nbNodes)) : Option (Fin g.nbNodes) :=
  layer.find? fun node => SinkCandidate bMax s node ∧ score s node < initialMinVal

/-- The search through the layers; the selected node is put at the end of its layer. -/
def selectSink (score : Score g) (bMax : Fin g.nbEdges → ℤ) (s : SchedState g) :
    List (List (Fin g.nbNodes)) → Option (Fin g.nbNodes × List (List (Fin g.nbNodes)))
  | [] => none
  | layer :: layers =>
      match selectInLayer score bMax s layer with
      | some node => some (node, (layer.erase node ++ [node]) :: layers)
      | none => (selectSink score bMax s layers).map fun found => (found.1, layer :: found.2)

/-- The loop of `computeTopologicalOrderSchedule`, on the layers and the state. -/
def sinkLoop (score : Score g) (bMax : Fin g.nbEdges → ℤ) :
    Loop (List (List (Fin g.nbNodes)) × SchedState g) where
  finished s := s.2.finished
  step s := (selectSink score bMax s.2 s.1).map fun selected =>
    (selected.2, s.2.execute true selected.1)

/-- The state in which the second pass starts: the positions of the nodes and IOs are
those left by the first pass. -/
def restart (initN : Fin g.nbNodes → ℤ) (first : SchedState g) : SchedState g :=
  { first with
    b := fun e => (g.edge e).delay
    n := initN
    schedule := [] }

/-- `Graph.computeTopologicalOrderSchedule` -/
def computeTopologicalOrderSchedule (score : Score g) (layers : List (List (Fin g.nbNodes)))
    (initN : Fin g.nbNodes → ℤ) (first : SchedState g) (fuel : ℕ) :
    Loop.Outcome (List (List (Fin g.nbNodes)) × SchedState g) :=
  (sinkLoop score first.bMax).run fuel (layers, restart initN first)

/-! ### Selection -/

section Selection

variable {score : Score g} {bMax : Fin g.nbEdges → ℤ} {s : SchedState g}
  {layers rotated : List (List (Fin g.nbNodes))} {node : Fin g.nbNodes}

theorem selectInLayer_spec {layer : List (Fin g.nbNodes)}
    (selected : selectInLayer score bMax s layer = some node) :
    node ∈ layer ∧ SinkCandidate bMax s node := by
  refine ⟨List.mem_of_find?_eq_some selected, ?_⟩
  have holds := List.find?_some selected
  simp only [decide_eq_true_eq] at holds
  exact holds.1

/-- The selected node can be executed, and its layer is rotated. -/
theorem selectSink_spec (selected : selectSink score bMax s layers = some (node, rotated)) :
    SinkCandidate bMax s node ∧ rotated.flatten.Perm layers.flatten := by
  induction layers generalizing rotated with
  | nil => simp [selectSink] at selected
  | cons layer layers ih =>
      rw [selectSink] at selected
      split at selected
      · rename_i found inLayer
        obtain ⟨rfl, rfl⟩ := Prod.mk.inj (Option.some.inj selected)
        obtain ⟨mem, candidate⟩ := selectInLayer_spec inLayer
        refine ⟨candidate, ?_⟩
        simp only [List.flatten_cons]
        apply List.Perm.append_right
        exact (List.perm_append_singleton _ _).trans (List.perm_cons_erase mem).symm
      · obtain ⟨⟨found, others⟩, inOthers, eq⟩ := Option.map_eq_some_iff.mp selected
        obtain ⟨rfl, rfl⟩ := Prod.mk.inj eq
        obtain ⟨candidate, perm⟩ := ih inOthers
        exact ⟨candidate, perm.append_left _⟩

theorem selectSink_isSome (mem : node ∈ layers.flatten) (candidate : SinkCandidate bMax s node)
    (below : score s node < initialMinVal) :
    ∃ found, selectSink score bMax s layers = some found := by
  induction layers with
  | nil => simp at mem
  | cons layer layers ih =>
      rw [selectSink]
      cases inLayer : selectInLayer score bMax s layer with
      | some found => exact ⟨_, rfl⟩
      | none =>
          have notHere : node ∉ layer := by
            intro here
            have fails := List.find?_eq_none.mp inLayer node here
            simp [candidate, below] at fails
          rw [List.flatten_cons, List.mem_append] at mem
          obtain ⟨found, eq⟩ := ih (mem.resolve_left notHere)
          exact ⟨(found.1, layer :: found.2), by simp only [eq, Option.map_some]⟩

end Selection

/-! ### Invariant -/

/-- What holds in every state of the second pass. -/
structure SinkInvariant (q : Fin g.nbNodes → ℤ) (bMax : Fin g.nbEdges → ℤ)
    (s : SchedState g) : Prop where
  tracks : s.Tracks q
  admissible : g.net.Admissible (capacityOf bMax) s.schedule
  executed_le : s.executed ≤ g.repetitions q
  bMax_eq : s.bMax = bMax

/-- The positions kept by the IOs and nodes are back at their initial value. -/
structure SchedState.PositionsReset (s : SchedState g) : Prop where
  src : ∀ e, s.srcPosition e = 0
  dst : ∀ e, s.dstPosition e = 0
  node : ∀ i, s.positionInCycle i = 0

/-- After whole periods the positions are at the beginning of a cycle again. -/
theorem SchedState.Tracks.positionsReset {q : Fin g.nbNodes → ℤ} {s : SchedState g}
    (tracks : s.Tracks q) (executed : s.executed = g.repetitions q) : s.PositionsReset := by
  refine ⟨?_, ?_, ?_⟩
  · intro e
    rw [tracks.srcPosition, executed, Graph.repetitions]
    exact Nat.mod_eq_zero_of_dvd ((Graph.src_cyclePeriod_dvd e).mul_left _)
  · intro e
    rw [tracks.dstPosition, executed, Graph.repetitions]
    exact Nat.mod_eq_zero_of_dvd ((Graph.dst_cyclePeriod_dvd e).mul_left _)
  · intro i
    rw [tracks.positionInCycle, executed, Graph.repetitions]
    exact Nat.mul_mod_left _ _

section Pass

variable {q : Fin g.nbNodes → ℤ} {bMax : Fin g.nbEdges → ℤ} {score : Score g}

/-- The second pass starts like the first one, whatever the first one has left behind. -/
theorem restart_invariant {first : SchedState g} (positions : first.PositionsReset)
    (fits : ∀ e, ((g.edge e).delay : ℤ) ≤ first.bMax e) :
    SinkInvariant q first.bMax (restart q first) := by
  refine ⟨?_, ?_, ?_, rfl⟩
  · constructor <;>
      simp [restart, SchedState.executed, Net.level, Graph.net, NbSamples.transferred,
        positions.src, positions.dst, positions.node]
  · rw [restart, Net.admissible_nil_iff]
    intro e
    have fit : (((g.edge e).delay : ℤ) : WithTop ℤ) ≤ first.bMax e :=
      WithTop.coe_le_coe.mpr (fits e)
    simpa [Net.level, Graph.net, NbSamples.transferred, capacityOf] using fit
  · intro node
    simp [restart, SchedState.executed]

/-- Executing a candidate preserves the invariant of the second pass. -/
theorem SinkInvariant.execute (noLoop : g.NoLoop) {s : SchedState g}
    (invariant : SinkInvariant q bMax s) {node : Fin g.nbNodes}
    (candidate : SinkCandidate bMax s node) :
    SinkInvariant q bMax (s.execute true node) := by
  refine ⟨invariant.tracks.execute true noLoop node, ?_, ?_, invariant.bMax_eq⟩
  · rw [SchedState.execute_schedule, Net.admissible_concat_iff]
    refine ⟨invariant.admissible, ?_⟩
    intro e
    change 0 ≤ g.net.level (bump s.executed node) e ∧
      ((g.net.level (bump s.executed node) e : ℤ) : WithTop ℤ) ≤ _
    rw [← invariant.tracks.newB noLoop]
    exact ⟨candidate.2.1 e, WithTop.coe_le_coe.mpr (candidate.2.2 e)⟩
  · rw [SchedState.executed_execute]
    exact bump_executed_le invariant.tracks invariant.executed_le candidate.1

theorem SinkInvariant.step (noLoop : g.NoLoop)
    {s next : List (List (Fin g.nbNodes)) × SchedState g} (invariant : SinkInvariant q bMax s.2)
    (stepsTo : (sinkLoop score bMax).step s = some next) :
    SinkInvariant q bMax next.2 ∧ next.1.flatten.Perm s.1.flatten := by
  obtain ⟨⟨node, rotated⟩, selected, rfl⟩ := Option.map_eq_some_iff.mp stepsTo
  obtain ⟨candidate, perm⟩ := selectSink_spec selected
  exact ⟨invariant.execute noLoop candidate, perm⟩

/-- The second pass keeps its invariant and only permutes the nodes of the layers. -/
theorem sinkLoop_reached (noLoop : g.NoLoop)
    {start s : List (List (Fin g.nbNodes)) × SchedState g}
    (initial : SinkInvariant q bMax start.2) (reached : (sinkLoop score bMax).Reached start s) :
    SinkInvariant q bMax s.2 ∧ s.1.flatten.Perm start.1.flatten := by
  induction reached with
  | init => exact ⟨initial, List.Perm.refl _⟩
  | step _ _ stepsTo ih =>
      obtain ⟨invariant, perm⟩ := ih.1.step noLoop stepsTo
      exact ⟨invariant, perm.trans ih.2⟩

/-- The invariant holds at the end of the second pass, and no execution is missing. -/
theorem sinkLoop_invariant (noLoop : g.NoLoop) {fuel : ℕ}
    {start final : List (List (Fin g.nbNodes)) × SchedState g}
    (initial : SinkInvariant q bMax start.2)
    (run : (sinkLoop score bMax).run fuel start = .finished final) :
    SinkInvariant q bMax final.2 ∧ final.2.executed = g.repetitions q := by
  obtain ⟨reached, done⟩ := Loop.Reached.init.of_run run
  have invariant := (sinkLoop_reached noLoop initial reached).1
  exact ⟨invariant, invariant.tracks.executed_eq invariant.executed_le
    (SchedState.finished_iff.mp done)⟩

end Pass

/-! ### Completeness -/

/-- The candidates met by the second pass have a score below the initial `minVal`. -/
def SinkScoresBelowSentinel (score : Score g) (bMax : Fin g.nbEdges → ℤ)
    (start : List (List (Fin g.nbNodes)) × SchedState g) : Prop :=
  ∀ s, (sinkLoop score bMax).Reached start s →
    ∀ node, SinkCandidate bMax s.2 node → score s.2 node < initialMinVal

section

variable {q : Fin g.nbNodes → ℤ} {score : Score g} {bMax : Fin g.nbEdges → ℤ}
  {order : List (Fin g.nbNodes)} {start : List (List (Fin g.nbNodes)) × SchedState g}

/-- As long as cycles remain, some node can be executed within the bounds. -/
theorem exists_sinkCandidate (noLoop : g.NoLoop)
    (admissible : g.net.Admissible (capacityOf bMax) order)
    (reaches : counts order = g.repetitions q) (nonneg : ∀ i, 0 ≤ q i) {s : SchedState g}
    (invariant : SinkInvariant q bMax s) (remaining : ¬∀ i, s.n i = 0) :
    ∃ node, SinkCandidate bMax s node := by
  have notReached : s.executed ≠ counts order := fun eq =>
    remaining (invariant.tracks.done_of_executed (eq.trans reaches) nonneg)
  have le : s.executed ≤ counts order := reaches ▸ invariant.executed_le
  obtain ⟨node, below, possible⟩ := g.net.exists_within_bump noLoop admissible
    invariant.admissible.within le notReached
  refine ⟨node, ?_, ?_, ?_⟩
  · rw [invariant.tracks.n_pos_iff, ← reaches]
    exact below
  · intro e
    rw [invariant.tracks.newB noLoop]
    exact (possible e).1
  · intro e
    rw [invariant.tracks.newB noLoop]
    exact WithTop.coe_le_coe.mp (possible e).2

/-- The second pass finds a node to execute while cycles remain. -/
theorem sinkLoop_progress (noLoop : g.NoLoop)
    (admissible : g.net.Admissible (capacityOf bMax) order)
    (reaches : counts order = g.repetitions q) (nonneg : ∀ i, 0 ≤ q i)
    (initial : SinkInvariant q bMax start.2)
    (allNodes : start.1.flatten.Perm (List.finRange g.nbNodes))
    (scores : SinkScoresBelowSentinel score bMax start)
    (s : List (List (Fin g.nbNodes)) × SchedState g)
    (reached : (sinkLoop score bMax).Reached start s)
    (unfinished : (sinkLoop score bMax).finished s = false) :
    ((sinkLoop score bMax).step s).isSome := by
  obtain ⟨invariant, perm⟩ := sinkLoop_reached noLoop initial reached
  have remaining : ¬∀ i, s.2.n i = 0 := by
    rw [← SchedState.finished_iff]
    exact Bool.not_eq_true _ ▸ unfinished
  obtain ⟨node, candidate⟩ :=
    exists_sinkCandidate noLoop admissible reaches nonneg invariant remaining
  have mem : node ∈ s.1.flatten := (perm.trans allNodes).mem_iff.mpr (List.mem_finRange node)
  obtain ⟨found, selection⟩ :=
    selectSink_isSome mem candidate (scores s reached node candidate)
  rw [sinkLoop, Option.isSome_map, selection]
  rfl

theorem sinkLoop_decreases (noLoop : g.NoLoop) (initial : SinkInvariant q bMax start.2)
    (s next : List (List (Fin g.nbNodes)) × SchedState g)
    (reached : (sinkLoop score bMax).Reached start s)
    (stepsTo : (sinkLoop score bMax).step s = some next) : next.2.left q < s.2.left q := by
  have invariant := ((sinkLoop_reached noLoop initial reached).1.step noLoop stepsTo).1
  obtain ⟨⟨node, rotated⟩, -, rfl⟩ := Option.map_eq_some_iff.mp stepsTo
  exact left_lt_of_concat (s.2.execute_schedule node true) invariant.executed_le

/-- Within the bounds of an admissible order, the second pass ends. -/
theorem sinkLoop_complete (noLoop : g.NoLoop)
    (admissible : g.net.Admissible (capacityOf bMax) order)
    (reaches : counts order = g.repetitions q) (nonneg : ∀ i, 0 ≤ q i)
    (initial : SinkInvariant q bMax start.2)
    (allNodes : start.1.flatten.Perm (List.finRange g.nbNodes))
    (scores : SinkScoresBelowSentinel score bMax start) :
    (∀ fuel final, (sinkLoop score bMax).run fuel start ≠ .stuck final) ∧
      ∀ fuel, start.2.left q ≤ fuel →
        ∃ final, (sinkLoop score bMax).run fuel start = .finished final := by
  have progress :=
    sinkLoop_progress noLoop admissible reaches nonneg initial allNodes scores
  refine ⟨Loop.Reached.init.run_ne_stuck progress, ?_⟩
  intro fuel enough
  exact Loop.Reached.init.run_finishes progress (fun s => s.2.left q)
    (fun s next reached _ stepsTo => sinkLoop_decreases noLoop initial s next reached stepsTo)
    enough

end

/-- Small maxima in the first pass keep the scores of the second below the initial
`minVal`. -/
theorem sinkScoresBelowSentinel_of_small {bMax : Fin g.nbEdges → ℤ}
    {start : List (List (Fin g.nbNodes)) × SchedState g} (small : ∀ e, bMax e < 10000000) :
    SinkScoresBelowSentinel (occupancy g) bMax start := by
  intro s _ node candidate
  have bound : occupancy g s.2 node ≤ 9999999 := by
    apply occupancy_le (by norm_num)
    intro e
    have le : s.2.newB node e ≤ 9999999 := by
      have upper := candidate.2.2 e
      have below := small e
      omega
    exact ⟨candidate.2.1 e, by exact_mod_cast le⟩
  exact bound.trans_lt (by norm_num [initialMinVal])

/-- The second pass cannot fail after the first one.  It has layers exactly when the graph
has no directed cycle; they contain every node once; and from any arrangement of these nodes
in layers the pass ends with every node executed as often as required, each FIFO staying
between zero and its maximum in the first pass. -/
theorem computeTopologicalOrderSchedule_complete {q : Fin g.nbNodes → ℤ} {score : Score g}
    {analyze : Bool} {firstFuel : ℕ} {first : SchedState g} (nonempty : 0 < g.nbNodes)
    (firstPass : (greedyLoop score analyze).run firstFuel (initialState g q) = .finished first) :
    (g.computeSinkTopologicalSortOfNodes ≠ [] ↔ g.Acyclic) ∧
      (g.computeSinkTopologicalSortOfNodes ≠ [] →
        g.computeSinkTopologicalSortOfNodes.flatten.Perm (List.finRange g.nbNodes) ∧
        ∀ layers : List (List (Fin g.nbNodes)),
          layers.flatten.Perm g.computeSinkTopologicalSortOfNodes.flatten →
          SinkScoresBelowSentinel score first.bMax (layers, restart q first) →
          (∀ fuel final,
            computeTopologicalOrderSchedule score layers q first fuel ≠ .stuck final) ∧
          ∀ fuel : ℕ, ∑ i, q i * g.cyclePeriod i ≤ fuel →
            ∃ final, computeTopologicalOrderSchedule score layers q first fuel =
                .finished final ∧
              (∀ i, (counts final.2.schedule i : ℤ) = q i * g.cyclePeriod i) ∧
              ∀ before, before <+: final.2.schedule → ∀ e,
                0 ≤ g.net.level (counts before) e ∧
                  g.net.level (counts before) e ≤ first.bMax e) := by
  refine ⟨Graph.computeSinkTopologicalSortOfNodes_ne_nil_iff nonempty, ?_⟩
  intro found
  have noLoop := ((Graph.computeSinkTopologicalSortOfNodes_ne_nil_iff nonempty).mp found).noLoop
  have nodes := Graph.computeSinkTopologicalSortOfNodes_perm found
  refine ⟨nodes, ?_⟩
  intro layers rotation scores
  obtain ⟨invariant, done⟩ := greedyLoop_invariant noLoop firstPass
  have executed := greedyLoop_executed noLoop firstPass
  have nonneg := invariant.tracks.q_nonneg done
  have initial : SinkInvariant q first.bMax (restart q first) :=
    restart_invariant (invariant.tracks.positionsReset executed) fun e => invariant.delay_le e
  obtain ⟨notStuck, ends⟩ := sinkLoop_complete noLoop invariant.admissible executed nonneg
    initial (rotation.trans nodes) scores
  refine ⟨notStuck, ?_⟩
  intro fuel enough
  have enoughLeft : (restart q first).left q ≤ fuel := by
    rw [← sum_repetitions_cast nonneg] at enough
    exact (Nat.sub_le _ _).trans (Int.ofNat_le.mp enough)
  obtain ⟨final, run⟩ := ends fuel enoughLeft
  obtain ⟨finalInvariant, finalExecuted⟩ := sinkLoop_invariant noLoop initial run
  refine ⟨final, run, ?_, ?_⟩
  · intro i
    rw [← repetitions_cast nonneg i]
    exact congrArg Nat.cast (congrFun finalExecuted i)
  · intro before isPrefix e
    obtain ⟨low, high⟩ := finalInvariant.admissible before isPrefix e
    exact ⟨low, WithTop.coe_le_coe.mp high⟩

theorem cycloSourceSink_sinkPriority :
    ∃ first : SchedState cycloSourceSink, ∃ final,
      computeTopologicalOrderSchedule (occupancy cycloSourceSink)
        cycloSourceSink.computeSinkTopologicalSortOfNodes (fun _ => 1) first 3 =
          .finished final ∧
      ∀ i, (counts final.2.schedule i : ℤ) = 1 * cycloSourceSink.cyclePeriod i := by
  have firstPass : ((greedyLoop (occupancy cycloSourceSink) false).run 3
      (initialState cycloSourceSink fun _ => 1)).final?.map
        (fun s => (List.finRange cycloSourceSink.nbEdges).map s.bMax) = some [3] := by
    decide +kernel
  obtain ⟨first, ends, maxima⟩ := Option.map_eq_some_iff.mp firstPass
  have run := Loop.Outcome.final?_eq_some.mp ends
  have small : ∀ e, first.bMax e < 10000000 := by
    intro e
    have mem : first.bMax e ∈ [3] := maxima ▸ List.mem_map_of_mem (List.mem_finRange e)
    rw [List.mem_singleton.mp mem]
    norm_num
  have found : cycloSourceSink.computeSinkTopologicalSortOfNodes ≠ [] := by decide +kernel
  have total : ∑ i, (1 : ℤ) * cycloSourceSink.cyclePeriod i = 3 := by decide +kernel
  obtain ⟨-, spec⟩ := computeTopologicalOrderSchedule_complete (by decide) run
  obtain ⟨-, anyLayers⟩ := spec found
  obtain ⟨-, ends⟩ := anyLayers _ (List.Perm.refl _) (sinkScoresBelowSentinel_of_small small)
  obtain ⟨final, run', fires, -⟩ := ends 3 total.le
  exact ⟨first, final, run', fires⟩

end CmsisStream.Scheduler
