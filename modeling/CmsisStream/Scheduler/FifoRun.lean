import CmsisStream.Platform.FifoPositions
import CmsisStream.Scheduler.FifoLengths

/-!
# The use of a FIFO

A FIFO of an asynchronous graph is used after the tests of its nodes, and a FIFO
of a synchronous graph is used by the repetition of a computed schedule.  In both
cases it is a queue.  But the samples may be moved onto themselves: this only
depends on how many samples are read between two writes.
-/

namespace CmsisStream.Scheduler

open Dataflow Platform

universe u

variable {g : Graph} {α : Type u}

/-- The transfer on an edge when a node is executed, after the given executions. -/
def Graph.transferOf (g : Graph) (e : Fin g.nbEdges) (before : List (Fin g.nbNodes))
    (node : Fin g.nbNodes) : List Transfer :=
  if (g.edge e).srcOwner = node then
    [.write ((g.edge e).src.nbSamples.cycleValue
      (counts before node % (g.edge e).src.nbSamples.cyclePeriod))]
  else if (g.edge e).dstOwner = node then
    [.read ((g.edge e).dst.nbSamples.cycleValue
      (counts before node % (g.edge e).dst.nbSamples.cyclePeriod))]
  else []

/-- The transfers on an edge when nodes are executed one after the other. -/
def Graph.transfers (g : Graph) (e : Fin g.nbEdges) :
    List (Fin g.nbNodes) → List (Fin g.nbNodes) → List Transfer
  | _, [] => []
  | before, node :: rest => g.transferOf e before node ++ g.transfers e (before ++ [node]) rest

/-- How a FIFO may be used: after the tests of the nodes, or by the repetition of a schedule with
the length computed for it. -/
inductive FIFOUse (length : ℤ) (buffer : Memory α) (delay : ℕ) (accesses : List (Access α)) : Prop
  | guarded (guards : (SyncFIFO.mk' buffer delay : AsyncFIFO α).Guarded length accesses) :
      FIFOUse length buffer delay accesses
  | scheduled (g : Graph) (nullspace : Nullspace) (score : Score g) (coloring : Coloring g)
      (config : Configuration) (result : Schedule g)
      (basis : ReducedBasis g.topologyMatrix (nullspace _ _ g.topologyMatrix))
      (computed : computeSchedule nullspace score coloring config = .ok result)
      (e : Fin g.nbEdges) (isLength : length = result.fifoLength e)
      (isDelay : delay = (g.edge e).delay) (iterations : ℕ) (executions : List (Fin g.nbNodes))
      (isPrefix : executions <+: (List.replicate iterations result.schedule).flatten)
      (transfers : accesses.map Access.transfer = g.transfers e [] executions) :
      FIFOUse length buffer delay accesses

/-! ### Repeated schedules -/

theorem computeSchedule_noLoop {nullspace : Nullspace}
    (basis : ReducedBasis g.topologyMatrix (nullspace _ _ g.topologyMatrix)) {score : Score g}
    {coloring : Coloring g} {config : Configuration} {result : Schedule g}
    (computed : computeSchedule nullspace score coloring config = .ok result) : g.NoLoop := by
  unfold computeSchedule at computed
  simp only [bind, Except.bind, pure, Except.pure] at computed
  split at computed
  · simp at computed
  rename_i connected
  split at computed
  · simp at computed
  rename_i solved
  exact noLoop_of_nullVector basis (by simpa using connected) solved

/-- In a repeated schedule the samples stay between zero and the maximum. -/
theorem computeSchedule_repeats {nullspace : Nullspace}
    (basis : ReducedBasis g.topologyMatrix (nullspace _ _ g.topologyMatrix)) {score : Score g}
    {coloring : Coloring g} {config : Configuration} {result : Schedule g}
    (computed : computeSchedule nullspace score coloring config = .ok result) (iterations : ℕ) :
    g.net.Admissible (capacityOf result.bMax) (List.replicate iterations result.schedule).flatten ∧
      ∀ e, result.fifoLength e = toInt32 (result.bMax e) := by
  have noLoop := computeSchedule_noLoop basis computed
  rcases computeSchedule_ok noLoop computed with ⟨solved, period, described⟩
  exact ⟨period.repeats noLoop (nullVector_balanced basis.kernel solved) iterations,
    Schedule.fifoLength_eq described⟩

/-- The transfers of a run are those of the executions, one after the other. -/
theorem Graph.transfers_concat (e : Fin g.nbEdges) (before executions : List (Fin g.nbNodes))
    (node : Fin g.nbNodes) :
    g.transfers e before (executions ++ [node]) =
      g.transfers e before executions ++ g.transferOf e (before ++ executions) node := by
  induction executions generalizing before with
  | nil => simp [Graph.transfers]
  | cons first executions ih =>
      rw [List.cons_append, Graph.transfers, ih, Graph.transfers, List.append_assoc,
        List.append_assoc, List.singleton_append]

/-- The samples in the FIFO are those of the counting net. -/
theorem Graph.samplesAfter_transfers (noLoop : g.NoLoop) (e : Fin g.nbEdges)
    (executions : List (Fin g.nbNodes)) :
    samplesAfter (g.edge e).delay (g.transfers e [] executions) =
      g.net.level (counts executions) e := by
  induction executions using List.reverseRecOn with
  | nil =>
      simp [Graph.transfers, samplesAfter, Net.level, Graph.net, NbSamples.transferred]
  | append_singleton executions node ih =>
      rw [Graph.transfers_concat, List.nil_append, samplesAfter_append, ih, counts_concat]
      by_cases isSrc : (g.edge e).srcOwner = node
      · have notDst : (g.edge e).dstOwner ≠ node := fun isDst =>
          noLoop e (isSrc.trans isDst.symm)
        rw [Graph.transferOf, if_pos isSrc, samplesAfter_singleton]
        simp only [Net.level, Graph.net, isSrc, bump_self, bump_of_ne _ notDst,
          NbSamples.transferred_succ, Transfer.change]
        push_cast
        ring
      · by_cases isDst : (g.edge e).dstOwner = node
        · rw [Graph.transferOf, if_neg isSrc, if_pos isDst, samplesAfter_singleton]
          simp only [Net.level, Graph.net, isDst, bump_self, bump_of_ne _ isSrc,
            NbSamples.transferred_succ, Transfer.change]
          push_cast
          ring
        · rw [Net.level_bump_of_ne isSrc isDst, Graph.transferOf, if_neg isSrc, if_neg isDst]
          simp [samplesAfter]

/-- The first transfers of a run are those of its first executions. -/
theorem Graph.exists_of_prefix_transfers (e : Fin g.nbEdges) {executions : List (Fin g.nbNodes)}
    {early : List Transfer} (isPrefix : early <+: g.transfers e [] executions) :
    ∃ before, before <+: executions ∧ early = g.transfers e [] before := by
  induction executions using List.reverseRecOn with
  | nil => exact ⟨[], List.nil_prefix, List.prefix_nil.mp isPrefix⟩
  | append_singleton executions node ih =>
      have single : ∃ last, g.transferOf e executions node = [last] ∨
          g.transferOf e executions node = [] := by
        unfold Graph.transferOf
        split_ifs
        · exact ⟨_, Or.inl rfl⟩
        · exact ⟨_, Or.inl rfl⟩
        · exact ⟨.read 0, Or.inr rfl⟩
      by_cases shorter : early <+: g.transfers e [] executions
      · rcases ih shorter with ⟨before, beforePrefix, eq⟩
        exact ⟨before, beforePrefix.trans (List.prefix_append _ _), eq⟩
      · refine ⟨executions ++ [node], List.prefix_rfl, ?_⟩
        rw [Graph.transfers_concat, List.nil_append] at isPrefix ⊢
        rcases single with ⟨last, isLast | isEmpty⟩
        · rw [isLast] at isPrefix ⊢
          rcases List.prefix_concat_iff.mp isPrefix with whole | early
          · exact whole
          · exact absurd early shorter
        · rw [isEmpty, List.append_nil] at isPrefix
          exact absurd isPrefix shorter

theorem toInt32_of_nonneg {x : ℤ} (converted : 0 ≤ toInt32 x) : toInt32 x = x := by
  unfold toInt32 at converted ⊢
  split_ifs with fits
  · rfl
  · rw [if_neg fits] at converted
    omega

/-! ### Queues -/

/-- However a FIFO is used, its samples stay within its length. -/
theorem FIFOUse.within {length : ℤ} {buffer : Memory α} {delay : ℕ} {accesses : List (Access α)}
    (fits : (delay : ℤ) ≤ length) (use : FIFOUse length buffer delay accesses) :
    (SyncFIFO.mk' buffer delay).Within length accesses := by
  have start : (SyncFIFO.mk' buffer (delay : ℤ)).nbSamplesInFIFO = delay := by
    simp [SyncFIFO.mk', SyncFIFO.nbSamplesInFIFO]
  cases use with
  | guarded guards => exact guards.within (by omega) (by omega)
  | scheduled g nullspace score coloring config result basis computed e isLength isDelay
      iterations executions isPrefix transfers =>
      rcases computeSchedule_repeats basis computed iterations with ⟨admissible, lengths⟩
      have noLoop := computeSchedule_noLoop basis computed
      intro early earlyPrefix
      have earlyTransfers := earlyPrefix.map Access.transfer
      rw [transfers] at earlyTransfers
      rcases Graph.exists_of_prefix_transfers e earlyTransfers with ⟨before, beforePrefix, eq⟩
      rw [SyncFIFO.nbSamplesInFIFO_after, start, eq, isDelay,
        Graph.samplesAfter_transfers noLoop]
      rcases admissible before (beforePrefix.trans isPrefix) e with ⟨low, high⟩
      have atMost : g.net.level (counts before) e ≤ result.bMax e := WithTop.coe_le_coe.mp high
      have nonneg : 0 ≤ toInt32 (result.bMax e) := by
        rw [← lengths e, ← isLength]
        omega
      rw [isLength, lengths e, toInt32_of_nonneg nonneg]
      exact ⟨low, atMost⟩

/-- Two writes and a read which are tested. -/
def testedAccesses : List (Access ℕ) :=
  [.write [1, 2, 3], .read 2, .write [4, 5], .read 3]

/-- However a FIFO is used, the samples are only moved to a range they are not in, exactly when
the samples read between two writes are none, or at least as many as those left. -/
theorem FIFOUse.copiesDisjoint_iff {length : ℤ} {buffer : Memory α} {delay : ℕ}
    {accesses : List (Access α)} (fits : (delay : ℤ) ≤ length)
    (use : FIFOUse length buffer delay accesses) :
    (SyncFIFO.mk' buffer delay).CopiesDisjoint accesses ↔
      HalfRead delay (accesses.map Access.transfer) := by
  have inBuffer : (SyncFIFO.mk' buffer (delay : ℤ)).InBuffer length :=
    ⟨le_rfl, Int.natCast_nonneg delay, fits⟩
  have start : (SyncFIFO.mk' buffer (delay : ℤ)).nbSamplesInFIFO = delay := by
    simp [SyncFIFO.mk', SyncFIFO.nbSamplesInFIFO]
  have base : (SyncFIFO.mk' buffer (delay : ℤ)).readPos = 0 := rfl
  have copy : ∀ early, early <+: accesses →
      (((SyncFIFO.mk' buffer (delay : ℤ)).after early).CopyDisjoint ↔
        readSinceWrite (early.map Access.transfer) = 0 ∨
          samplesAfter delay (early.map Access.transfer) ≤
            readSinceWrite (early.map Access.transfer)) := by
    intro early isPrefix
    have positions := inBuffer.after ((use.within fits).early isPrefix)
    rw [SyncFIFO.copyDisjoint_iff ⟨positions.nonneg, positions.le⟩, ← start,
      ← SyncFIFO.nbSamplesInFIFO_after, ← (SyncFIFO.readPos_after base early).1]
    rfl
  constructor
  · intro disjoint early nb isPrefix
    rcases List.prefix_map_iff.mp isPrefix with ⟨found, foundPrefix, eq⟩
    rcases List.map_eq_append_iff.mp eq.symm with ⟨before, last, rfl, rfl, isLast⟩
    rcases List.map_eq_singleton_iff.mp isLast with ⟨access, rfl, isWrite⟩
    cases access with
    | write block =>
        exact (copy before ((List.prefix_append _ _).trans foundPrefix)).mp
          (disjoint before block foundPrefix)
    | read nb => simp [Access.transfer] at isWrite
  · intro halfRead early block isPrefix
    apply (copy early ((List.prefix_append _ _).trans isPrefix)).mpr
    apply halfRead _ block.length
    have mapped := isPrefix.map Access.transfer
    rwa [List.map_append] at mapped

/-- The samples of the tested FIFO are moved to a range they are not in. -/
theorem testedAccesses_copiesDisjoint :
    (SyncFIFO.mk' (fun _ => 0) (0 : ℕ)).CopiesDisjoint testedAccesses ↔
      HalfRead 0 (testedAccesses.map Access.transfer) :=
  FIFOUse.copiesDisjoint_iff (by norm_num : ((0 : ℕ) : ℤ) ≤ 3)
    (.guarded (SyncFIFO.guarded_of_tested (by decide +kernel)))

/-- A source and a sink of one sample, with five samples between them at the beginning. -/
def delayedSourceSink : Graph :=
  sourceSink ⟨.int 1, by decide⟩ ⟨.int 1, by decide⟩ 5

theorem delayedSourceSink_reducedBasis :
    ReducedBasis delayedSourceSink.topologyMatrix
      (pairNullspace 1 1 2 delayedSourceSink.topologyMatrix) := by
  apply sourceSink_reducedBasis
  have same : delayedSourceSink.totalProduced (0 : Fin 1) =
      delayedSourceSink.totalConsumed (0 : Fin 1) := by
    decide +kernel
  rw [mul_one]
  exact_mod_cast same

/-- One sample of a full FIFO is read, and the nine others are moved onto themselves; the sink of
the delayed graph is executed first, and its source moves the four samples which are left. -/
theorem copies_overlap :
    (∃ accesses, (SyncFIFO.mk' (fun _ => 0) (0 : ℕ) : AsyncFIFO ℕ).Guarded 10 accesses ∧
      ¬(SyncFIFO.mk' (fun _ => 0) (0 : ℕ)).CopiesDisjoint accesses) ∧
    ReducedBasis delayedSourceSink.topologyMatrix
      (pairNullspace 1 1 2 delayedSourceSink.topologyMatrix) ∧
    ∃ result, computeSchedule (pairNullspace 1) (occupancy delayedSourceSink)
        (ownColors delayedSourceSink) ⟨false, true, false⟩ = .ok result ∧
      ¬(SyncFIFO.mk' (fun _ => 0) (5 : ℕ)).CopiesDisjoint
        ((delayedSourceSink.transfers (0 : Fin 1) [] result.schedule).map (Transfer.access 0)) := by
  refine ⟨⟨[.write [0, 0, 0, 0, 0, 0, 0, 0, 0, 0], .read 1, .write [0]],
    SyncFIFO.guarded_of_tested (by decide +kernel), ?_⟩, delayedSourceSink_reducedBasis, ?_⟩
  · intro disjoint
    have copy := disjoint [.write [0, 0, 0, 0, 0, 0, 0, 0, 0, 0], .read 1] [0] (by simp)
    exact copy (by decide) 1 (by decide) (by decide) (by decide)
  · have evaluated : (computeSchedule (pairNullspace 1) (occupancy delayedSourceSink)
        (ownColors delayedSourceSink) ⟨false, true, false⟩).toOption.map
          (fun result => delayedSourceSink.transfers (0 : Fin 1) [] result.schedule) =
        some [.read 1, .write 1] := by
      decide +kernel
    rcases Option.map_eq_some_iff.mp evaluated with ⟨result, computed, transfers⟩
    refine ⟨result, toOption_eq_some.mp computed, ?_⟩
    rw [transfers]
    intro disjoint
    have copy := disjoint [.read 1] [0] (by simp [Transfer.access])
    exact copy (by decide) 1 (by decide) (by decide) (by decide)

end CmsisStream.Scheduler
