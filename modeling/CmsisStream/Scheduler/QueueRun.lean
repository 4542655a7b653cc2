import CmsisStream.Dataflow.Queues
import CmsisStream.Platform.FifoContents
import CmsisStream.Scheduler.BufferSharing

/-!
# A schedule as a run of queues

When the nodes keep no state, an execution of a schedule is a firing of a net of
queues: it takes samples from the inputs of its node and adds samples to the
outputs.  The memory of a running schedule represents the queues, as the samples
between the positions of a FIFO, or as the block of an array.  So what the nodes
read only depends on the samples which are in the FIFOs with a delay at the
beginning, and not on the rest of the memory.
-/

namespace CmsisStream.Scheduler

open Dataflow Platform

universe u v

variable {g : Graph} {S : Type u} {β : Type v}

namespace Graph

/-- The samples written by an execution, from those which are read; a `Duplicate` copies its
input. -/
def produce (g : Graph) (behaviour : NodeBehaviour g β Unit) (before : List (Fin g.nbNodes))
    (node : Fin g.nbNodes) (inputs : Fin g.nbEdges → List β) (e : Fin g.nbEdges) : List β :=
  match g.duplicateInput node with
  | some input => inputs input
  | none => (List.range (g.bytesWritten before e)).map ((behaviour node () inputs).2 e)

/-- The queues of the FIFOs; a firing is given by the executions before it and its node. -/
def queueNet (g : Graph) (behaviour : NodeBehaviour g β Unit) :
    QueueNet (List (Fin g.nbNodes) × Fin g.nbNodes) (Fin g.nbEdges) β where
  taken firing _ e :=
    if (g.edge e).dstOwner = firing.2 then g.bytesRead firing.1 e else 0
  added firing _ inputs e :=
    if (g.edge e).srcOwner = firing.2 then g.produce behaviour firing.1 firing.2 inputs e else []

/-- The firings of a schedule, after the given executions. -/
def firings (g : Graph) : List (Fin g.nbNodes) → List (Fin g.nbNodes) →
    List (List (Fin g.nbNodes) × Fin g.nbNodes)
  | _, [] => []
  | before, node :: rest => (before, node) :: g.firings (before ++ [node]) rest

variable {before : List (Fin g.nbNodes)} {node : Fin g.nbNodes} {e : Fin g.nbEdges}

/-- An execution of the source adds the samples it writes. -/
theorem bytes_mul_level_src (isOutput : (g.edge e).srcOwner = node)
    (notInput : (g.edge e).dstOwner ≠ node) :
    ((g.edge e).bytes : ℤ) * g.net.level (counts (before ++ [node])) e =
      (g.edge e).bytes * g.net.level (counts before) e + g.bytesWritten before e := by
  rw [counts_concat, bytesWritten, isOutput]
  simp only [Net.level, net, isOutput, bump_self, bump_of_ne _ notInput,
    NbSamples.transferred_succ]
  push_cast
  ring

/-- An execution of the destination removes the samples it reads. -/
theorem bytes_mul_level_dst (isInput : (g.edge e).dstOwner = node)
    (notOutput : (g.edge e).srcOwner ≠ node) :
    ((g.edge e).bytes : ℤ) * g.net.level (counts (before ++ [node])) e =
      (g.edge e).bytes * g.net.level (counts before) e - g.bytesRead before e := by
  rw [counts_concat, bytesRead, isInput]
  simp only [Net.level, net, isInput, bump_self, bump_of_ne _ notOutput,
    NbSamples.transferred_succ]
  push_cast
  ring

end Graph

/-- The next execution of a node finds its samples, and the arrays it writes are empty. -/
structure RunConfig.InTurn (config : RunConfig g S β Unit) (before : List (Fin g.nbNodes))
    (node : Fin g.nbNodes) : Prop where
  available : ∀ e, (g.edge e).dstOwner = node →
    (g.bytesRead before e : ℤ) ≤ (g.edge e).bytes * g.net.level (counts before) e
  room : ∀ e, config.array e = true → (g.edge e).srcOwner = node →
    g.net.level (counts before) e = 0

/-- The memory represents the queues: the samples between the positions of a FIFO, and the
block of an array which is full. -/
structure RunConfig.Represents (config : RunConfig g S β Unit) (before : List (Fin g.nbNodes))
    (s : RunState g S β Unit) (queues : Fin g.nbEdges → List β) : Prop where
  ordered : ∀ e, config.array e = false → (s.fifo config e).Ordered
  contents : ∀ e, config.array e = false → (s.fifo config e).contents = queues e
  block : ∀ e, config.array e = true → g.net.level (counts before) e ≠ 0 →
    (s.memory (config.store e)).load 0 (queues e).length = queues e
  length : ∀ e, ((queues e).length : ℤ) = (g.edge e).bytes * g.net.level (counts before) e

section Fire

variable [DecidableEq S] {config : RunConfig g S β Unit} {before : List (Fin g.nbNodes)}
  {node : Fin g.nbNodes} {s : RunState g S β Unit} {queues : Fin g.nbEdges → List β}

namespace RunConfig.Represents

omit [DecidableEq S] in
/-- The samples read are in the queue. -/
theorem bytesRead_le (represents : config.Represents before s queues)
    (inTurn : config.InTurn before node) {e : Fin g.nbEdges}
    (isInput : (g.edge e).dstOwner = node) : g.bytesRead before e ≤ (queues e).length := by
  have available := inTurn.available e isInput
  rw [← represents.length e] at available
  exact_mod_cast available

/-- An execution reads the front of its queues. -/
theorem inputs (represents : config.Represents before s queues) (noLoop : g.NoLoop)
    (safeStorage : config.SafeStorage) (safe : config.SafeFiring before node)
    (inTurn : config.InTurn before node) :
    s.inputs config before node =
      (g.queueNet config.behaviour).inputs (before, node) queues := by
  funext e
  simp only [RunState.inputs, QueueNet.inputs, Graph.queueNet]
  split_ifs with isInput
  · have enough := represents.bytesRead_le inTurn isInput
    have notOutput : (g.edge e).srcOwner ≠ node := fun isOutput =>
      noLoop e (isOutput.trans isInput.symm)
    unfold RunState.readBlock
    cases isArray : config.array e with
    | true =>
        -- the whole block is read, so nothing is left
        have full := safe.full e isArray isInput
        have drained := safe.drained e isArray isInput
        have left : ((g.edge e).bytes : ℤ) * g.net.level (counts (before ++ [node])) e = _ :=
          Graph.bytes_mul_level_dst isInput notOutput
        rw [drained, ← represents.length e] at left
        have whole : g.bytesRead before e = (queues e).length := by omega
        rw [if_pos rfl, scratched_array safe isArray full notOutput, whole, List.take_length]
        exact represents.block e isArray full
    | false =>
        have contents := represents.contents e isArray
        rw [if_neg Bool.false_ne_true, scratched_fifo safeStorage before node isArray, ← contents]
        rw [← contents] at enough
        exact (SyncFIFO.contents_read (represents.ordered e isArray) enough).1
  · rw [List.take_zero]

/-- An execution writes what is added to its queues. -/
theorem blocks (represents : config.Represents before s queues) (noLoop : g.NoLoop)
    (safeStorage : config.SafeStorage) (safe : config.SafeFiring before node)
    (inTurn : config.InTurn before node) :
    s.blocks config before node = g.produce config.behaviour before node
      ((g.queueNet config.behaviour).inputs (before, node) queues) := by
  funext e
  rw [← represents.inputs noLoop safeStorage safe inTurn]
  rfl

end RunConfig.Represents

/-- The blocks written have the size given by the rate of their FIFO. -/
theorem length_blocks_eq_bytesWritten {e : Fin g.nbEdges} (isOutput : (g.edge e).srcOwner = node) :
    (s.blocks config before node e).length = g.bytesWritten before e := by
  unfold RunState.blocks
  split
  · rename_i input duplicate
    have isInput := (g.duplicateInput_iff node input duplicate input).mpr rfl
    rcases g.duplicateOutput node input duplicate e isOutput with ⟨sameRate, sameBytes⟩
    rw [RunState.inputs, if_pos isInput, length_readBlock, Graph.bytesRead, Graph.bytesWritten,
      isInput, isOutput, sameRate, sameBytes]
  · rw [List.length_map, List.length_range]

/-- One execution fires the net of queues. -/
theorem RunConfig.Represents.fire (represents : config.Represents before s queues)
    (noLoop : g.NoLoop) (safeStorage : config.SafeStorage) (safe : config.SafeFiring before node)
    (inTurn : config.InTurn before node) :
    config.Represents (before ++ [node]) (s.fire config before node)
      ((g.queueNet config.behaviour).fire (before, node) queues) := by
  have blocks := represents.blocks noLoop safeStorage safe inTurn
  have output : ∀ e, (g.edge e).srcOwner = node →
      (g.queueNet config.behaviour).fire (before, node) queues e =
        queues e ++ s.blocks config before node e := by
    intro e isOutput
    have notInput : (g.edge e).dstOwner ≠ node := fun isInput =>
      noLoop e (isOutput.trans isInput.symm)
    rw [blocks]
    simp only [QueueNet.fire, Graph.queueNet, if_pos isOutput, if_neg notInput, List.drop_zero]
  have input : ∀ e, (g.edge e).dstOwner = node →
      (g.queueNet config.behaviour).fire (before, node) queues e =
        (queues e).drop (g.bytesRead before e) := by
    intro e isInput
    have notOutput : (g.edge e).srcOwner ≠ node := fun isOutput =>
      noLoop e (isOutput.trans isInput.symm)
    simp only [QueueNet.fire, Graph.queueNet, if_pos isInput, if_neg notOutput, List.append_nil]
  have other : ∀ e, (g.edge e).srcOwner ≠ node → (g.edge e).dstOwner ≠ node →
      (g.queueNet config.behaviour).fire (before, node) queues e = queues e := by
    intro e notOutput notInput
    simp only [QueueNet.fire, Graph.queueNet, if_neg notInput, if_neg notOutput, List.drop_zero,
      List.append_nil]
  -- the FIFO after the execution of its source or destination
  have fifo : ∀ e, config.array e = false →
      (s.fire config before node).fifo config e =
        if (g.edge e).srcOwner = node then
          (s.fifo config e).write (s.blocks config before node e)
        else if (g.edge e).dstOwner = node then ((s.fifo config e).read (g.bytesRead before e)).2
        else s.fifo config e := by
    intro e isFifo
    have memory := fire_memory_fifo (s := s) safeStorage before node isFifo
    have readPos : (s.fire config before node).readPos e = (s.positions config before node e).1 :=
      rfl
    have writePos : (s.fire config before node).writePos e =
      (s.positions config before node e).2 := rfl
    unfold RunState.positions at readPos writePos
    rw [if_neg (by simp [isFifo])] at readPos writePos
    rw [RunState.fifo, memory, readPos, writePos]
    split_ifs <;> rfl
  refine ⟨?_, ?_, ?_, ?_⟩
  · intro e isFifo
    have ordered := represents.ordered e isFifo
    rw [fifo e isFifo]
    split_ifs with isOutput isInput
    · exact ordered.write _
    · have enough := represents.bytesRead_le inTurn isInput
      rw [← represents.contents e isFifo] at enough
      exact (SyncFIFO.contents_read ordered enough).2.2
    · exact ordered
  · intro e isFifo
    have ordered := represents.ordered e isFifo
    have contents := represents.contents e isFifo
    rw [fifo e isFifo]
    split_ifs with isOutput isInput
    · rw [SyncFIFO.contents_write ordered, contents, output e isOutput]
    · have enough := represents.bytesRead_le inTurn isInput
      rw [← contents] at enough
      rw [(SyncFIFO.contents_read ordered enough).2.1, contents, input e isInput]
    · rw [contents, other e isOutput isInput]
  · intro e isArray full
    by_cases isOutput : (g.edge e).srcOwner = node
    · -- the array was empty, so the block is the whole queue
      have empty : queues e = [] := by
        apply List.eq_nil_of_length_eq_zero
        have length := represents.length e
        rw [inTurn.room e isArray isOutput, mul_zero] at length
        exact_mod_cast length
      rw [output e isOutput, empty, List.nil_append]
      exact fire_memory_written safeStorage safe isArray isOutput
    · have notInput : (g.edge e).dstOwner ≠ node := fun isInput =>
        full (safe.drained e isArray isInput)
      rw [counts_concat, Net.level_bump_of_ne isOutput notInput] at full
      rw [fire_memory_kept safeStorage safe isArray full isOutput notInput,
        other e isOutput notInput]
      exact represents.block e isArray full
  · intro e
    have length := represents.length e
    by_cases isOutput : (g.edge e).srcOwner = node
    · have notInput : (g.edge e).dstOwner ≠ node := fun isInput =>
        noLoop e (isOutput.trans isInput.symm)
      rw [output e isOutput, Graph.bytes_mul_level_src isOutput notInput, List.length_append,
        length_blocks_eq_bytesWritten isOutput, ← length]
      push_cast
      rfl
    · by_cases isInput : (g.edge e).dstOwner = node
      · have enough := represents.bytesRead_le inTurn isInput
        rw [input e isInput, Graph.bytes_mul_level_dst isInput isOutput, List.length_drop,
          ← length]
        omega
      · rw [other e isOutput isInput, counts_concat, Net.level_bump_of_ne isOutput isInput]
        exact length

/-- A run of a schedule is a run of the queues. -/
theorem RunConfig.Represents.trace (noLoop : g.NoLoop) (safeStorage : config.SafeStorage)
    (rest : List (Fin g.nbNodes)) (represents : config.Represents before s queues)
    (safe : ∀ early node, early ++ [node] <+: rest →
      config.SafeFiring (before ++ early) node ∧ config.InTurn (before ++ early) node) :
    s.trace config before rest =
      (g.queueNet config.behaviour).trace (g.firings before rest) queues := by
  induction rest generalizing before s queues with
  | nil => rfl
  | cons node rest ih =>
      have first : config.SafeFiring before node ∧ config.InTurn before node := by
        simpa using safe [] node (by simp)
      rw [RunState.trace, Graph.firings, QueueNet.trace,
        represents.inputs noLoop safeStorage first.1 first.2]
      congr 1
      apply ih (represents.fire noLoop safeStorage first.1 first.2)
      intro early other isPrefix
      have later := safe (node :: early) other (by simpa using isPrefix)
      simpa using later

end Fire

/-! ### Computed schedules -/

section Computed

variable {config : Configuration} {result : Schedule g}

/-- In a repeated schedule each execution finds its samples, and empty arrays to write. -/
theorem SharingSchedule.inTurn (sharing : SharingSchedule config result)
    (behaviour : NodeBehaviour g β Unit)
    (scratch : List (Fin g.nbNodes) → Fin g.nbEdges → ℕ → β) {iterations : ℕ}
    {before : List (Fin g.nbNodes)} {node : Fin g.nbNodes}
    (isPrefix : before ++ [node] <+: (List.replicate iterations result.schedule).flatten) :
    (result.runConfig behaviour scratch).InTurn before node := by
  have admissible := sharing.period.repeats sharing.noLoop sharing.balanced iterations
  refine ⟨?_, ?_⟩
  · intro e isInput
    have notOutput : (g.edge e).srcOwner ≠ node := fun isOutput =>
      sharing.noLoop e (isOutput.trans isInput.symm)
    have nonneg : (0 : ℤ) ≤ (g.edge e).bytes * g.net.level (counts (before ++ [node])) e :=
      mul_nonneg (Int.natCast_nonneg _) (admissible _ isPrefix e).1
    rw [Graph.bytes_mul_level_dst isInput notOutput] at nonneg
    omega
  · intro e isArray isOutput
    have notInput : (g.edge e).dstOwner ≠ node := fun isInput =>
      sharing.noLoop e (isOutput.trans isInput.symm)
    rcases sharing.rate e isArray with ⟨nb, rate, isMax⟩
    have blocks : ∀ firings, firings <+: (List.replicate iterations result.schedule).flatten →
        counts firings (g.edge e).srcOwner = counts firings (g.edge e).dstOwner ∨
          counts firings (g.edge e).srcOwner = counts firings (g.edge e).dstOwner + 1 := by
      intro firings early
      rcases admissible firings early e with ⟨low, high⟩
      exact rate.blocks_of_within low (isMax ▸ WithTop.coe_le_coe.mp high)
    have earlier := blocks before ((List.prefix_append _ _).trans isPrefix)
    have later := blocks _ isPrefix
    rw [counts_concat, isOutput, bump_self, bump_of_ne _ notInput] at later
    rw [isOutput] at earlier
    rw [rate.level_eq_zero_iff, isOutput]
    omega

/-- What the nodes read along a repeated schedule, from a state whose FIFOs with positions
represent the given queues. -/
theorem SharingSchedule.trace_eq (sharing : SharingSchedule config result)
    (behaviour : NodeBehaviour g β Unit)
    (scratch : List (Fin g.nbNodes) → Fin g.nbEdges → ℕ → β)
    {s : RunState g (Storage g) β Unit} {queues : Fin g.nbEdges → List β}
    (represents : (result.runConfig behaviour scratch).Represents [] s queues) {iterations : ℕ}
    {executions : List (Fin g.nbNodes)}
    (isPrefix : executions <+: (List.replicate iterations result.schedule).flatten) :
    s.trace (result.runConfig behaviour scratch) [] executions =
      (g.queueNet behaviour).trace (g.firings [] executions) queues := by
  apply represents.trace sharing.noLoop (sharing.safeStorage behaviour scratch)
  intro early node earlyPrefix
  rw [List.nil_append]
  exact ⟨sharing.safeFiring behaviour scratch (earlyPrefix.trans isPrefix),
    sharing.inTurn behaviour scratch (earlyPrefix.trans isPrefix)⟩

end Computed

end CmsisStream.Scheduler
