import CmsisStream.Scheduler.AsynchronousRun
import CmsisStream.Scheduler.DuplicateRun
import CmsisStream.Scheduler.FifoRun

/-!
# Initialization and reset of the FIFOs

With the heap allocation, a generated scheduler has a function `reset_fifos`.  It
puts the positions of the FIFOs back to their delays and, when `all` is set, it
fills the buffers of the scheduler with zeros.  The samples of a delay are at the
start of a buffer, so that a run from the beginning is given by these samples.
They are zero in a static array and after `reset_fifos`, but not in the memory
returned by `CG_MALLOC`, and nothing is done for the custom buffers.  An output of
a `Duplicate` which is skipped though it has a buffer of its own is not given by
these samples either, as nothing is written to it.
-/

namespace CmsisStream.Generated

open Dataflow Platform Scheduler

universe v

variable {g : Graph} {β : Type v}

/-- How the buffers of the scheduler are generated. -/
inductive BufferGeneration (β : Type v) where
  /-- Static arrays, which are initialized with zeros. -/
  | static
  /-- `config.bufferAllocation`: what is in the memory which `CG_MALLOC` returns. -/
  | bufferAllocation (malloc : ℕ → Memory β)

/-- The memory after `init_buffer`, given what is in the custom buffers and around the arrays. -/
def initialMemory (described : FIFODescriptions g) (generation : BufferGeneration β)
    (outside : Storage g → Memory β) (zero : β) : Storage g → Memory β
  | .allocated bufferID =>
      match generation with
      | .static => (outside (.allocated bufferID)).fill
          (described.bytesOf (fun _ => 0) (.allocated bufferID)) zero
      | .bufferAllocation malloc => malloc bufferID
  | storage => outside storage

/-- The buffers of the scheduler are filled with zeros. -/
def fillBuffers (described : FIFODescriptions g) (zero : β) (memory : Storage g → Memory β) :
    Storage g → Memory β
  | .allocated bufferID => (memory (.allocated bufferID)).fill
      (described.bytesOf (fun _ => 0) (.allocated bufferID)) zero
  | storage => memory storage

/-- The bytes of a delay. -/
def delayBytes (g : Graph) (e : Fin g.nbEdges) : ℕ := (g.edge e).bytes * (g.edge e).delay

/-- The positions of a FIFO after `reset`; an array has none. -/
def resetPositions (described : FIFODescriptions g) (s : RunState g (Storage g) β Unit)
    (e : Fin g.nbEdges) : ℤ × ℤ :=
  if (described.fifo e).isArray then (s.readPos e, s.writePos e)
  else
    let fifo := (s.asyncFIFO described.storage e).reset (delayBytes g e)
    (fifo.readPos, fifo.writePos)

/-- `reset_fifos` -/
def resetFifos (described : FIFODescriptions g) (all : Bool) (zero : β)
    (s : RunState g (Storage g) β Unit) : RunState g (Storage g) β Unit where
  memory := if all then fillBuffers described zero s.memory else s.memory
  readPos e := (resetPositions described s e).1
  writePos e := (resetPositions described s e).2
  nodes := s.nodes

/-- Which nodes the generated scheduler executes: a computed schedule for the given
configuration, or what an asynchronous one finds ready. -/
inductive SchedulerMode where
  | synchronous (config : Scheduler.Configuration)
  | asynchronous

/-- No `Duplicate` of a computed schedule skips a copy which is needed: they skip nothing, or the
custom buffers at each of them are the same. -/
def SchedulerMode.KeepsCopies (described : FIFODescriptions g) : SchedulerMode → Prop
  | .synchronous config =>
      config.disableDuplicateOptimization = true ∨ described.CustomBuffersAgree
  | .asynchronous => True

/-- What the nodes read when a generated scheduler is executed from the start of its schedule.
The nodes keep no state. -/
inductive GeneratedRun (g : Graph) (β : Type v) : SchedulerMode → FIFODescriptions g →
    (RunState g (Storage g) β Unit → List (Fin g.nbEdges → List β)) → Prop
  /-- A part of the repeated schedule. -/
  | synchronous (nullspace : Nullspace) (score : Score g) (coloring : Coloring g)
      (config : Scheduler.Configuration) (result : Schedule g)
      (basis : ReducedBasis g.topologyMatrix (nullspace _ _ g.topologyMatrix))
      (proper : ProperColoring coloring) (given : g.CustomBuffersGiven)
      (computed : computeSchedule nullspace score coloring config = .ok result)
      (duplicates : DuplicateOutputs g) (behaviour : NodeBehaviour g β Unit)
      (scratch : List (Fin g.nbNodes) → Fin g.nbEdges → ℕ → β) (iterations : ℕ)
      (executions : List (Fin g.nbNodes))
      (isPrefix : executions <+: (List.replicate iterations result.schedule).flatten) :
      GeneratedRun g β (.synchronous config) result.fifos
        fun s => s.traceCopied (result.fifos.runConfig behaviour scratch)
          (result.fifos.copiedOutputs config duplicates) [] executions
  /-- Any executions, as the nodes may be skipped.  A `Duplicate` adds nothing to an output which
  it skips. -/
  | asynchronous (lengths : Fin g.nbEdges → ℤ) (described : FIFODescriptions g)
      (given : g.CustomBuffersGiven)
      (ok : initializeAsynchronousFIFODescriptions g lengths = .ok described)
      (behaviour : AsyncBehaviour g β) (executions : List (Fin g.nbNodes)) :
      GeneratedRun g β .asynchronous described
        fun s => s.asyncTrace described.storage behaviour executions

/-- A run from the initialization reads zeros as the samples of the delays, and so does a run
after `reset_fifos(1)`, which reads the same samples. -/
structure ResetsFresh (described : FIFODescriptions g)
    (run : RunState g (Storage g) β Unit → List (Fin g.nbEdges → List β))
    (initial : Storage g → Memory β) (zero : β) (s : RunState g (Storage g) β Unit) : Prop where
  zeros : ∀ e, ∀ x ∈ (samplesRead (run (initialRun g initial fun _ => ())) e).take
    (delayBytes g e), x = zero
  same : run (resetFifos described true zero s) = run (initialRun g initial fun _ => ())

/-- The samples of the delay of a FIFO are zero. -/
def ZeroDelay (described : FIFODescriptions g) (zero : β) (memory : Storage g → Memory β)
    (e : Fin g.nbEdges) : Prop :=
  (memory (described.storage e)).load 0 (delayBytes g e) = List.replicate (delayBytes g e) zero

/-- Delays are not longer than their FIFOs.  They are zero in what is allocated, and in the custom
buffers when the FIFOs are reset. -/
structure ClearedDelays (described : FIFODescriptions g) (generation : BufferGeneration β)
    (zero : β) (s : RunState g (Storage g) β Unit) : Prop where
  fits : ∀ e, (described.fifo e).customBuffer = none →
    ((g.edge e).delay : ℤ) ≤ (described.fifo e).length
  allocated : ∀ malloc, generation = .bufferAllocation malloc → ∀ e bufferID,
    described.storage e = .allocated bufferID →
      (malloc bufferID).load 0 (delayBytes g e) = List.replicate (delayBytes g e) zero
  custom : ∀ e, (described.fifo e).customBuffer ≠ none → ZeroDelay described zero s.memory e

/-! ### The samples of the delays -/

section Delays

variable {described : FIFODescriptions g} {generation : BufferGeneration β} {zero : β}
  {s : RunState g (Storage g) β Unit} {memory : Storage g → Memory β} {e : Fin g.nbEdges}

theorem storage_of_noCustom (noCustom : (described.fifo e).customBuffer = none) :
    described.storage e = .allocated ((described.fifo e).bufferID.getD 0) := by
  rw [FIFODescriptions.storage, noCustom]

theorem storage_of_custom (custom : (described.fifo e).customBuffer ≠ none) (bufferID : ℕ) :
    described.storage e ≠ .allocated bufferID := by
  rcases Option.ne_none_iff_exists'.mp custom with ⟨constraint, isCustom⟩
  rw [FIFODescriptions.storage, isCustom]
  simp only
  split_ifs <;> simp

theorem initialMemory_of_custom (custom : (described.fifo e).customBuffer ≠ none)
    {outside : Storage g → Memory β} :
    initialMemory described generation outside zero (described.storage e) =
      outside (described.storage e) := by
  have notAllocated := storage_of_custom custom
  cases isStorage : described.storage e with
  | allocated bufferID => exact absurd isStorage (notAllocated bufferID)
  | named name => rfl
  | assignedByNode owner => rfl

theorem fillBuffers_of_custom (custom : (described.fifo e).customBuffer ≠ none) :
    fillBuffers described zero memory (described.storage e) = memory (described.storage e) := by
  have notAllocated := storage_of_custom custom
  cases isStorage : described.storage e with
  | allocated bufferID => exact absurd isStorage (notAllocated bufferID)
  | named name => rfl
  | assignedByNode owner => rfl

/-- A FIFO has no delay, or its delay is in a buffer of the scheduler. -/
def DelayInBuffer (described : FIFODescriptions g) (e : Fin g.nbEdges) : Prop :=
  delayBytes g e = 0 ∨
    (delayBytes g e : ℤ) ≤ described.bytesOf (fun _ => 0) (described.storage e)

/-- A buffer which is filled with zeros has a delay of zeros. -/
theorem zeroDelay_of_fill (inBuffer : DelayInBuffer described e) {before : Memory β}
    (filled : memory (described.storage e) =
      before.fill (described.bytesOf (fun _ => 0) (described.storage e)) zero) :
    ZeroDelay described zero memory e := by
  rcases inBuffer with noDelay | inBuffer
  · rw [ZeroDelay, noDelay]
    rfl
  · rw [ZeroDelay, filled]
    exact Memory.load_fill inBuffer zero

/-- The delays are zero after the initialization. -/
theorem ClearedDelays.initially (cleared : ClearedDelays described generation zero s)
    (inBuffer : ∀ e, (described.fifo e).customBuffer = none → DelayInBuffer described e)
    {outside : Storage g → Memory β}
    (custom : ∀ e, (described.fifo e).customBuffer ≠ none → ZeroDelay described zero outside e)
    (e : Fin g.nbEdges) :
    ZeroDelay described zero (initialMemory described generation outside zero) e := by
  by_cases noCustom : (described.fifo e).customBuffer = none
  · have isStorage := storage_of_noCustom noCustom
    cases generation with
    | static =>
        apply zeroDelay_of_fill (inBuffer e noCustom)
        rw [isStorage]
        rfl
    | bufferAllocation malloc =>
        rw [ZeroDelay, isStorage]
        exact cleared.allocated malloc rfl e _ isStorage
  · rw [ZeroDelay, initialMemory_of_custom noCustom]
    exact custom e noCustom

/-- The delays are zero after `reset_fifos(1)`. -/
theorem ClearedDelays.afterReset (cleared : ClearedDelays described generation zero s)
    (inBuffer : ∀ e, (described.fifo e).customBuffer = none → DelayInBuffer described e)
    (e : Fin g.nbEdges) :
    ZeroDelay described zero (fillBuffers described zero s.memory) e := by
  by_cases noCustom : (described.fifo e).customBuffer = none
  · have isStorage := storage_of_noCustom noCustom
    apply zeroDelay_of_fill (inBuffer e noCustom)
    rw [isStorage]
    rfl
  · rw [ZeroDelay, fillBuffers_of_custom noCustom]
    exact cleared.custom e noCustom

end Delays

/-! ### Runs from the beginning -/

section Runs

variable {mode : SchedulerMode} {described : FIFODescriptions g}
  {run : RunState g (Storage g) β Unit → List (Fin g.nbEdges → List β)}

/-- A delay which is not longer than its FIFO is in the buffer of the FIFO. -/
theorem GeneratedRun.delayInBuffer (generated : GeneratedRun g β mode described run)
    {e : Fin g.nbEdges} (noCustom : (described.fifo e).customBuffer = none)
    (fits : ((g.edge e).delay : ℤ) ≤ (described.fifo e).length) :
    DelayInBuffer described e := by
  have inLength : (delayBytes g e : ℤ) ≤ (g.edge e).bytes * (described.fifo e).length := by
    rw [delayBytes, Nat.cast_mul]
    exact mul_le_mul_of_nonneg_left fits (Int.natCast_nonneg _)
  cases generated with
  | synchronous nullspace score coloring config result basis proper given computed =>
      rcases computeSchedule_ok (computeSchedule_noLoop basis computed) computed with
        ⟨-, -, isDescribed⟩
      rcases initializeFIFODescriptions_ok isDescribed with ⟨-, -, -, eq⟩
      rw [eq] at noCustom inLength ⊢
      rcases bytesOf_allocated (coloredArrays proper) noCustom with ⟨isArray, -⟩ | isOwn
      · simp only [Graph.isArray, Bool.and_eq_true, decide_eq_true_eq] at isArray
        exact Or.inl (by rw [delayBytes, isArray.2, mul_zero])
      · exact Or.inr (inLength.trans isOwn.ge)
  | asynchronous lengths described given ok =>
      rcases initializeAsynchronousFIFODescriptions_ok ok with ⟨-, rfl⟩
      exact Or.inr (inLength.trans (describeAsynchronous_bytesOf lengths noCustom).ge)

/-- The FIFOs with positions start with their delays. -/
def AtStart (described : FIFODescriptions g) (s : RunState g (Storage g) β Unit) : Prop :=
  ∀ e, (described.fifo e).isArray = false → s.readPos e = 0 ∧ s.writePos e = delayBytes g e

/-- The samples of the delays. -/
def delayQueues (described : FIFODescriptions g) (memory : Storage g → Memory β)
    (e : Fin g.nbEdges) : List β :=
  (memory (described.storage e)).load 0 (delayBytes g e)

theorem atStart_initialRun (memory : Storage g → Memory β) :
    AtStart described (initialRun g memory fun _ => ()) := by
  intro e _
  refine ⟨rfl, ?_⟩
  rw [delayBytes, Nat.cast_mul]
  rfl

theorem atStart_resetFifos (all : Bool) (zero : β) (s : RunState g (Storage g) β Unit) :
    AtStart described (resetFifos described all zero s) := by
  intro e isFifo
  have positions : resetPositions described s e = (0, (delayBytes g e : ℤ)) := by
    rw [resetPositions, isFifo]
    rfl
  refine ⟨congrArg Prod.fst positions, congrArg Prod.snd positions⟩

/-- A FIFO at its start has the samples of its delay. -/
theorem AtStart.asyncFIFO {s : RunState g (Storage g) β Unit} (atStart : AtStart described s)
    {e : Fin g.nbEdges} (isFifo : (described.fifo e).isArray = false) :
    (s.asyncFIFO described.storage e).Ordered ∧
      (s.asyncFIFO described.storage e).contents = delayQueues described s.memory e := by
  rcases atStart e isFifo with ⟨readPos, writePos⟩
  have isStart : s.asyncFIFO described.storage e =
      ⟨s.memory (described.storage e), 0, delayBytes g e⟩ := by
    rw [RunState.asyncFIFO, readPos, writePos]
  rw [isStart]
  refine ⟨⟨le_rfl, Int.natCast_nonneg _⟩, ?_⟩
  simp [SyncFIFO.contents, SyncFIFO.nbSamplesInFIFO, delayQueues]

/-- What a run reads from the beginning is given by the samples of the delays. -/
theorem GeneratedRun.eq_trace (generated : GeneratedRun g β mode described run)
    (copies : mode.KeepsCopies described) :
    ∃ (Firing : Type) (net : QueueNet Firing (Fin g.nbEdges) β) (firings : List Firing),
      ∀ s, AtStart described s → run s = net.trace firings (delayQueues described s.memory) := by
  cases generated with
  | synchronous nullspace score coloring config result basis proper given computed duplicates
      behaviour scratch iterations executions isPrefix =>
      have noLoop := computeSchedule_noLoop basis computed
      rcases computeSchedule_ok noLoop computed with ⟨solved, -, described⟩
      have allocated := allocated_of_initialize given proper described
      have sharing := computeSchedule_sharing noLoop (nullVector_balanced basis.kernel solved)
        proper given computed
      refine ⟨_, g.queueNet behaviour, g.firings [] executions, ?_⟩
      intro s atStart
      refine (allocated.traceCopied duplicates copies _ _ _ _).trans ?_
      refine sharing.trace_eq behaviour scratch ⟨?_, ?_, ?_, ?_⟩ isPrefix
      · exact fun e isFifo => (atStart.asyncFIFO isFifo).1
      · exact fun e isFifo => (atStart.asyncFIFO isFifo).2
      · intro e isArray full
        rcases Schedule.blockRate noLoop computed isArray with ⟨nb, rate, -⟩
        simp [rate.level_eq_zero_iff] at full
      · intro e
        rw [delayQueues, Memory.length_load, delayBytes]
        simp [Net.level, Graph.net, NbSamples.transferred]
  | asynchronous lengths described given ok behaviour executions =>
      have fifos : ∀ e, (described.fifo e).isArray = false := by
        rcases initializeAsynchronousFIFODescriptions_ok ok with ⟨-, rfl⟩
        exact fun _ => rfl
      refine ⟨_, behaviour.queueNet, executions, ?_⟩
      intro s atStart
      apply AsyncRepresents.trace fun e o same => storage_injective given ok same
      exact ⟨fun e => (atStart.asyncFIFO (fifos e)).1, fun e => (atStart.asyncFIFO (fifos e)).2⟩

/-- Initialisation and reset.  When no copy which is needed is skipped, and the delays are in
buffers which are zero at the beginning and set to zero again, a run reads zeros for the delays,
and so does a run after a reset at any point, which reads the same samples. -/
theorem GeneratedRun.resetsFresh (generated : GeneratedRun g β mode described run)
    (copies : mode.KeepsCopies described)
    {generation : BufferGeneration β} {outside : Storage g → Memory β} {zero : β}
    (custom : ∀ e, (described.fifo e).customBuffer ≠ none → ZeroDelay described zero outside e)
    {s : RunState g (Storage g) β Unit} (cleared : ClearedDelays described generation zero s) :
    ResetsFresh described run (initialMemory described generation outside zero) zero s := by
  rcases generated.eq_trace copies with ⟨Firing, net, firings, fromStart⟩
  have initially : delayQueues described (initialMemory described generation outside zero) =
      fun e => List.replicate (delayBytes g e) zero :=
    funext (cleared.initially (fun e noCustom =>
      generated.delayInBuffer noCustom (cleared.fits e noCustom)) custom)
  have afterReset : delayQueues described (fillBuffers described zero s.memory) =
      fun e => List.replicate (delayBytes g e) zero :=
    funext (cleared.afterReset fun e noCustom =>
      generated.delayInBuffer noCustom (cleared.fits e noCustom))
  have first := fromStart _ (atStart_initialRun (initialMemory described generation outside zero))
  have again := fromStart _ (atStart_resetFifos true zero s)
  refine ⟨?_, ?_⟩
  · intro e x mem
    rw [first] at mem
    have isDelay : x ∈ delayQueues described
        (initialMemory described generation outside zero) e := by
      apply QueueNet.mem_of_mem_take_samplesRead
      rw [delayQueues, Memory.length_load]
      exact mem
    rw [initially] at isDelay
    exact List.eq_of_mem_replicate isDelay
  · exact again.trans ((congrArg (net.trace firings) (afterReset.trans initially.symm)).trans
      first.symm)

end Runs

/-! ### A source, a delay and a sink -/

/-- Nodes which write the same byte everywhere. -/
def constantConfig (described : FIFODescriptions g) (x : ℕ) : RunConfig g (Storage g) ℕ Unit :=
  described.runConfig (fun _ _ _ => ((), fun _ _ => x)) fun _ _ _ => x

/-- The buffers are shared, and the copies are optimized. -/
def memoryOptimized : Scheduler.Configuration := ⟨false, true, false⟩

/-- One iteration of the schedule with these nodes. -/
def iteration (duplicates : DuplicateOutputs g) (result : Schedule g) (x : ℕ)
    (s : RunState g (Storage g) ℕ Unit) : List (Fin g.nbEdges → List ℕ) :=
  s.traceCopied (constantConfig result.fifos x)
    (result.fifos.copiedOutputs memoryOptimized duplicates) [] result.schedule

theorem iteration_generated {nullspace : Nullspace} {score : Score g} {result : Schedule g}
    (basis : ReducedBasis g.topologyMatrix (nullspace _ _ g.topologyMatrix))
    (given : g.CustomBuffersGiven)
    (computed : computeSchedule nullspace score (ownColors g) memoryOptimized = .ok result)
    (duplicates : DuplicateOutputs g) (x : ℕ) :
    GeneratedRun g ℕ (.synchronous memoryOptimized) result.fifos (iteration duplicates result x) :=
  .synchronous nullspace score _ memoryOptimized result basis (ownColors_proper g) given computed
    duplicates _ _ 1 result.schedule (by simp)

theorem delayedSourceSink_customBuffersGiven : delayedSourceSink.CustomBuffersGiven := by
  intro e constraint custom
  simp [delayedSourceSink, sourceSink] at custom

/-- There is no `Duplicate` in this graph. -/
def delayedDuplicates : DuplicateOutputs delayedSourceSink :=
  edgeOrder delayedSourceSink (by rintro _ _ ⟨⟩)

/-- The delay of five samples is read as zeros from a static array, and again after a reset when
the FIFO is in use and its buffer has other samples. -/
theorem delayedSourceSink_resetsFresh :
    ∃ result, GeneratedRun delayedSourceSink ℕ (.synchronous memoryOptimized) result.fifos
        (iteration delayedDuplicates result 1) ∧
      ResetsFresh result.fifos (iteration delayedDuplicates result 1)
        (initialMemory result.fifos .static (fun _ _ => 1) 0) 0
        ⟨fun _ _ => 1, fun _ => 4, fun _ => 20, fun _ => ()⟩ := by
  have evaluated : (computeSchedule (pairNullspace 1) (occupancy delayedSourceSink)
      (ownColors delayedSourceSink) memoryOptimized).toOption.map
        (fun result => decide (∀ e, (result.fifos.fifo e).customBuffer = none ∧
          ((delayedSourceSink.edge e).delay : ℤ) ≤ (result.fifos.fifo e).length)) =
      some true := by
    decide +kernel
  rcases Option.map_eq_some_iff.mp evaluated with ⟨result, computed, described⟩
  have fifos := of_decide_eq_true described
  have generated := iteration_generated delayedSourceSink_reducedBasis
    delayedSourceSink_customBuffersGiven (toOption_eq_some.mp computed)
    delayedDuplicates 1
  refine ⟨result, generated, generated.resetsFresh (Or.inr ?_) ?_ ⟨?_, ?_, ?_⟩⟩
  · rintro node input ⟨⟩
  · exact fun e custom => absurd (fifos e).1 custom
  · exact fun e _ => (fifos e).2
  · simp
  · exact fun e custom => absurd (fifos e).1 custom

/-- A source and a sink with one sample between them, in a buffer of the user. -/
def namedSourceSink : Graph :=
  { delayedSourceSink with
    edge := fun e => { delayedSourceSink.edge e with
      delay := 1
      customBuffer := some ⟨0, some "samples", false, false, false⟩ } }

/-- The nodes of this graph. -/
def namedSource : Fin namedSourceSink.nbNodes := ⟨0, Nat.two_pos⟩

def namedSink : Fin namedSourceSink.nbNodes := ⟨1, Nat.one_lt_two⟩

def namedDuplicates : DuplicateOutputs namedSourceSink :=
  edgeOrder namedSourceSink (by rintro _ _ ⟨⟩)

/-- The state of this graph after one iteration. -/
def afterIteration (result : Schedule namedSourceSink) :
    RunState namedSourceSink (Storage namedSourceSink) ℕ Unit :=
  ((initialRun namedSourceSink (initialMemory result.fifos .static (fun _ _ => 0) 0)
    fun _ => ()).fire (constantConfig result.fifos 1) [] namedSink).fire
      (constantConfig result.fifos 1) [namedSink] namedSource

/-- The delay of five samples is in memory which `CG_MALLOC` returns, and is not read as zeros.
The sample of the other graph is zero before the first run, but it is not set to zero again when
the FIFO is reset after one iteration. -/
theorem delays_not_resetsFresh :
    (∃ result, GeneratedRun delayedSourceSink ℕ (.synchronous memoryOptimized) result.fifos
        (iteration delayedDuplicates result 0) ∧
      (∀ e, (result.fifos.fifo e).customBuffer = none) ∧
      ¬ ResetsFresh result.fifos (iteration delayedDuplicates result 0)
        (initialMemory result.fifos (.bufferAllocation fun _ _ => 1) (fun _ _ => 0) 0) 0
        (initialRun delayedSourceSink (fun _ _ => 0) fun _ => ())) ∧
    ∃ result, GeneratedRun namedSourceSink ℕ (.synchronous memoryOptimized) result.fifos
        (iteration namedDuplicates result 1) ∧
      result.schedule.map Fin.val = [1, 0] ∧
      ¬ ResetsFresh result.fifos (iteration namedDuplicates result 1)
        (initialMemory result.fifos .static (fun _ _ => 0) 0) 0 (afterIteration result) := by
  refine ⟨?_, ?_⟩
  · have evaluated : (computeSchedule (pairNullspace 1) (occupancy delayedSourceSink)
        (ownColors delayedSourceSink) memoryOptimized).toOption.map
          (fun result => decide ((∀ e, (result.fifos.fifo e).customBuffer = none) ∧
            1 ∈ (samplesRead (iteration delayedDuplicates result 0
              (initialRun delayedSourceSink
                (initialMemory result.fifos (.bufferAllocation fun _ _ => 1) (fun _ _ => 0) 0)
                fun _ => ())) (0 : Fin 1)).take (delayBytes delayedSourceSink (0 : Fin 1)))) =
        some true := by
      decide +kernel
    rcases Option.map_eq_some_iff.mp evaluated with ⟨result, computed, read⟩
    rcases of_decide_eq_true read with ⟨noCustom, one⟩
    refine ⟨result, iteration_generated delayedSourceSink_reducedBasis
      delayedSourceSink_customBuffersGiven (toOption_eq_some.mp computed)
      delayedDuplicates 0, noCustom, ?_⟩
    intro fresh
    exact absurd (fresh.zeros (0 : Fin 1) 1 one) one_ne_zero
  · have evaluated : (computeSchedule (pairNullspace 1) (occupancy namedSourceSink)
        (ownColors namedSourceSink) memoryOptimized).toOption.map
          (fun result => decide (result.schedule.map Fin.val = [1, 0] ∧
            samplesRead (iteration namedDuplicates result 1 (resetFifos result.fifos true 0
              (afterIteration result))) (0 : Fin 1) ≠
            samplesRead (iteration namedDuplicates result 1 (initialRun namedSourceSink
              (initialMemory result.fifos .static (fun _ _ => 0) 0) fun _ => ()))
                (0 : Fin 1))) = some true := by
      decide +kernel
    rcases Option.map_eq_some_iff.mp evaluated with ⟨result, computed, read⟩
    rcases of_decide_eq_true read with ⟨schedule, different⟩
    have given : namedSourceSink.CustomBuffersGiven := by
      intro e constraint custom
      obtain rfl : _ = constraint := Option.some.inj custom
      exact Or.inl rfl
    have basis : ReducedBasis namedSourceSink.topologyMatrix
        (pairNullspace 1 1 2 namedSourceSink.topologyMatrix) := delayedSourceSink_reducedBasis
    refine ⟨result, iteration_generated basis given (toOption_eq_some.mp computed)
      namedDuplicates 1, schedule, ?_⟩
    intro fresh
    exact different (congrArg (fun trace => samplesRead trace (0 : Fin 1)) fresh.same)

end CmsisStream.Generated
