import CmsisStream.Dataflow.Processes
import CmsisStream.Scheduler.AsynchronousRun
import CmsisStream.Scheduler.FifoRun

/-!
# Nodes which are skipped

In the asynchronous modes a node is asked before each execution whether it can run.  The nodes
of the platform and the pure functions skip an execution when an input would underflow or when
an output would overflow.  So the order in which the scheduler tries the nodes has no influence
on what they read and write: it is the same as far as they have been executed.
-/

namespace CmsisStream.Scheduler

open Dataflow Platform

/-- The classes of the nodes: how many samples an execution reads from each input and writes to
each output, and what it computes.  A class may choose these numbers from its own state. -/
structure NodeClasses (g : Graph) (β σ : Type) where
  inputSize : Fin g.nbNodes → σ → Fin g.nbEdges → ℕ
  outputSize : Fin g.nbNodes → σ → Fin g.nbEdges → ℕ
  run : Fin g.nbNodes → σ → (Fin g.nbEdges → List β) → σ × (Fin g.nbEdges → List β)
  length_run : ∀ node state inputs e,
    ((run node state inputs).2 e).length = outputSize node state e

/-- The state of the scheduler, and the samples read from and written to each FIFO so far. -/
structure AsyncState (g : Graph) (S β σ : Type) extends RunState g S β σ where
  consumed : Fin g.nbEdges → List β
  produced : Fin g.nbEdges → List β

variable {g : Graph} {S β σ : Type}

namespace AsyncState

/-- The FIFOs filled up to their delays, before any execution. -/
def init (memory : S → Memory β) (nodes : Fin g.nbNodes → σ) : AsyncState g S β σ where
  memory := memory
  readPos _ := 0
  writePos e := (g.edge e).delay
  nodes := nodes
  consumed _ := []
  produced _ := []

variable (store : Fin g.nbEdges → S) (lengths : Fin g.nbEdges → ℤ) (classes : NodeClasses g β σ)
  (node : Fin g.nbNodes) (s : AsyncState g S β σ)

/-- A FIFO in its storage. -/
def fifo (e : Fin g.nbEdges) : AsyncFIFO β := ⟨s.memory (store e), s.readPos e, s.writePos e⟩

/-- `prepareForRunning` answers `CG_SUCCESS`, and not `CG_SKIP_EXECUTION`. -/
def prepareForRunning : Prop :=
  ∀ e, ((g.edge e).dstOwner = node →
      (s.fifo store e).willUnderflowWith (classes.inputSize node (s.nodes node) e) = some false) ∧
    ((g.edge e).srcOwner = node →
      (s.fifo store e).willOverflowWith (lengths e) (classes.outputSize node (s.nodes node) e) =
        some false)

instance : Decidable (s.prepareForRunning store lengths classes node) :=
  inferInstanceAs (Decidable (∀ _, (_ → _ = some false) ∧ (_ → _ = some false)))

/-- The blocks read by `run`. -/
def inputs (e : Fin g.nbEdges) : List β :=
  if (g.edge e).dstOwner = node then
    ((s.fifo store e).read (classes.inputSize node (s.nodes node) e)).1
  else []

/-- The blocks written by `run`. -/
def blocks (e : Fin g.nbEdges) : List β :=
  if (g.edge e).srcOwner = node then
    (classes.run node (s.nodes node) (s.inputs store classes node)).2 e
  else []

/-- A FIFO after `run`. -/
def used (e : Fin g.nbEdges) : AsyncFIFO β :=
  if (g.edge e).srcOwner = node then (s.fifo store e).write (s.blocks store classes node e)
  else if (g.edge e).dstOwner = node then
    ((s.fifo store e).read (classes.inputSize node (s.nodes node) e)).2
  else s.fifo store e

/-- The block of an output in the memory. -/
def writeBlock [DecidableEq S] (memory : S → Memory β) (e : Fin g.nbEdges) : S → Memory β :=
  Function.update memory (store e)
    ((SyncFIFO.mk (memory (store e)) (s.readPos e) (s.writePos e)).write
      (s.blocks store classes node e)).mBuffer

/-- The state after `run`. -/
def run [DecidableEq S] : AsyncState g S β σ where
  memory := (g.outputs node).foldl (s.writeBlock store classes node) s.memory
  readPos e := (s.used store classes node e).readPos
  writePos e := (s.used store classes node e).writePos
  nodes := Function.update s.nodes node
    (classes.run node (s.nodes node) (s.inputs store classes node)).1
  consumed e := s.consumed e ++ s.inputs store classes node e
  produced e := s.produced e ++ s.blocks store classes node e

/-- The scheduler, which tries one node after the other. -/
def scheduler [DecidableEq S] : Machine (AsyncState g S β σ) (Fin g.nbNodes) where
  init := s
  next s node :=
    if s.prepareForRunning store lengths classes node then some (s.run store classes node)
    else none

end AsyncState

/-- The processes of the graph. -/
def NodeClasses.processNet (classes : NodeClasses g β σ) (lengths : Fin g.nbEdges → ℤ) :
    ProcessNet (Fin g.nbNodes) (Fin g.nbEdges) σ β where
  src e := (g.edge e).srcOwner
  dst e := (g.edge e).dstOwner
  capacity := lengths
  taken := classes.inputSize
  added := classes.outputSize
  run := classes.run
  length_run := classes.length_run

/-- The sizes used by the nodes fit in an `int`, with the samples of a full FIFO. -/
def NodeClasses.Fits (classes : NodeClasses g β σ) (lengths : Fin g.nbEdges → ℤ) : Prop :=
  ∀ node state e, lengths e + classes.inputSize node state e < 2 ^ 31 ∧
    lengths e + classes.outputSize node state e < 2 ^ 31

/-- The samples between the positions of the FIFOs are the queues of the processes. -/
structure AsyncState.Represents (store : Fin g.nbEdges → S) (lengths : Fin g.nbEdges → ℤ)
    (s : AsyncState g S β σ) (p : ProcessState (Fin g.nbNodes) (Fin g.nbEdges) σ β) : Prop where
  inBuffer : ∀ e, (s.fifo store e).InBuffer (lengths e)
  contents : ∀ e, (s.fifo store e).contents = p.queues e
  nodes : s.nodes = p.nodes
  consumed : s.consumed = p.consumed
  produced : s.produced = p.produced

section Represents

variable {store : Fin g.nbEdges → S} {lengths : Fin g.nbEdges → ℤ} {classes : NodeClasses g β σ}
  {node : Fin g.nbNodes} {s : AsyncState g S β σ}
  {p : ProcessState (Fin g.nbNodes) (Fin g.nbEdges) σ β}

namespace AsyncState.Represents

theorem ordered (represents : s.Represents store lengths p) (e : Fin g.nbEdges) :
    (s.fifo store e).Ordered :=
  ⟨(represents.inBuffer e).nonneg, (represents.inBuffer e).le⟩

/-- A node answers that it can run when its process is ready. -/
theorem ready_iff (represents : s.Represents store lengths p) (fits : classes.Fits lengths) :
    s.prepareForRunning store lengths classes node ↔
      (classes.processNet lengths).Ready p node := by
  have each : ∀ e,
      ((s.fifo store e).willUnderflowWith (classes.inputSize node (s.nodes node) e) =
          some false ↔ classes.inputSize node (p.nodes node) e ≤ (p.queues e).length) ∧
      ((s.fifo store e).willOverflowWith (lengths e) (classes.outputSize node (s.nodes node) e) =
          some false ↔ ((p.queues e).length : ℤ) + classes.outputSize node (p.nodes node) e ≤
            lengths e) := by
    intro e
    rw [← represents.contents e, ← represents.nodes]
    rcases fits node (s.nodes node) e with ⟨input, output⟩
    exact ⟨SyncFIFO.willUnderflowWith_eq_false_iff (represents.inBuffer e) input,
      SyncFIFO.willOverflowWith_eq_false_iff (represents.inBuffer e) output⟩
  constructor
  · intro answer e
    exact ⟨fun isInput => (each e).1.mp ((answer e).1 isInput),
      fun isOutput => (each e).2.mp ((answer e).2 isOutput)⟩
  · intro ready e
    exact ⟨fun isInput => (each e).1.mpr ((ready e).1 isInput),
      fun isOutput => (each e).2.mpr ((ready e).2 isOutput)⟩

/-- The samples read are those which the process takes. -/
theorem inputs (represents : s.Represents store lengths p)
    (ready : (classes.processNet lengths).Ready p node) :
    s.inputs store classes node = (classes.processNet lengths).inputs p node := by
  funext e
  change (if (g.edge e).dstOwner = node then _ else []) =
    if (g.edge e).dstOwner = node then _ else []
  split_ifs with isInput
  · have enough : classes.inputSize node (s.nodes node) e ≤ (s.fifo store e).contents.length := by
      rw [represents.contents, represents.nodes]
      exact (ready e).1 isInput
    rw [(SyncFIFO.contents_read (represents.ordered e) enough).1, represents.contents,
      represents.nodes]
    rfl
  · rfl

/-- The samples written are those which the process adds. -/
theorem blocks (represents : s.Represents store lengths p)
    (ready : (classes.processNet lengths).Ready p node) :
    s.blocks store classes node = (classes.processNet lengths).outputs p node := by
  funext e
  change (if (g.edge e).srcOwner = node then _ else []) =
    if (g.edge e).srcOwner = node then _ else []
  rw [represents.inputs ready, represents.nodes]
  rfl

/-- A FIFO after an execution. -/
theorem used (represents : s.Represents store lengths p) (noLoop : g.NoLoop)
    (ready : (classes.processNet lengths).Ready p node) (e : Fin g.nbEdges) :
    (s.used store classes node e).contents = ((classes.processNet lengths).fire p node).queues e ∧
      (s.used store classes node e).InBuffer (lengths e) := by
  have contents := represents.contents e
  have inBuffer := represents.inBuffer e
  have ordered := represents.ordered e
  have number := ordered.length_contents
  have below : (s.fifo store e).nbSamplesInFIFO ≤ lengths e := by
    have nonneg := inBuffer.nonneg
    have below := inBuffer.below
    rw [SyncFIFO.nbSamplesInFIFO]
    omega
  by_cases isOutput : (g.edge e).srcOwner = node
  · have notInput : (g.edge e).dstOwner ≠ node := fun isInput =>
      noLoop e (isOutput.trans isInput.symm)
    have size : (s.blocks store classes node e).length =
        classes.outputSize node (p.nodes node) e := by
      rw [AsyncState.blocks, if_pos isOutput, classes.length_run, represents.nodes]
    have room : ((p.queues e).length : ℤ) + classes.outputSize node (p.nodes node) e ≤ lengths e :=
      (ready e).2 isOutput
    rw [AsyncState.used, if_pos isOutput]
    refine ⟨?_, ?_⟩
    · rw [SyncFIFO.contents_write ordered, contents, represents.blocks ready]
      change _ = (if (g.edge e).dstOwner = node then _ else p.queues e) ++ _
      rw [if_neg notInput]
    · have total : ((s.fifo store e).access (.write _)).nbSamplesInFIFO = _ :=
        SyncFIFO.nbSamplesInFIFO_write (s.fifo store e) (s.blocks store classes node e)
      rw [← contents, ← size] at room
      exact inBuffer.access (.write _) (by omega) (by omega)
  · have nothing : (classes.processNet lengths).outputs p node e = [] := by
      change (if (g.edge e).srcOwner = node then _ else []) = []
      rw [if_neg isOutput]
    by_cases isInput : (g.edge e).dstOwner = node
    · have enough : classes.inputSize node (s.nodes node) e ≤
          (s.fifo store e).contents.length := by
        rw [contents, represents.nodes]
        exact (ready e).1 isInput
      rw [AsyncState.used, if_neg isOutput, if_pos isInput]
      refine ⟨?_, ?_⟩
      · rw [(SyncFIFO.contents_read ordered enough).2.1, contents, represents.nodes]
        change _ = (if (g.edge e).dstOwner = node then _ else p.queues e) ++ _
        rw [if_pos isInput, nothing, List.append_nil]
        rfl
      · have left : ((s.fifo store e).access (.read _)).nbSamplesInFIFO = _ :=
          SyncFIFO.nbSamplesInFIFO_read (s.fifo store e)
            (classes.inputSize node (s.nodes node) e)
        exact inBuffer.access (.read _) (by omega) (by omega)
    · rw [AsyncState.used, if_neg isOutput, if_neg isInput]
      refine ⟨?_, inBuffer⟩
      change _ = (if (g.edge e).dstOwner = node then _ else p.queues e) ++ _
      rw [if_neg isInput, nothing, List.append_nil, contents]

end AsyncState.Represents

variable [DecidableEq S]

/-- A FIFO after an execution, in its storage. -/
theorem AsyncState.fifo_run (injective : Function.Injective store) (e : Fin g.nbEdges) :
    (s.run store classes node).fifo store e = s.used store classes node e := by
  have nodup : (g.outputs node).Nodup := (List.nodup_finRange g.nbEdges).filter _
  have written := foldl_update_of_injective injective
    (fun memory e => ((SyncFIFO.mk memory (s.readPos e) (s.writePos e)).write
      (s.blocks store classes node e)).mBuffer) nodup s.memory e
  have memory : (s.run store classes node).memory (store e) =
      (s.used store classes node e).mBuffer := by
    refine Eq.trans written ?_
    by_cases isOutput : (g.edge e).srcOwner = node
    · rw [if_pos (mem_outputs.mpr isOutput), AsyncState.used, if_pos isOutput]
      rfl
    · rw [if_neg (mt mem_outputs.mp isOutput), AsyncState.used, if_neg isOutput]
      split_ifs <;> rfl
  rw [AsyncState.fifo, memory]
  rfl

/-- An execution represents an execution of the process. -/
theorem AsyncState.Represents.run (represents : s.Represents store lengths p)
    (injective : Function.Injective store) (noLoop : g.NoLoop)
    (ready : (classes.processNet lengths).Ready p node) :
    (s.run store classes node).Represents store lengths
      ((classes.processNet lengths).fire p node) := by
  have used := represents.used noLoop ready
  refine ⟨?_, ?_, ?_, ?_, ?_⟩
  · intro e
    rw [AsyncState.fifo_run injective]
    exact (used e).2
  · intro e
    rw [AsyncState.fifo_run injective]
    exact (used e).1
  · change Function.update s.nodes node _ = Function.update p.nodes node _
    rw [represents.inputs ready, represents.nodes]
    rfl
  · funext e
    change s.consumed e ++ _ = p.consumed e ++ _
    rw [represents.inputs ready, represents.consumed]
  · funext e
    change s.produced e ++ _ = p.produced e ++ _
    rw [represents.blocks ready, represents.produced]

/-- The scheduler tries the nodes as the network tries its processes. -/
theorem scheduler_matches (injective : Function.Injective store) (noLoop : g.NoLoop)
    (fits : classes.Fits lengths) :
    (AsyncState.scheduler store lengths classes s).Matches
      ((classes.processNet lengths).machine p) (AsyncState.Represents store lengths) := by
  intro s p node represents
  have answer : s.prepareForRunning store lengths classes node ↔
      (classes.processNet lengths).Ready p node := represents.ready_iff fits
  simp only [AsyncState.scheduler, ProcessNet.machine]
  by_cases ready : (classes.processNet lengths).Ready p node
  · right
    refine ⟨_, _, if_pos (answer.mpr ready), if_pos ready, ?_⟩
    exact represents.run injective noLoop ready
  · left
    exact ⟨if_neg (mt answer.mp ready), if_neg ready⟩

/-- The queues which are represented before any execution: the delays. -/
def initialProcesses (store : Fin g.nbEdges → S) (memory : S → Memory β)
    (nodes : Fin g.nbNodes → σ) : ProcessState (Fin g.nbNodes) (Fin g.nbEdges) σ β where
  nodes := nodes
  queues e := (memory (store e)).load 0 (g.edge e).delay
  consumed _ := []
  produced _ := []

omit [DecidableEq S] in
theorem represents_init (within : ∀ e, ((g.edge e).delay : ℤ) ≤ lengths e)
    (memory : S → Memory β) (nodes : Fin g.nbNodes → σ) :
    (AsyncState.init memory nodes).Represents store lengths
      (initialProcesses store memory nodes) := by
  refine ⟨fun e => ⟨le_rfl, ?_, within e⟩, fun e => ?_, rfl, rfl, rfl⟩
  · exact Int.natCast_nonneg (g.edge e).delay
  · have number : ((g.edge e).delay - 0 : ℤ).toNat = (g.edge e).delay := by omega
    simp only [SyncFIFO.contents, SyncFIFO.nbSamplesInFIFO, AsyncState.fifo, AsyncState.init,
      initialProcesses, number]

end Represents

/-! ### The order of the nodes -/

/-- Two runs agree as far as the nodes have been executed. -/
structure AsyncState.Agree (t u : AsyncState g S β σ) (executed executed' : List (Fin g.nbNodes)) :
    Prop where
  /-- What a node knows, has read and has written only depends on its number of executions. -/
  node : ∀ node, executed.count node = executed'.count node →
    t.nodes node = u.nodes node ∧
      (∀ e, (g.edge e).dstOwner = node → t.consumed e = u.consumed e) ∧
      ∀ e, (g.edge e).srcOwner = node → t.produced e = u.produced e
  /-- The samples which go through a FIFO are the same. -/
  consumed : ∀ e, t.consumed e <+: u.consumed e ∨ u.consumed e <+: t.consumed e
  produced : ∀ e, t.produced e <+: u.produced e ∨ u.produced e <+: t.produced e

section Order

variable [DecidableEq S] {store : Fin g.nbEdges → S} {lengths : Fin g.nbEdges → ℤ}
  {classes : NodeClasses g β σ}

/-- The executions which are not skipped are a run of the processes. -/
theorem scheduler_run (noLoop : g.NoLoop) (injective : Function.Injective store)
    (fits : classes.Fits lengths) (within : ∀ e, ((g.edge e).delay : ℤ) ≤ lengths e)
    (memory : S → Memory β) (nodes : Fin g.nbNodes → σ) (attempts : List (Fin g.nbNodes)) :
    let start := AsyncState.init memory nodes
    let machine := AsyncState.scheduler store lengths classes start
    ∃ p, (machine.attempts start attempts).Represents store lengths p ∧
      ((classes.processNet lengths).machine (initialProcesses store memory nodes)).run
        (initialProcesses store memory nodes) (machine.performed start attempts) = some p := by
  intro start machine
  have isMatch := scheduler_matches (s := start) (p := initialProcesses store memory nodes)
    injective noLoop fits
  rcases isMatch.attempts (represents_init within memory nodes) attempts with ⟨same, related⟩
  refine ⟨_, related, ?_⟩
  change ((classes.processNet lengths).machine _).run _
    ((AsyncState.scheduler store lengths classes start).performed start attempts) = _
  rw [same]
  exact Machine.run_performed _ attempts

/-- Asynchronous determinacy.  Whatever the orders in which the nodes are tried, a node which is
executed as often has the same state and has read and written the same samples; the samples which
go through a FIFO are the same, as far as both runs have come. -/
theorem scheduler_determinate (noLoop : g.NoLoop) (injective : Function.Injective store)
    (fits : classes.Fits lengths) (within : ∀ e, ((g.edge e).delay : ℤ) ≤ lengths e)
    (memory : S → Memory β) (nodes : Fin g.nbNodes → σ) (first second : List (Fin g.nbNodes)) :
    let start := AsyncState.init memory nodes
    let machine := AsyncState.scheduler store lengths classes start
    (machine.attempts start first).Agree (machine.attempts start second)
      (machine.performed start first) (machine.performed start second) := by
  intro start machine
  rcases scheduler_run noLoop injective fits within memory nodes first with ⟨p, related, run⟩
  rcases scheduler_run noLoop injective fits within memory nodes second with
    ⟨p', related', run'⟩
  refine ⟨fun node count => ?_, fun e => ?_, fun e => ?_⟩
  · rw [related.nodes, related'.nodes, related.consumed, related'.consumed, related.produced,
      related'.produced]
    exact ProcessNet.same_of_count_eq run run' count
  · rw [related.consumed, related'.consumed]
    exact (ProcessNet.comparable_of_run run run' e).1
  · rw [related.produced, related'.produced]
    exact (ProcessNet.comparable_of_run run run' e).2

/-- Nodes which count their executions and add the samples that they read.  They read some samples
from each input, and write one sample to each output. -/
def addingClasses (g : Graph) (size : ℕ) : NodeClasses g ℕ (ℕ × ℕ) where
  inputSize _ _ _ := size
  outputSize _ _ _ := 1
  run _ state inputs :=
    ((state.1 + 1, state.2 + ∑ e, (inputs e).sum), fun _ => [state.1 + state.2])
  length_run _ _ _ _ := rfl

theorem addingClasses_fits (g : Graph) {size : ℕ} (small : size < 100) {lengths : Fin g.nbEdges → ℤ}
    (short : ∀ e, lengths e < 100) : (addingClasses g size).Fits lengths := by
  intro node state e
  have length := short e
  simp only [addingClasses]
  omega

/-- The source and the sink before any execution, each sample of the delay being three. -/
def delayedStart : AsyncState delayedSourceSink (Fin delayedSourceSink.nbEdges) ℕ (ℕ × ℕ) :=
  .init (fun _ _ => 3) fun _ => (0, 0)

/-- Their scheduler, for a sink which reads some samples from a FIFO of seven samples. -/
def delayedScheduler (size : ℕ) :
    Machine (AsyncState delayedSourceSink (Fin delayedSourceSink.nbEdges) ℕ (ℕ × ℕ))
      (Fin delayedSourceSink.nbNodes) :=
  AsyncState.scheduler id (fun _ => 7) (addingClasses delayedSourceSink size) delayedStart

/-- Orders in which they are tried. -/
def sourceFirst : List (Fin delayedSourceSink.nbNodes) :=
  [⟨0, Nat.zero_lt_two⟩, ⟨1, Nat.one_lt_two⟩, ⟨0, Nat.zero_lt_two⟩, ⟨0, Nat.zero_lt_two⟩]

def sinkFirst : List (Fin delayedSourceSink.nbNodes) := [⟨1, Nat.one_lt_two⟩, ⟨0, Nat.zero_lt_two⟩]

theorem delayedSourceSink_within :
    ∀ e, ((delayedSourceSink.edge e).delay : ℤ) ≤ 7 := by decide

theorem delayedScheduler_agree :
    ((delayedScheduler 2).attempts delayedStart sourceFirst).Agree
      ((delayedScheduler 2).attempts delayedStart sinkFirst)
      ((delayedScheduler 2).performed delayedStart sourceFirst)
      ((delayedScheduler 2).performed delayedStart sinkFirst) :=
  scheduler_determinate (sourceSink_noLoop _ _ _) Function.injective_id
    (addingClasses_fits _ (by norm_num) fun _ => by norm_num) delayedSourceSink_within _ _ _ _

/-- Every node would be skipped. -/
def AsyncState.Blocked (store : Fin g.nbEdges → S) (lengths : Fin g.nbEdges → ℤ)
    (classes : NodeClasses g β σ) (s : AsyncState g S β σ) : Prop :=
  ∀ node, ¬s.prepareForRunning store lengths classes node

/-- What two runs have in common when the second one is blocked too. -/
structure AsyncState.SameEnd (store : Fin g.nbEdges → S) (t u : AsyncState g S β σ)
    (executed executed' : List (Fin g.nbNodes)) : Prop where
  perm : executed.Perm executed'
  nodes : t.nodes = u.nodes
  contents : ∀ e, (t.fifo store e).contents = (u.fifo store e).contents
  consumed : t.consumed = u.consumed
  produced : t.produced = u.produced

omit [DecidableEq S] in
theorem AsyncState.Represents.stuck {s : AsyncState g S β σ}
    {p start : ProcessState (Fin g.nbNodes) (Fin g.nbEdges) σ β}
    (represents : s.Represents store lengths p) (fits : classes.Fits lengths)
    (blocked : s.Blocked store lengths classes) :
    ((classes.processNet lengths).machine start).Stuck p := by
  intro node
  exact if_neg (mt (represents.ready_iff fits).mpr (blocked node))

/-- Blocked runs.  When a run is blocked, no order of the nodes executes one of them more often;
and all the runs which are blocked have executed the same nodes and end with the same samples. -/
theorem scheduler_blocked (noLoop : g.NoLoop) (injective : Function.Injective store)
    (fits : classes.Fits lengths) (within : ∀ e, ((g.edge e).delay : ℤ) ≤ lengths e)
    (memory : S → Memory β) (nodes : Fin g.nbNodes → σ) (first second : List (Fin g.nbNodes)) :
    let start := AsyncState.init memory nodes
    let machine := AsyncState.scheduler store lengths classes start
    (machine.attempts start first).Blocked store lengths classes →
      (∀ node, (machine.performed start second).count node ≤
        (machine.performed start first).count node) ∧
      ((machine.attempts start second).Blocked store lengths classes →
        (machine.attempts start first).SameEnd store (machine.attempts start second)
          (machine.performed start first) (machine.performed start second)) := by
  intro start machine blocked
  rcases scheduler_run noLoop injective fits within memory nodes first with ⟨p, related, run⟩
  rcases scheduler_run noLoop injective fits within memory nodes second with
    ⟨p', related', run'⟩
  refine ⟨fun node => ?_, fun blocked' => ?_⟩
  · exact (ProcessNet.machine_commutes.subperm_of_stuck run run'
      (related.stuck fits blocked)).count_le node
  · rcases ProcessNet.machine_commutes.unique_stuck run run' (related.stuck fits blocked)
      (related'.stuck fits blocked') with ⟨perm, rfl⟩
    exact ⟨perm, related.nodes.trans related'.nodes.symm,
      fun e => (related.contents e).trans (related'.contents e).symm,
      related.consumed.trans related'.consumed.symm,
      related.produced.trans related'.produced.symm⟩

/-- A sink which needs eight samples is skipped, and the source fills the FIFO in both orders. -/
theorem delayedScheduler_sameEnd :
    let sinkBetween := sinkFirst ++ sinkFirst ++ sinkFirst
    (∀ node, ((delayedScheduler 8).performed delayedStart sinkBetween).count node ≤
      ((delayedScheduler 8).performed delayedStart sourceFirst).count node) ∧
    ((delayedScheduler 8).attempts delayedStart sourceFirst).SameEnd id
      ((delayedScheduler 8).attempts delayedStart sinkBetween)
      ((delayedScheduler 8).performed delayedStart sourceFirst)
      ((delayedScheduler 8).performed delayedStart sinkBetween) := by
  intro sinkBetween
  have blocked : ((delayedScheduler 8).attempts delayedStart sourceFirst).Blocked id (fun _ => 7)
      (addingClasses delayedSourceSink 8) := by
    unfold AsyncState.Blocked
    decide +kernel
  have blocked' : ((delayedScheduler 8).attempts delayedStart sinkBetween).Blocked id (fun _ => 7)
      (addingClasses delayedSourceSink 8) := by
    unfold AsyncState.Blocked
    decide +kernel
  rcases scheduler_blocked (sourceSink_noLoop _ _ _) Function.injective_id
    (addingClasses_fits _ (by norm_num) fun _ => by norm_num) delayedSourceSink_within _ _ _
    sinkBetween blocked with ⟨less, same⟩
  exact ⟨less, same blocked'⟩

end Order

end CmsisStream.Scheduler
