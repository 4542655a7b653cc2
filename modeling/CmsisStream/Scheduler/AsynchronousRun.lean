import CmsisStream.Platform.FifoPositions
import CmsisStream.Scheduler.AsynchronousFifos
import CmsisStream.Scheduler.QueueRun

/-!
# Running an asynchronous graph

The nodes of an asynchronous graph look at the number of samples in their FIFOs,
and they take and add as many samples as they want, or none when they are
skipped.  Every FIFO has a storage of its own, so a run is a run of queues in
which each firing is an execution of a node.
-/

namespace CmsisStream.Scheduler

open Dataflow Platform

universe u v

variable {g : Graph} {S : Type u} {β : Type v}

/-- What the nodes do, given the number of bytes in each FIFO: how many bytes they take, and
which bytes they add then.  Underflows have been tested, so no more is taken than there is. -/
structure AsyncBehaviour (g : Graph) (β : Type v) where
  taken : Fin g.nbNodes → (Fin g.nbEdges → ℕ) → Fin g.nbEdges → ℕ
  added : Fin g.nbNodes → (Fin g.nbEdges → ℕ) → (Fin g.nbEdges → List β) →
    Fin g.nbEdges → List β
  taken_le : ∀ node lengths e, taken node lengths e ≤ lengths e

/-- A node takes from its inputs and adds to its outputs. -/
def AsyncBehaviour.queueNet (behaviour : AsyncBehaviour g β) :
    QueueNet (Fin g.nbNodes) (Fin g.nbEdges) β where
  taken node lengths e :=
    if (g.edge e).dstOwner = node then behaviour.taken node lengths e else 0
  added node lengths inputs e :=
    if (g.edge e).srcOwner = node then behaviour.added node lengths inputs e else []

theorem AsyncBehaviour.taken_le_length (behaviour : AsyncBehaviour g β) (node : Fin g.nbNodes)
    (lengths : Fin g.nbEdges → ℕ) (e : Fin g.nbEdges) :
    behaviour.queueNet.taken node lengths e ≤ lengths e := by
  simp only [queueNet]
  split_ifs
  · exact behaviour.taken_le node lengths e
  · exact Nat.zero_le _

/-- A FIFO after its node has read and written; nothing is done for an empty block. -/
def exchange (fifo : AsyncFIFO β) (nb : ℕ) (block : List β) : AsyncFIFO β :=
  if block = [] then (fifo.read nb).2 else (fifo.read nb).2.write block

theorem contents_exchange {fifo : AsyncFIFO β} (ordered : fifo.Ordered) {nb : ℕ}
    (enough : nb ≤ fifo.contents.length) (block : List β) :
    (exchange fifo nb block).contents = fifo.contents.drop nb ++ block ∧
      (exchange fifo nb block).Ordered := by
  rcases SyncFIFO.contents_read ordered enough with ⟨-, contents, stillOrdered⟩
  unfold exchange
  split_ifs with empty
  · rw [contents, empty, List.append_nil]
    exact ⟨rfl, stillOrdered⟩
  · rw [SyncFIFO.contents_write stillOrdered, contents]
    exact ⟨rfl, stillOrdered.write block⟩

namespace RunState

variable (store : Fin g.nbEdges → S) (behaviour : AsyncBehaviour g β)

/-- A FIFO in its storage. -/
def asyncFIFO (s : RunState g S β Unit) (e : Fin g.nbEdges) : AsyncFIFO β :=
  ⟨s.memory (store e), s.readPos e, s.writePos e⟩

/-- How many bytes are in the FIFOs. -/
def lengths (s : RunState g S β Unit) (e : Fin g.nbEdges) : ℕ :=
  (s.asyncFIFO store e).nbSamplesInFIFO.toNat

/-- How many bytes an execution of a node takes. -/
def asyncTaken (node : Fin g.nbNodes) (s : RunState g S β Unit) (e : Fin g.nbEdges) : ℕ :=
  behaviour.queueNet.taken node (s.lengths store) e

/-- The bytes that an execution of a node takes. -/
def asyncInputs (node : Fin g.nbNodes) (s : RunState g S β Unit) (e : Fin g.nbEdges) : List β :=
  ((s.asyncFIFO store e).read (s.asyncTaken store behaviour node e)).1

/-- The bytes that an execution of a node adds. -/
def asyncBlocks (node : Fin g.nbNodes) (s : RunState g S β Unit) : Fin g.nbEdges → List β :=
  behaviour.queueNet.added node (s.lengths store) (s.asyncInputs store behaviour node)

/-- A FIFO after an execution, when its buffer has the given content before. -/
def exchanged (node : Fin g.nbNodes) (s : RunState g S β Unit) (buffer : Memory β)
    (e : Fin g.nbEdges) : AsyncFIFO β :=
  exchange ⟨buffer, s.readPos e, s.writePos e⟩ (s.asyncTaken store behaviour node e)
    (s.asyncBlocks store behaviour node e)

variable [DecidableEq S]

/-- The state after an execution of a node. -/
def asyncFire (node : Fin g.nbNodes) (s : RunState g S β Unit) : RunState g S β Unit where
  memory := (g.outputs node).foldl (fun memory e => Function.update memory (store e)
    (s.exchanged store behaviour node (memory (store e)) e).mBuffer) s.memory
  readPos e := (s.exchanged store behaviour node (s.memory (store e)) e).readPos
  writePos e := (s.exchanged store behaviour node (s.memory (store e)) e).writePos
  nodes := s.nodes

/-- The bytes taken by each execution of a list of nodes. -/
def asyncTrace : List (Fin g.nbNodes) → RunState g S β Unit → List (Fin g.nbEdges → List β)
  | [], _ => []
  | node :: rest, s =>
      s.asyncInputs store behaviour node :: asyncTrace rest (s.asyncFire store behaviour node)

end RunState

section Run

variable {store : Fin g.nbEdges → S} {behaviour : AsyncBehaviour g β} {node : Fin g.nbNodes}
  {s : RunState g S β Unit} {queues : Fin g.nbEdges → List β}

/-- The samples between the positions of the FIFOs are the queues. -/
structure AsyncRepresents (store : Fin g.nbEdges → S) (s : RunState g S β Unit)
    (queues : Fin g.nbEdges → List β) : Prop where
  ordered : ∀ e, (s.asyncFIFO store e).Ordered
  contents : ∀ e, (s.asyncFIFO store e).contents = queues e

namespace AsyncRepresents

theorem lengths (represents : AsyncRepresents store s queues) :
    s.lengths store = fun e => (queues e).length := by
  funext e
  have length := (represents.ordered e).length_contents
  rw [represents.contents] at length
  rw [RunState.lengths, ← length, Int.toNat_natCast]

theorem taken (represents : AsyncRepresents store s queues) (e : Fin g.nbEdges) :
    s.asyncTaken store behaviour node e =
      behaviour.queueNet.taken node (fun e => (queues e).length) e := by
  rw [RunState.asyncTaken, represents.lengths]

/-- No more is taken than there is. -/
theorem enough (represents : AsyncRepresents store s queues) (behaviour : AsyncBehaviour g β)
    (node : Fin g.nbNodes) (e : Fin g.nbEdges) :
    s.asyncTaken store behaviour node e ≤ (s.asyncFIFO store e).contents.length := by
  rw [represents.taken, represents.contents]
  exact behaviour.taken_le_length node (fun e => (queues e).length) e

/-- An execution takes the front of its queues. -/
theorem inputs (represents : AsyncRepresents store s queues) :
    s.asyncInputs store behaviour node = behaviour.queueNet.inputs node queues := by
  funext e
  have front := (SyncFIFO.contents_read (represents.ordered e)
    (represents.enough behaviour node e)).1
  rw [RunState.asyncInputs, front, represents.contents, represents.taken]
  rfl

/-- An execution adds what is added to its queues. -/
theorem blocks (represents : AsyncRepresents store s queues) :
    s.asyncBlocks store behaviour node =
      behaviour.queueNet.added node (fun e => (queues e).length)
        (behaviour.queueNet.inputs node queues) := by
  rw [RunState.asyncBlocks, represents.lengths, represents.inputs]

end AsyncRepresents

variable [DecidableEq S]

/-- Storages which are written once have what was written to them, and the others are kept. -/
theorem foldl_update_of_injective (injective : Function.Injective store)
    (content : Memory β → Fin g.nbEdges → Memory β) {edges : List (Fin g.nbEdges)}
    (nodup : edges.Nodup) (memory : S → Memory β) (e : Fin g.nbEdges) :
    edges.foldl (fun memory e => Function.update memory (store e) (content (memory (store e)) e))
      memory (store e) =
        if e ∈ edges then content (memory (store e)) e else memory (store e) := by
  induction edges generalizing memory with
  | nil => rfl
  | cons o edges ih =>
      rcases List.nodup_cons.mp nodup with ⟨fresh, nodup⟩
      rw [List.foldl_cons, ih nodup]
      by_cases same : e = o
      · subst same
        simp [fresh]
      · have apart : store e ≠ store o := fun eq => same (injective eq)
        simp [same, apart]

/-- A FIFO after an execution. -/
theorem asyncFIFO_fire (injective : Function.Injective store) (e : Fin g.nbEdges) :
    (s.asyncFire store behaviour node).asyncFIFO store e =
      s.exchanged store behaviour node (s.memory (store e)) e := by
  have written := foldl_update_of_injective injective
    (fun buffer e => (s.exchanged store behaviour node buffer e).mBuffer)
    ((List.nodup_finRange g.nbEdges).filter _ : (g.outputs node).Nodup) s.memory e
  have memory : (s.asyncFire store behaviour node).memory (store e) =
      (s.exchanged store behaviour node (s.memory (store e)) e).mBuffer := by
    refine written.trans ?_
    split_ifs with isOutput
    · rfl
    · -- nothing is added, and the buffer is not touched
      have notOutput : (g.edge e).srcOwner ≠ node := fun eq => isOutput (mem_outputs.mpr eq)
      have nothing : s.asyncBlocks store behaviour node e = [] := by
        simp [RunState.asyncBlocks, AsyncBehaviour.queueNet, notOutput]
      simp only [RunState.exchanged, exchange, nothing, if_true]
      rfl
  rw [RunState.asyncFIFO, memory]
  rfl

/-- One execution fires the net of queues. -/
theorem AsyncRepresents.fire (injective : Function.Injective store)
    (represents : AsyncRepresents store s queues) :
    AsyncRepresents store (s.asyncFire store behaviour node)
      (behaviour.queueNet.fire node queues) := by
  have each : ∀ e, (s.exchanged store behaviour node (s.memory (store e)) e).contents =
      behaviour.queueNet.fire node queues e ∧
        (s.exchanged store behaviour node (s.memory (store e)) e).Ordered := by
    intro e
    rcases contents_exchange (represents.ordered e) (represents.enough behaviour node e)
      (s.asyncBlocks store behaviour node e) with ⟨contents, ordered⟩
    refine ⟨?_, ordered⟩
    rw [QueueNet.fire, ← represents.blocks, ← represents.taken, ← represents.contents e]
    exact contents
  refine ⟨fun e => ?_, fun e => ?_⟩
  · rw [asyncFIFO_fire injective]
    exact (each e).2
  · rw [asyncFIFO_fire injective]
    exact (each e).1

/-- A run is a run of the queues. -/
theorem AsyncRepresents.trace (injective : Function.Injective store)
    (represents : AsyncRepresents store s queues) (executions : List (Fin g.nbNodes)) :
    s.asyncTrace store behaviour executions = behaviour.queueNet.trace executions queues := by
  induction executions generalizing s queues with
  | nil => rfl
  | cons node rest ih =>
      rw [RunState.asyncTrace, QueueNet.trace, represents.inputs,
        ih (represents.fire injective)]

end Run

end CmsisStream.Scheduler
