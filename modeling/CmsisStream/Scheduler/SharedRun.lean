import CmsisStream.Scheduler.ArrayFifo

/-!
# Running a schedule with shared buffers

The nodes exchange bytes through the storages of the FIFOs.  A FIFO working as
an array uses the start of its storage, and the others keep positions in it.  A
node may already have written anything to its output arrays when it reads its
inputs; in the end it has written its whole output blocks.  A `Duplicate` copies
its input block to each of its outputs.

The run is given by an assignment of storages to the FIFOs, so that the run with
private buffers is the one where each FIFO is its own storage.  Both runs read
the same bytes when no execution overwrites a block which is still to be read.
-/

namespace CmsisStream.Scheduler

open Dataflow Platform

universe u v w

variable {g : Graph} {S : Type u} {β : Type v} {σ : Type w}

/-- What the nodes compute: from their state and the blocks read, their new state and the
bytes of each output. -/
abbrev NodeBehaviour (g : Graph) (β : Type v) (σ : Type w) :=
  Fin g.nbNodes → σ → (Fin g.nbEdges → List β) → σ × (Fin g.nbEdges → ℕ → β)

/-- How the FIFOs are implemented, and what the nodes do. -/
structure RunConfig (g : Graph) (S : Type u) (β : Type v) (σ : Type w) where
  store : Fin g.nbEdges → S
  array : Fin g.nbEdges → Bool
  behaviour : NodeBehaviour g β σ
  /-- What a node writes to an output before it reads, after the given executions. -/
  scratch : List (Fin g.nbNodes) → Fin g.nbEdges → ℕ → β

/-- The bytes in memory, the positions of the FIFOs, and the state of the nodes. -/
structure RunState (g : Graph) (S : Type u) (β : Type v) (σ : Type w) where
  memory : S → Memory β
  readPos : Fin g.nbEdges → ℤ
  writePos : Fin g.nbEdges → ℤ
  nodes : Fin g.nbNodes → σ

/-- The bytes written to a FIFO by the next execution of its source. -/
def Graph.bytesWritten (g : Graph) (before : List (Fin g.nbNodes)) (e : Fin g.nbEdges) : ℕ :=
  (g.edge e).bytes * (g.edge e).src.nbSamples.cycleValue
    (counts before (g.edge e).srcOwner % (g.edge e).src.nbSamples.cyclePeriod)

/-- The bytes read from a FIFO by the next execution of its destination. -/
def Graph.bytesRead (g : Graph) (before : List (Fin g.nbNodes)) (e : Fin g.nbEdges) : ℕ :=
  (g.edge e).bytes * (g.edge e).dst.nbSamples.cycleValue
    (counts before (g.edge e).dstOwner % (g.edge e).dst.nbSamples.cyclePeriod)

/-- The FIFOs written by a node. -/
def Graph.outputs (g : Graph) (node : Fin g.nbNodes) : List (Fin g.nbEdges) :=
  (List.finRange g.nbEdges).filter fun e => (g.edge e).srcOwner = node

namespace RunState

variable [DecidableEq S] (config : RunConfig g S β σ)

/-- A FIFO with positions, in its storage. -/
def fifo (s : RunState g S β σ) (e : Fin g.nbEdges) : SyncFIFO β :=
  ⟨s.memory (config.store e), s.readPos e, s.writePos e⟩

/-- One block written to the memory, for the positions of the given state. -/
def writeBlock (s : RunState g S β σ) (block : Fin g.nbEdges → List β) (memory : S → Memory β)
    (e : Fin g.nbEdges) : S → Memory β :=
  Function.update memory (config.store e)
    (if config.array e then ((ArrayFIFO.mk (memory (config.store e))).write (block e)).mBuffer
    else ((SyncFIFO.mk (memory (config.store e)) (s.readPos e) (s.writePos e)).write
      (block e)).mBuffer)

/-- The memory after a node has written to its output arrays, before it reads. -/
def scratched (before : List (Fin g.nbNodes)) (node : Fin g.nbNodes) (s : RunState g S β σ) :
    S → Memory β :=
  if (g.duplicateInput node).isSome then s.memory
  else ((g.outputs node).filter fun e => config.array e).foldl (s.writeBlock config fun e =>
    (List.range (g.bytesWritten before e)).map (config.scratch before e)) s.memory

/-- The block read by a node from a FIFO. -/
def readBlock (before : List (Fin g.nbNodes)) (memory : S → Memory β) (s : RunState g S β σ)
    (e : Fin g.nbEdges) : List β :=
  if config.array e then
    (ArrayFIFO.mk (memory (config.store e))).read (g.bytesRead before e)
  else ((SyncFIFO.mk (memory (config.store e)) (s.readPos e) (s.writePos e)).read
    (g.bytesRead before e)).1

/-- The blocks read by an execution of a node; nothing from the other FIFOs. -/
def inputs (before : List (Fin g.nbNodes)) (node : Fin g.nbNodes) (s : RunState g S β σ)
    (e : Fin g.nbEdges) : List β :=
  if (g.edge e).dstOwner = node then
    s.readBlock config before (s.scratched config before node) e
  else []

/-- The blocks written by an execution of a node. -/
def blocks (before : List (Fin g.nbNodes)) (node : Fin g.nbNodes) (s : RunState g S β σ)
    (e : Fin g.nbEdges) : List β :=
  match g.duplicateInput node with
  | some input => s.inputs config before node input
  | none => (List.range (g.bytesWritten before e)).map
      ((config.behaviour node (s.nodes node) (s.inputs config before node)).2 e)

/-- The positions of a FIFO after an execution. -/
def positions (before : List (Fin g.nbNodes)) (node : Fin g.nbNodes) (s : RunState g S β σ)
    (e : Fin g.nbEdges) : ℤ × ℤ :=
  if config.array e then (s.readPos e, s.writePos e)
  else if (g.edge e).srcOwner = node then
    let written := (s.fifo config e).write (s.blocks config before node e)
    (written.readPos, written.writePos)
  else if (g.edge e).dstOwner = node then
    let read := ((s.fifo config e).read (g.bytesRead before e)).2
    (read.readPos, read.writePos)
  else (s.readPos e, s.writePos e)

/-- The state after an execution of a node. -/
def fire (before : List (Fin g.nbNodes)) (node : Fin g.nbNodes) (s : RunState g S β σ) :
    RunState g S β σ where
  memory := (g.outputs node).foldl (s.writeBlock config (s.blocks config before node))
    (s.scratched config before node)
  readPos e := (s.positions config before node e).1
  writePos e := (s.positions config before node e).2
  nodes := Function.update s.nodes node
    (config.behaviour node (s.nodes node) (s.inputs config before node)).1

/-- The blocks read by each execution of a schedule. -/
def trace : List (Fin g.nbNodes) → List (Fin g.nbNodes) → RunState g S β σ →
    List (Fin g.nbEdges → List β)
  | _, [], _ => []
  | before, node :: rest, s =>
      s.inputs config before node :: trace (before ++ [node]) rest (s.fire config before node)

end RunState

/-! ### Memory after several writes -/

section Writes

variable [DecidableEq S] {config : RunConfig g S β σ} {s : RunState g S β σ}
  {block : Fin g.nbEdges → List β}

/-- A storage which is not written keeps its bytes. -/
theorem foldl_writeBlock_of_ne {target : S} (edges : List (Fin g.nbEdges))
    (apart : ∀ o ∈ edges, config.store o ≠ target) (memory : S → Memory β) :
    edges.foldl (s.writeBlock config block) memory target = memory target := by
  induction edges generalizing memory with
  | nil => rfl
  | cons o edges ih =>
      rw [List.foldl_cons, ih fun k mem => apart k (List.mem_cons_of_mem _ mem)]
      exact Function.update_of_ne (apart o List.mem_cons_self).symm _ _

/-- The block of an array is in its storage when all the arrays using it have this block. -/
theorem foldl_writeBlock_array {e : Fin g.nbEdges} (edges : List (Fin g.nbEdges))
    (same : ∀ o ∈ edges, config.store o = config.store e →
      config.array o = true ∧ block o = block e) {memory : S → Memory β}
    (written : e ∈ edges ∨ (memory (config.store e)).load 0 (block e).length = block e) :
    (edges.foldl (s.writeBlock config block) memory (config.store e)).load 0
      (block e).length = block e := by
  induction edges generalizing memory with
  | nil => simpa using written
  | cons o edges ih =>
      apply ih fun k mem => same k (List.mem_cons_of_mem _ mem)
      by_cases shared : config.store o = config.store e
      · obtain ⟨isArray, sameBlock⟩ := same o List.mem_cons_self shared
        right
        simp only [RunState.writeBlock, shared, Function.update_self, isArray, if_true, sameBlock]
        exact Memory.load_store _ _ _
      · rcases written with mem | already
        · rcases List.mem_cons.mp mem with rfl | rest
          · exact absurd rfl shared
          · exact Or.inl rest
        · right
          rwa [RunState.writeBlock, Function.update_of_ne (Ne.symm shared)]

/-- A FIFO with positions and a storage of its own is written once. -/
theorem foldl_writeBlock_fifo (s : RunState g S β σ) (block : Fin g.nbEdges → List β)
    {e : Fin g.nbEdges} (isFifo : config.array e = false)
    {edges : List (Fin g.nbEdges)} (nodup : edges.Nodup) (mem : e ∈ edges)
    (alone : ∀ o ∈ edges, config.store o = config.store e → o = e) (memory : S → Memory β) :
    edges.foldl (s.writeBlock config block) memory (config.store e) =
      ((SyncFIFO.mk (memory (config.store e)) (s.readPos e) (s.writePos e)).write
        (block e)).mBuffer := by
  obtain ⟨before, after, rfl⟩ := List.append_of_mem mem
  have notBefore : ∀ o ∈ before, config.store o ≠ config.store e := by
    intro o oMem shared
    have same := alone o (List.mem_append_left _ oMem) shared
    exact List.disjoint_of_nodup_append nodup oMem (same ▸ List.mem_cons_self)
  have notAfter : ∀ o ∈ after, config.store o ≠ config.store e := by
    intro o oMem shared
    have same := alone o (List.mem_append_right _ (List.mem_cons_of_mem _ oMem)) shared
    have fresh := (List.nodup_cons.mp (List.nodup_append.mp nodup).2.1).1
    exact fresh (same ▸ oMem)
  rw [List.foldl_append, List.foldl_cons, foldl_writeBlock_of_ne after notAfter]
  simp only [RunState.writeBlock, Function.update_self, isFifo, Bool.false_eq_true, if_false]
  rw [foldl_writeBlock_of_ne before notBefore]

end Writes

/-! ### Safe storages -/

/-- Storages are only shared by arrays, which transfer whole blocks. -/
structure RunConfig.SafeStorage (config : RunConfig g S β σ) : Prop where
  arrays : ∀ e, config.array e = true → ∃ nb, g.BlockRate e nb
  shared : ∀ e o, e ≠ o → config.store e = config.store o →
    config.array e = true ∧ config.array o = true

/-- The next execution of a node reads full blocks, and does not write over a block which is
still to be read.  The exception is a `Duplicate`, which may write over its input and may
write several outputs to the same storage. -/
structure RunConfig.SafeFiring (config : RunConfig g S β σ) (before : List (Fin g.nbNodes))
    (node : Fin g.nbNodes) : Prop where
  full : ∀ e, config.array e = true → (g.edge e).dstOwner = node →
    g.net.level (counts before) e ≠ 0
  drained : ∀ e, config.array e = true → (g.edge e).dstOwner = node →
    g.net.level (counts (before ++ [node])) e = 0
  clobber : ∀ o e, config.array o = true → config.array e = true → (g.edge o).srcOwner = node →
    g.net.level (counts before) e ≠ 0 → o ≠ e → config.store o = config.store e →
    g.duplicateInput node = some e
  siblings : ∀ o e, config.array o = true → config.array e = true → (g.edge o).srcOwner = node →
    (g.edge e).srcOwner = node → o ≠ e → config.store o = config.store e →
    (g.duplicateInput node).isSome

/-- The same nodes with private buffers. -/
def RunConfig.withPrivate (config : RunConfig g S β σ)
    (scratch : List (Fin g.nbNodes) → Fin g.nbEdges → ℕ → β) :
    RunConfig g (Fin g.nbEdges) β σ where
  store := id
  array := config.array
  behaviour := config.behaviour
  scratch := scratch

section Safe

variable {config : RunConfig g S β σ} {before : List (Fin g.nbNodes)} {node : Fin g.nbNodes}

theorem mem_outputs {e : Fin g.nbEdges} : e ∈ g.outputs node ↔ (g.edge e).srcOwner = node := by
  simp [Graph.outputs]

theorem RunConfig.SafeStorage.withPrivate (safe : config.SafeStorage)
    (scratch : List (Fin g.nbNodes) → Fin g.nbEdges → ℕ → β) :
    (config.withPrivate scratch).SafeStorage :=
  ⟨safe.arrays, fun _ _ ne same => absurd same ne⟩

/-- With private buffers nothing is written over. -/
theorem RunConfig.SafeFiring.withPrivate (safe : config.SafeFiring before node)
    (scratch : List (Fin g.nbNodes) → Fin g.nbEdges → ℕ → β) :
    (config.withPrivate scratch).SafeFiring before node :=
  ⟨safe.full, safe.drained, fun _ _ _ _ _ _ ne same => absurd same ne,
    fun _ _ _ _ _ _ ne same => absurd same ne⟩

/-- A FIFO which is not an array has a storage of its own. -/
theorem store_ne_of_fifo (safe : config.SafeStorage) {e o : Fin g.nbEdges}
    (isFifo : config.array e = false) (ne : o ≠ e) : config.store o ≠ config.store e := by
  intro same
  have arrays := safe.shared o e ne same
  simp [isFifo] at arrays

variable [DecidableEq S] {s : RunState g S β σ}

/-- A FIFO which is not an array is not touched before the node reads. -/
theorem scratched_fifo (safe : config.SafeStorage) (before : List (Fin g.nbNodes))
    (node : Fin g.nbNodes) {e : Fin g.nbEdges}
    (isFifo : config.array e = false) :
    s.scratched config before node (config.store e) = s.memory (config.store e) := by
  unfold RunState.scratched
  split_ifs
  · rfl
  · apply foldl_writeBlock_of_ne
    intro o mem
    apply store_ne_of_fifo safe isFifo
    rintro rfl
    simp [isFifo] at mem

/-- A full array is not touched before the node reads. -/
theorem scratched_array (safe : config.SafeFiring before node) {e : Fin g.nbEdges}
    (isArray : config.array e = true) (full : g.net.level (counts before) e ≠ 0)
    (notOutput : (g.edge e).srcOwner ≠ node) :
    s.scratched config before node (config.store e) = s.memory (config.store e) := by
  unfold RunState.scratched
  split_ifs with duplicate
  · rfl
  · apply foldl_writeBlock_of_ne
    intro o mem same
    obtain ⟨isOutput, oArray⟩ := List.mem_filter.mp mem
    rw [mem_outputs] at isOutput
    have different : o ≠ e := fun eq => notOutput (eq ▸ isOutput)
    rw [safe.clobber o e oArray isArray isOutput full different same] at duplicate
    exact duplicate rfl

/-- A full array which the node does not read keeps its block. -/
theorem fire_memory_kept (safeStorage : config.SafeStorage) (safe : config.SafeFiring before node)
    {e : Fin g.nbEdges} (isArray : config.array e = true)
    (full : g.net.level (counts before) e ≠ 0) (notOutput : (g.edge e).srcOwner ≠ node)
    (notInput : (g.edge e).dstOwner ≠ node) :
    (s.fire config before node).memory (config.store e) = s.memory (config.store e) := by
  rw [← scratched_array (s := s) safe isArray full notOutput]
  apply foldl_writeBlock_of_ne
  intro o mem same
  rw [mem_outputs] at mem
  have different : o ≠ e := fun eq => notOutput (eq ▸ mem)
  have oArray := (safeStorage.shared o e different same).1
  have duplicate := safe.clobber o e oArray isArray mem full different same
  exact notInput ((g.duplicateInput_iff node e duplicate e).mpr rfl)

/-- A FIFO which is not an array only changes when its source is executed. -/
theorem fire_memory_fifo (safe : config.SafeStorage) (before : List (Fin g.nbNodes))
    (node : Fin g.nbNodes) {e : Fin g.nbEdges}
    (isFifo : config.array e = false) :
    (s.fire config before node).memory (config.store e) =
      if (g.edge e).srcOwner = node then
        ((s.fifo config e).write (s.blocks config before node e)).mBuffer
      else s.memory (config.store e) := by
  have kept := scratched_fifo (s := s) safe before node isFifo
  split_ifs with isOutput
  · have written := foldl_writeBlock_fifo s (s.blocks config before node) isFifo
      ((List.nodup_finRange _).filter _) (mem_outputs.mpr isOutput)
      (fun o _ same => by_contra fun ne => store_ne_of_fifo safe isFifo ne same)
      (s.scratched config before node)
    rw [kept] at written
    exact written
  · rw [← kept]
    apply foldl_writeBlock_of_ne
    intro o mem
    apply store_ne_of_fifo safe isFifo
    rintro rfl
    exact isOutput (mem_outputs.mp mem)

omit [DecidableEq S] in
theorem length_readBlock (before : List (Fin g.nbNodes)) (memory : S → Memory β)
    (e : Fin g.nbEdges) :
    (s.readBlock config before memory e).length = g.bytesRead before e := by
  unfold RunState.readBlock
  split_ifs <;> simp [ArrayFIFO.read, SyncFIFO.read, Memory.load]

theorem bytesWritten_of_blockRate {e : Fin g.nbEdges} {nb : ℕ} (rate : g.BlockRate e nb) :
    g.bytesWritten before e = (g.edge e).bytes * nb := by
  rw [Graph.bytesWritten, rate.period.1, Nat.mod_one, rate.value.1]

theorem bytesRead_of_blockRate {e : Fin g.nbEdges} {nb : ℕ} (rate : g.BlockRate e nb) :
    g.bytesRead before e = (g.edge e).bytes * nb := by
  rw [Graph.bytesRead, rate.period.2, Nat.mod_one, rate.value.2]

/-- The blocks written to an array have its length. -/
theorem length_blocks {e : Fin g.nbEdges} {nb : ℕ} (rate : g.BlockRate e nb)
    (isOutput : (g.edge e).srcOwner = node) :
    (s.blocks config before node e).length = (g.edge e).bytes * nb := by
  unfold RunState.blocks
  split
  · rename_i input duplicate
    have isInput := (g.duplicateInput_iff node input duplicate input).mpr rfl
    obtain ⟨sameRate, sameBytes⟩ := g.duplicateOutput node input duplicate e isOutput
    rw [RunState.inputs, if_pos isInput, length_readBlock, Graph.bytesRead, ← sameRate,
      rate.period.1, Nat.mod_one, rate.value.1, sameBytes]
  · rw [List.length_map, List.length_range, bytesWritten_of_blockRate rate]

/-- An array which was just written contains the block of its source. -/
theorem fire_memory_written (safeStorage : config.SafeStorage)
    (safe : config.SafeFiring before node) {e : Fin g.nbEdges} (isArray : config.array e = true)
    (isOutput : (g.edge e).srcOwner = node) :
    ((s.fire config before node).memory (config.store e)).load 0
      (s.blocks config before node e).length = s.blocks config before node e := by
  apply foldl_writeBlock_array
  · intro o mem same
    rw [mem_outputs] at mem
    by_cases isSame : o = e
    · exact ⟨isSame ▸ isArray, by rw [isSame]⟩
    · have oArray := (safeStorage.shared o e isSame same).1
      obtain ⟨input, duplicate⟩ := Option.isSome_iff_exists.mp
        (safe.siblings o e oArray isArray mem isOutput isSame same)
      refine ⟨oArray, ?_⟩
      simp only [RunState.blocks, duplicate]
  · exact Or.inl (mem_outputs.mpr isOutput)

end Safe

/-! ### Simulation -/

section Simulation

variable [DecidableEq S] {config : RunConfig g S β σ}
  (scratch : List (Fin g.nbNodes) → Fin g.nbEdges → ℕ → β)

/-- The run with shared buffers and the run with private buffers have the same nodes and
FIFOs, and the same block in each array which is full. -/
structure Simulates (config : RunConfig g S β σ) (before : List (Fin g.nbNodes))
    (shared : RunState g S β σ) (own : RunState g (Fin g.nbEdges) β σ) : Prop where
  nodes : shared.nodes = own.nodes
  readPos : shared.readPos = own.readPos
  writePos : shared.writePos = own.writePos
  fifo : ∀ e, config.array e = false → shared.memory (config.store e) = own.memory e
  block : ∀ e nb, config.array e = true → g.BlockRate e nb → g.net.level (counts before) e ≠ 0 →
    (shared.memory (config.store e)).load 0 ((g.edge e).bytes * nb) =
      (own.memory e).load 0 ((g.edge e).bytes * nb)

variable {before : List (Fin g.nbNodes)} {node : Fin g.nbNodes} {shared : RunState g S β σ}
  {own : RunState g (Fin g.nbEdges) β σ}

/-- Both runs read the same blocks. -/
theorem Simulates.inputs (simulates : Simulates config before shared own) (noLoop : g.NoLoop)
    (safeStorage : config.SafeStorage) (safe : config.SafeFiring before node) :
    shared.inputs config before node = own.inputs (config.withPrivate scratch) before node := by
  funext e
  unfold RunState.inputs
  split_ifs with isInput
  · have notOutput : (g.edge e).srcOwner ≠ node := fun isOutput =>
      noLoop e (isOutput.trans isInput.symm)
    unfold RunState.readBlock
    cases isArray : config.array e with
    | true =>
        obtain ⟨nb, rate⟩ := safeStorage.arrays e isArray
        have full := safe.full e isArray isInput
        have kept := scratched_array (s := shared) safe isArray full notOutput
        have kept' := scratched_array (s := own) (safe.withPrivate scratch) isArray
          full notOutput
        have isArray' : (config.withPrivate scratch).array e = true := isArray
        simp only [isArray', if_true, ArrayFIFO.read, ArrayFIFO.getReadBuffer, kept, kept',
          bytesRead_of_blockRate rate]
        exact simulates.block e nb isArray rate full
    | false =>
        have kept := scratched_fifo (s := shared) safeStorage before node isArray
        have kept' := scratched_fifo (s := own) (safeStorage.withPrivate scratch) before node
          isArray
        have isArray' : (config.withPrivate scratch).array e = false := isArray
        simp only [isArray', Bool.false_eq_true, if_false, kept, kept', simulates.readPos,
          simulates.writePos, simulates.fifo e isArray]
        rfl
  · rfl

/-- Both runs write the same blocks. -/
theorem Simulates.blocks (simulates : Simulates config before shared own) (noLoop : g.NoLoop)
    (safeStorage : config.SafeStorage) (safe : config.SafeFiring before node) :
    shared.blocks config before node = own.blocks (config.withPrivate scratch) before node := by
  funext e
  unfold RunState.blocks
  rw [simulates.inputs scratch noLoop safeStorage safe, simulates.nodes]
  rfl

omit [DecidableEq S] in
theorem Simulates.fifo_eq (simulates : Simulates config before shared own) {e : Fin g.nbEdges}
    (isFifo : config.array e = false) :
    shared.fifo config e = own.fifo (config.withPrivate scratch) e := by
  simp only [RunState.fifo, simulates.fifo e isFifo, simulates.readPos, simulates.writePos]
  rfl

theorem Simulates.positions (simulates : Simulates config before shared own) (noLoop : g.NoLoop)
    (safeStorage : config.SafeStorage) (safe : config.SafeFiring before node) :
    shared.positions config before node =
      own.positions (config.withPrivate scratch) before node := by
  funext e
  unfold RunState.positions
  rw [simulates.blocks scratch noLoop safeStorage safe, simulates.readPos,
    simulates.writePos]
  cases isArray : config.array e with
  | true =>
      have isArray' : (config.withPrivate scratch).array e = true := isArray
      simp only [isArray', if_true]
  | false =>
      have isArray' : (config.withPrivate scratch).array e = false := isArray
      simp only [isArray', Bool.false_eq_true, if_false,
        simulates.fifo_eq scratch isArray]

/-- One execution keeps the simulation. -/
theorem Simulates.fire (simulates : Simulates config before shared own) (noLoop : g.NoLoop)
    (safeStorage : config.SafeStorage) (safe : config.SafeFiring before node) :
    Simulates config (before ++ [node]) (shared.fire config before node)
      (own.fire (config.withPrivate scratch) before node) := by
  have sameInputs := simulates.inputs scratch noLoop safeStorage safe
  have sameBlocks := simulates.blocks scratch noLoop safeStorage safe
  have samePositions := simulates.positions scratch noLoop safeStorage safe
  refine ⟨?_, ?_, ?_, ?_, ?_⟩
  · simp only [RunState.fire, sameInputs, simulates.nodes]
    rfl
  · simp only [RunState.fire, samePositions]
  · simp only [RunState.fire, samePositions]
  · intro e isFifo
    have after := fire_memory_fifo (s := own) (safeStorage.withPrivate scratch) before node isFifo
    rw [fire_memory_fifo safeStorage before node isFifo]
    refine Eq.trans ?_ after.symm
    rw [sameBlocks, simulates.fifo_eq scratch isFifo, simulates.fifo e isFifo]
    rfl
  · intro e nb isArray rate full
    by_cases isOutput : (g.edge e).srcOwner = node
    · have written := fire_memory_written (s := shared) safeStorage safe isArray isOutput
      have written' := fire_memory_written (s := own)
        (safeStorage.withPrivate scratch) (safe.withPrivate scratch)
        isArray isOutput
      rw [length_blocks rate isOutput] at written written'
      rw [written, sameBlocks]
      exact written'.symm
    · have notInput : (g.edge e).dstOwner ≠ node := fun isInput =>
        full (safe.drained e isArray isInput)
      rw [counts_concat, Net.level_bump_of_ne isOutput notInput] at full
      have kept := fire_memory_kept (s := shared) safeStorage safe isArray full isOutput notInput
      have kept' := fire_memory_kept (s := own) (safeStorage.withPrivate scratch)
        (safe.withPrivate scratch) isArray full isOutput notInput
      rw [kept]
      exact (simulates.block e nb isArray rate full).trans
        (congrArg (Memory.load · 0 ((g.edge e).bytes * nb)) kept'.symm)

/-- Both runs read the same blocks in all the executions of a schedule. -/
theorem Simulates.trace (noLoop : g.NoLoop) (safeStorage : config.SafeStorage)
    (rest : List (Fin g.nbNodes)) (simulates : Simulates config before shared own)
    (safe : ∀ early node, early ++ [node] <+: rest → config.SafeFiring (before ++ early) node) :
    shared.trace config before rest = own.trace (config.withPrivate scratch) before rest := by
  induction rest generalizing before shared own with
  | nil => rfl
  | cons node rest ih =>
      have first : config.SafeFiring before node := by
        simpa using safe [] node (by simp)
      rw [RunState.trace, RunState.trace,
        simulates.inputs scratch noLoop safeStorage first]
      congr 1
      apply ih (simulates.fire scratch noLoop safeStorage first)
      intro early other isPrefix
      have later := safe (node :: early) other (by simpa using isPrefix)
      simpa using later

end Simulation

end CmsisStream.Scheduler
