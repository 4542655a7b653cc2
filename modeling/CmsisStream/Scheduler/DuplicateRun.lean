import CmsisStream.Scheduler.DuplicateSkip

/-!
# Runs with skipped copies

In the generated code a `Duplicate` is only given the outputs which are not
skipped.  When the storage of a skipped output is that of the input, or that of an
output which is copied, the memory is the same as after a copy to each output.
The runs of the generated code are then the runs in which everything is copied.
-/

namespace CmsisStream.Scheduler

open Platform

universe u v

variable {g : Graph} {S : Type u} {β : Type v}

namespace RunState

variable [DecidableEq S] (config : RunConfig g S β Unit)
  (copied : Fin g.nbNodes → Fin g.nbEdges → List (Fin g.nbEdges))

/-- The state after an execution of a node in the generated code, given the outputs which each
`Duplicate` copies. -/
def fireCopied (before : List (Fin g.nbNodes)) (node : Fin g.nbNodes) (s : RunState g S β Unit) :
    RunState g S β Unit :=
  match g.duplicateInput node with
  | some input => s.runDuplicate config before input (copied node input)
  | none => s.fire config before node

/-- The blocks read by each execution of a schedule in the generated code. -/
def traceCopied : List (Fin g.nbNodes) → List (Fin g.nbNodes) → RunState g S β Unit →
    List (Fin g.nbEdges → List β)
  | _, [], _ => []
  | before, node :: rest, s =>
      s.inputs config before node ::
        traceCopied (before ++ [node]) rest (s.fireCopied config copied before node)

end RunState

/-- What a `Duplicate` copies is enough: an output which is not copied works as an array, in the
storage of the input or of an output which is copied. -/
structure RunConfig.CopiesAll (config : RunConfig g S β Unit) (input : Fin g.nbEdges)
    (outputs copied : List (Fin g.nbEdges)) : Prop where
  nodup : copied.Nodup
  isOutput : ∀ o ∈ copied, o ∈ outputs
  apart : ∀ o ∈ outputs, o ≠ input
  place : ∀ o ∈ outputs, o ∉ copied → config.store o = config.store input ∨
    ∃ other ∈ copied, config.store other = config.store o

section Fire

variable [DecidableEq S] {config : RunConfig g S β Unit} {s : RunState g S β Unit}
  {before : List (Fin g.nbNodes)} {node : Fin g.nbNodes} {input : Fin g.nbEdges}
  {outputs copied : List (Fin g.nbEdges)}

/-- The storage of arrays in which the same samples are written has these samples, when one of
the arrays uses it. -/
theorem foldl_writeBlock_samples {target : S} {samples : List β} (edges : List (Fin g.nbEdges))
    (arrays : ∀ o ∈ edges, config.store o = target → config.array o = true)
    (memory : S → Memory β) :
    edges.foldl (s.writeBlock config fun _ => samples) memory target =
      if ∃ o ∈ edges, config.store o = target then (memory target).store 0 samples
      else memory target := by
  induction edges generalizing memory with
  | nil => simp
  | cons o edges ih =>
      rw [List.foldl_cons, ih fun k mem => arrays k (List.mem_cons_of_mem _ mem)]
      by_cases isTarget : config.store o = target
      · have written : s.writeBlock config (fun _ => samples) memory o target =
            (memory target).store 0 samples := by
          simp only [RunState.writeBlock, isTarget, Function.update_self,
            arrays o List.mem_cons_self isTarget, if_true]
          rfl
        have found : ∃ k ∈ o :: edges, config.store k = target := ⟨o, List.mem_cons_self, isTarget⟩
        rw [written, if_pos found]
        split_ifs
        · exact Memory.store_store _ _ _
        · rfl
      · have kept : s.writeBlock config (fun _ => samples) memory o target = memory target :=
          Function.update_of_ne (Ne.symm isTarget) _ _
        have same : (∃ k ∈ o :: edges, config.store k = target) ↔
            ∃ k ∈ edges, config.store k = target := by
          simp [isTarget]
        rw [kept]
        simp only [same]

variable (shared : ∀ e k, e ≠ k → config.store e = config.store k →
  config.array e = true ∧ config.array k = true)

include shared

omit [DecidableEq S] in
/-- A FIFO with positions is copied. -/
theorem RunConfig.CopiesAll.fifo (all : config.CopiesAll input outputs copied) {o : Fin g.nbEdges}
    (mem : o ∈ outputs) (isFifo : config.array o = false) : o ∈ copied := by
  by_contra notCopied
  have arrays : ∃ k, k ≠ o ∧ config.store k = config.store o := by
    rcases all.place o mem notCopied with same | ⟨other, otherMem, same⟩
    · exact ⟨input, (all.apart o mem).symm, same.symm⟩
    · exact ⟨other, fun eq => notCopied (eq ▸ otherMem), same⟩
  rcases arrays with ⟨k, ne, same⟩
  have isArray := (shared k o ne same).2
  simp [isFifo] at isArray

/-- The memory is the same when the other outputs are copied too. -/
theorem RunConfig.CopiesAll.memory (all : config.CopiesAll input outputs copied)
    (nodup : outputs.Nodup) :
    copied.foldl (s.writeBlock config fun _ => s.readBlock config before s.memory input) s.memory =
      outputs.foldl (s.writeBlock config fun _ => s.readBlock config before s.memory input)
        s.memory := by
  funext target
  by_cases isFifo : ∃ o ∈ outputs, config.store o = target ∧ config.array o = false
  · rcases isFifo with ⟨o, mem, rfl, isFifo⟩
    have alone : ∀ k, config.store k = config.store o → k = o := by
      intro k same
      by_contra ne
      have isArray := (shared k o ne same).2
      simp [isFifo] at isArray
    rw [foldl_writeBlock_fifo s _ isFifo all.nodup (all.fifo shared mem isFifo) fun k _ => alone k,
      foldl_writeBlock_fifo s _ isFifo nodup mem fun k _ => alone k]
  · have arrays : ∀ o ∈ outputs, config.store o = target → config.array o = true := by
      intro o mem isTarget
      by_contra notArray
      exact isFifo ⟨o, mem, isTarget, Bool.not_eq_true _ ▸ notArray⟩
    rw [foldl_writeBlock_samples copied fun o mem => arrays o (all.isOutput o mem),
      foldl_writeBlock_samples outputs arrays]
    by_cases isCopied : ∃ o ∈ copied, config.store o = target
    · rcases isCopied with ⟨o, mem, isTarget⟩
      rw [if_pos ⟨o, mem, isTarget⟩, if_pos ⟨o, all.isOutput o mem, isTarget⟩]
    · rw [if_neg isCopied]
      split_ifs with isOutput
      · -- the samples are in the storage of the input
        rcases isOutput with ⟨o, mem, rfl⟩
        have notCopied : o ∉ copied := fun oMem => isCopied ⟨o, oMem, rfl⟩
        rcases all.place o mem notCopied with same | ⟨other, otherMem, same⟩
        · have inputArray := (shared o input (all.apart o mem) same).2
          have block : s.readBlock config before s.memory input =
              (s.memory (config.store input)).load 0 (g.bytesRead before input) := by
            rw [RunState.readBlock, if_pos inputArray]
            rfl
          rw [block, same, Memory.store_load]
        · exact absurd ⟨other, otherMem, same⟩ isCopied
      · rfl

/-- The execution of a `Duplicate` in the generated code is the one in which it writes all its
outputs. -/
theorem fireCopied_eq_fire {copied : Fin g.nbNodes → Fin g.nbEdges → List (Fin g.nbEdges)}
    (all : ∀ input, g.duplicateInput node = some input →
      config.CopiesAll input (g.outputs node) (copied node input)) :
    s.fireCopied config copied before node = s.fire config before node := by
  unfold RunState.fireCopied
  split
  next input duplicate =>
    have copies := all input duplicate
    have isInput := (g.duplicateInput_iff node input duplicate input).mpr rfl
    have blocks : s.blocks config before node =
        fun _ => s.readBlock config before s.memory input := by
      funext e
      simp [RunState.blocks, duplicate, RunState.inputs, isInput, RunState.scratched]
    have memory : (copied node input).foldl (s.copyTo config before input) s.memory =
        (g.outputs node).foldl (s.writeBlock config (s.blocks config before node))
          (s.scratched config before node) := by
      rw [foldl_copyTo shared (fun k mem => copies.apart k (copies.isOutput k mem)) rfl, blocks,
        copies.memory shared ((List.nodup_finRange _).filter _), RunState.scratched, duplicate]
      rfl
    have positions : s.duplicatePositions config before input (copied node input) =
        s.positions config before node := by
      funext e
      have inputEnd := (g.duplicateInput_iff node input duplicate e).symm
      cases isArray : config.array e with
      | true => simp only [RunState.duplicatePositions, RunState.positions, isArray, if_true]
      | false =>
          have outputEnd : e ∈ copied node input ↔ (g.edge e).srcOwner = node :=
            ⟨fun mem => mem_outputs.mp (copies.isOutput e mem),
              fun isOutput => copies.fifo shared (mem_outputs.mpr isOutput) isArray⟩
          simp only [RunState.duplicatePositions, RunState.positions, isArray,
            List.contains_iff_mem, outputEnd, inputEnd, blocks, Bool.false_eq_true, if_false]
    have nodes : s.nodes = Function.update s.nodes node
        (config.behaviour node (s.nodes node) (s.inputs config before node)).1 :=
      Subsingleton.elim _ _
    simp only [RunState.runDuplicate, RunState.fire, memory, positions, ← nodes]
  next => rfl

/-- The runs of the generated code are the runs in which everything is copied. -/
theorem traceCopied_eq_trace {copied : Fin g.nbNodes → Fin g.nbEdges → List (Fin g.nbEdges)}
    (all : ∀ node input, g.duplicateInput node = some input →
      config.CopiesAll input (g.outputs node) (copied node input))
    (before executions : List (Fin g.nbNodes)) (s : RunState g S β Unit) :
    s.traceCopied config copied before executions = s.trace config before executions := by
  induction executions generalizing before s with
  | nil => rfl
  | cons node executions ih =>
      rw [RunState.traceCopied, RunState.trace, fireCopied_eq_fire shared (all node), ih]

end Fire

/-- The outputs which the `Duplicate` nodes copy in the generated code. -/
def FIFODescriptions.copiedOutputs (described : FIFODescriptions g) (config : Configuration)
    (duplicates : DuplicateOutputs g) (node : Fin g.nbNodes) (input : Fin g.nbEdges) :
    List (Fin g.nbEdges) :=
  described.copied config input (duplicates.outputs node)

/-- When the custom buffers at each `Duplicate` are the same, what is skipped is not needed in any
run. -/
theorem FIFODescriptions.Allocated.traceCopied {described : FIFODescriptions g}
    (allocated : described.Allocated) {config : Configuration} (duplicates : DuplicateOutputs g)
    (agree : config.disableDuplicateOptimization = true ∨ described.CustomBuffersAgree)
    (behaviour : NodeBehaviour g β Unit) (scratch : List (Fin g.nbNodes) → Fin g.nbEdges → ℕ → β)
    (executions : List (Fin g.nbNodes)) (s : RunState g (Storage g) β Unit) :
    s.traceCopied (described.runConfig behaviour scratch)
        (described.copiedOutputs config duplicates) [] executions =
      s.trace (described.runConfig behaviour scratch) [] executions := by
  have inPlace := (skipsInPlace_iff allocated duplicates).mpr agree
  apply traceCopied_eq_trace allocated.shared
  intro node input duplicate
  have perm := duplicates.perm node
  have copied : ∀ o, o ∈ described.copiedOutputs config duplicates node input ↔
      o ∈ duplicates.outputs node ∧
        described.skipForDuplicate config input (duplicates.outputs node) o = false := by
    intro o
    simp [FIFODescriptions.copiedOutputs, FIFODescriptions.copied]
  refine ⟨(perm.nodup_iff.mpr ((List.nodup_finRange _).filter _)).filter _, ?_, ?_, ?_⟩
  · exact fun o mem => perm.mem_iff.mp ((copied o).mp mem).1
  · rintro o mem rfl
    exact duplicates.apart node o duplicate (mem_outputs.mp mem)
  · intro o mem notCopied
    have isOutput := perm.mem_iff.mpr mem
    have skipped : described.skipForDuplicate config input (duplicates.outputs node) o = true := by
      by_contra notSkipped
      exact notCopied ((copied o).mpr ⟨isOutput, Bool.not_eq_true _ ▸ notSkipped⟩)
    rcases inPlace node input duplicate o isOutput skipped with same |
      ⟨other, otherMem, notSkipped, same⟩
    · exact Or.inl same
    · exact Or.inr ⟨other, (copied other).mpr ⟨otherMem, notSkipped⟩, same⟩

end CmsisStream.Scheduler
