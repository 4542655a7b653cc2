import CmsisStream.Scheduler.AsynchronousFifos
import CmsisStream.Scheduler.BufferSharing
import CmsisStream.Scheduler.SynchronousGraph
import CmsisStream.Platform.FifoContents

/-!
# Skipped copies of a Duplicate

An output of a `Duplicate` is skipped when it has the buffer of the input, or the
buffer of an output which is copied.  FIFOs with a custom buffer have no buffer
object, so they all count as having the same one.  The copies which are skipped
are the ones which are not needed, unless two different custom buffers meet at one
`Duplicate`.
-/

namespace CmsisStream.Scheduler

open Platform

universe u v w

/-! ### The marked outputs -/

section Groups

variable {E : Type u} (buffer : E → Option ℕ)

/-- The dictionary `buf_groups`, with one more output. -/
def addToGroup (groups : List (Option ℕ × List E)) (o : E) : List (Option ℕ × List E) :=
  if groups.any fun group => group.1 = buffer o then
    groups.map fun group => if group.1 = buffer o then (group.1, group.2 ++ [o]) else group
  else groups ++ [(buffer o, [o])]

/-- The outputs, organized per buffer. -/
def bufGroups (outputs : List E) : List (Option ℕ × List E) :=
  outputs.foldl (addToGroup buffer) []

/-- A group has the outputs with its buffer, in their order, and each output has a group. -/
theorem bufGroups_spec (outputs : List E) :
    (∀ group ∈ bufGroups buffer outputs,
      group.2 = outputs.filter fun k => buffer k = group.1) ∧
    ∀ o ∈ outputs, ∃ group ∈ bufGroups buffer outputs, group.1 = buffer o := by
  induction outputs using List.reverseRecOn with
  | nil => simp [bufGroups]
  | append_singleton outputs o ih =>
      rcases ih with ⟨filtered, found⟩
      have step : bufGroups buffer (outputs ++ [o]) =
          addToGroup buffer (bufGroups buffer outputs) o := by
        simp [bufGroups]
      rw [step, addToGroup]
      split_ifs with known
      · refine ⟨?_, ?_⟩
        · intro group mem
          rcases List.mem_map.mp mem with ⟨old, oldMem, rfl⟩
          split_ifs with same
          · simp [filtered old oldMem, same]
          · have other : ¬buffer o = old.1 := fun eq => same eq.symm
            simp [filtered old oldMem, other]
        · intro k mem
          rcases List.any_eq_true.mp known with ⟨old, oldMem, isGroup⟩
          have oldBuffer : old.1 = buffer o := by simpa using isGroup
          rcases List.mem_append.mp mem with earlier | last
          · rcases found k earlier with ⟨group, groupMem, eq⟩
            refine ⟨_, List.mem_map_of_mem groupMem, ?_⟩
            split_ifs
            · exact eq
            · exact eq
          · obtain rfl := List.mem_singleton.mp last
            refine ⟨_, List.mem_map_of_mem oldMem, ?_⟩
            rw [if_pos oldBuffer]
            exact oldBuffer
      · rw [Bool.not_eq_true, List.any_eq_false] at known
        have new : ∀ k ∈ outputs, buffer k ≠ buffer o := by
          intro k mem same
          rcases found k mem with ⟨group, groupMem, eq⟩
          exact known group groupMem (by simp [eq, same])
        refine ⟨?_, ?_⟩
        · intro group mem
          rcases List.mem_append.mp mem with old | last
          · have other : ¬buffer o = group.1 := by
              intro eq
              exact known group old (by simp [eq])
            simp [filtered group old, other]
          · obtain rfl := List.mem_singleton.mp last
            have none : outputs.filter (fun k => buffer k = buffer o) = [] := by
              apply List.filter_eq_nil_iff.mpr
              intro k mem
              simpa using new k mem
            simp [none]
        · intro k mem
          rcases List.mem_append.mp mem with earlier | last
          · rcases found k earlier with ⟨group, groupMem, eq⟩
            exact ⟨group, List.mem_append_left _ groupMem, eq⟩
          · obtain rfl := List.mem_singleton.mp last
            exact ⟨_, List.mem_append_right _ (List.mem_singleton_self _), rfl⟩

/-- The outputs after the first one of their group. -/
theorem mem_tail_bufGroups {outputs : List E} {o : E} :
    (∃ group ∈ bufGroups buffer outputs, o ∈ group.2.tail) ↔
      o ∈ (outputs.filter fun k => buffer k = buffer o).tail := by
  rcases bufGroups_spec buffer outputs with ⟨filtered, found⟩
  constructor
  · rintro ⟨group, mem, inTail⟩
    have isMember := List.mem_of_mem_tail inTail
    rw [filtered group mem] at inTail isMember
    have same : buffer o = group.1 := by simpa using (List.mem_filter.mp isMember).2
    rwa [← same] at inTail
  · intro inTail
    have isMember := (List.mem_filter.mp (List.mem_of_mem_tail inTail)).1
    rcases found o isMember with ⟨group, mem, eq⟩
    refine ⟨group, mem, ?_⟩
    rwa [filtered group mem, eq]

end Groups

variable {g : Graph}

namespace FIFODescriptions

/-- The `buffer` of a FIFO, by its number: only the FIFOs without custom buffer have one. -/
def buffer (described : FIFODescriptions g) (e : Fin g.nbEdges) : Option ℕ :=
  (described.fifo e).bufferID

/-- `_skip_for_duplicate` of an output of the `Duplicate` with the given input and outputs. -/
def skipForDuplicate (described : FIFODescriptions g) (config : Configuration)
    (input : Fin g.nbEdges) (outputs : List (Fin g.nbEdges)) (o : Fin g.nbEdges) : Bool :=
  !config.disableDuplicateOptimization &&
    (described.buffer o == described.buffer input ||
      (bufGroups described.buffer
        (outputs.filter fun k => described.buffer k != described.buffer input)).any
          fun group => group.2.tail.contains o)

/-- The outputs which are copied: the arguments of the `Duplicate` in the generated code. -/
def copied (described : FIFODescriptions g) (config : Configuration) (input : Fin g.nbEdges)
    (outputs : List (Fin g.nbEdges)) : List (Fin g.nbEdges) :=
  outputs.filter fun o => !described.skipForDuplicate config input outputs o

end FIFODescriptions

/-- The descriptions which `initializeFIFODescriptions` returns, in any mode. -/
inductive Described (g : Graph) (config : Configuration) (described : FIFODescriptions g) : Prop
  | synchronous (coloring : Coloring g) (proper : ProperColoring coloring)
      (live : Fin g.nbEdges → Interval) (lengths : Fin g.nbEdges → ℤ) (maxTime : ℕ)
      (ok : initializeFIFODescriptions g coloring config live lengths maxTime = .ok described) :
      Described g config described
  | asynchronous (lengths : Fin g.nbEdges → ℤ)
      (ok : initializeAsynchronousFIFODescriptions g lengths = .ok described) :
      Described g config described

/-- The outputs of each `Duplicate`, in the order of its `_outputs`; its input comes from another
node. -/
structure DuplicateOutputs (g : Graph) where
  outputs : Fin g.nbNodes → List (Fin g.nbEdges)
  perm : ∀ node, (outputs node).Perm (g.outputs node)
  apart : ∀ node input, g.duplicateInput node = some input → (g.edge input).srcOwner ≠ node

namespace RunState

variable {S : Type u} {β : Type v} {σ : Type w} [DecidableEq S] (config : RunConfig g S β σ)

/-- `memcpy` from the input of a `Duplicate` to one of its outputs. -/
def copyTo (before : List (Fin g.nbNodes)) (input : Fin g.nbEdges) (s : RunState g S β σ)
    (memory : S → Memory β) (o : Fin g.nbEdges) : S → Memory β :=
  s.writeBlock config (fun _ => s.readBlock config before memory input) memory o

/-- The positions of a FIFO after `run` of a `Duplicate`. -/
def duplicatePositions (before : List (Fin g.nbNodes)) (input : Fin g.nbEdges)
    (copied : List (Fin g.nbEdges)) (s : RunState g S β σ) (e : Fin g.nbEdges) : ℤ × ℤ :=
  if config.array e then (s.readPos e, s.writePos e)
  else if copied.contains e then
    let written := (s.fifo config e).write (s.readBlock config before s.memory input)
    (written.readPos, written.writePos)
  else if e = input then
    let read := ((s.fifo config e).read (g.bytesRead before e)).2
    (read.readPos, read.writePos)
  else (s.readPos e, s.writePos e)

/-- `run` of a `Duplicate` which is given some of its outputs. -/
def runDuplicate (before : List (Fin g.nbNodes)) (input : Fin g.nbEdges)
    (copied : List (Fin g.nbEdges)) (s : RunState g S β σ) : RunState g S β σ where
  memory := copied.foldl (s.copyTo config before input) s.memory
  readPos e := (s.duplicatePositions config before input copied e).1
  writePos e := (s.duplicatePositions config before input copied e).2
  nodes := s.nodes

end RunState

/-- The consumer of a FIFO finds the samples: in the array, or after those which were there. -/
def RunConfig.Delivered {S : Type u} {β : Type v} {σ : Type w} (config : RunConfig g S β σ)
    (s next : RunState g S β σ) (samples : List β) (o : Fin g.nbEdges) : Prop :=
  if config.array o then (next.memory (config.store o)).load 0 samples.length = samples
  else (next.fifo config o).contents = (s.fifo config o).contents ++ samples

namespace FIFODescriptions

/-- How the described FIFOs are implemented. -/
def runConfig {β : Type v} {σ : Type w} (described : FIFODescriptions g)
    (behaviour : NodeBehaviour g β σ)
    (scratch : List (Fin g.nbNodes) → Fin g.nbEdges → ℕ → β) : RunConfig g (Storage g) β σ where
  store := described.storage
  array e := (described.fifo e).isArray
  behaviour := behaviour
  scratch := scratch

/-- An output is only skipped when its storage is that of the input, or that of another output
which is not skipped. -/
def SkipsInPlace (described : FIFODescriptions g) (config : Configuration)
    (duplicates : DuplicateOutputs g) : Prop :=
  ∀ node input, g.duplicateInput node = some input → ∀ o ∈ duplicates.outputs node,
    described.skipForDuplicate config input (duplicates.outputs node) o = true →
    described.storage o = described.storage input ∨
      ∃ other ∈ duplicates.outputs node,
        described.skipForDuplicate config input (duplicates.outputs node) other = false ∧
          described.storage other = described.storage o

/-- After a `Duplicate` has run, the consumers of its outputs find the samples it has read. -/
def DuplicatesDeliver (described : FIFODescriptions g) (config : Configuration)
    (duplicates : DuplicateOutputs g) : Prop :=
  ∀ (β : Type v) (σ : Type w) (behaviour : NodeBehaviour g β σ)
    (scratch : List (Fin g.nbNodes) → Fin g.nbEdges → ℕ → β) (s : RunState g (Storage g) β σ)
    (before : List (Fin g.nbNodes)) (node : Fin g.nbNodes) (input : Fin g.nbEdges),
    g.duplicateInput node = some input →
    (∀ e, (described.fifo e).isArray = false →
      (s.fifo (described.runConfig behaviour scratch) e).Ordered) →
    ∀ o ∈ duplicates.outputs node,
      (described.runConfig behaviour scratch).Delivered s
        (s.runDuplicate (described.runConfig behaviour scratch) before input
          (described.copied config input (duplicates.outputs node)))
        (s.readBlock (described.runConfig behaviour scratch) before s.memory input) o

/-- The FIFOs with a custom buffer at the same `Duplicate` have the same one. -/
def CustomBuffersAgree (described : FIFODescriptions g) : Prop :=
  ∀ node input, g.duplicateInput node = some input →
    ∀ e o, (e = input ∨ (g.edge e).srcOwner = node) → (o = input ∨ (g.edge o).srcOwner = node) →
      (described.fifo e).customBuffer.isSome = true →
      (described.fifo o).customBuffer.isSome = true →
      described.storage e = described.storage o

end FIFODescriptions

/-! ### Which outputs are skipped -/

section Skipped

variable {config : Configuration} {described : FIFODescriptions g} {input o : Fin g.nbEdges}
  {outputs : List (Fin g.nbEdges)}

theorem Described.allocated (given : g.CustomBuffersGiven)
    (isDescribed : Described g config described) :
    described.Allocated := by
  cases isDescribed with
  | synchronous coloring proper live lengths maxTime ok =>
      exact allocated_of_initialize given proper ok
  | asynchronous lengths ok => exact allocated_of_initializeAsynchronous given ok

/-- A skipped output has the buffer of the input, or of an earlier output. -/
theorem skipForDuplicate_iff :
    described.skipForDuplicate config input outputs o = true ↔
      config.disableDuplicateOptimization = false ∧
        (described.buffer o = described.buffer input ∨
          o ∈ ((outputs.filter fun k => described.buffer k != described.buffer input).filter
            fun k => described.buffer k = described.buffer o).tail) := by
  rw [FIFODescriptions.skipForDuplicate, Bool.and_eq_true, Bool.not_eq_true', Bool.or_eq_true,
    beq_iff_eq, ← mem_tail_bufGroups, List.any_eq_true]
  simp only [List.contains_iff_mem]

/-- The first output of each group is copied. -/
theorem exists_copied (config : Configuration) (nodup : outputs.Nodup)
    (inTail : o ∈ ((outputs.filter fun k => described.buffer k != described.buffer input).filter
      fun k => described.buffer k = described.buffer o).tail) :
    ∃ other ∈ outputs, described.skipForDuplicate config input outputs other = false ∧
      described.buffer other = described.buffer o := by
  let group := (outputs.filter fun k => described.buffer k != described.buffer input).filter
    fun k => described.buffer k = described.buffer o
  have groupNodup : group.Nodup := (nodup.filter _).filter _
  change o ∈ group.tail at inTail
  cases isGroup : group with
  | nil => simp [isGroup] at inTail
  | cons first rest =>
      have firstMem : first ∈ group := isGroup ▸ List.mem_cons_self
      rcases List.mem_filter.mp firstMem with ⟨mem, same⟩
      rcases List.mem_filter.mp mem with ⟨isOutput, notInput⟩
      have sameBuffer : described.buffer first = described.buffer o := by simpa using same
      refine ⟨first, isOutput, ?_, sameBuffer⟩
      by_contra skipped
      rcases (skipForDuplicate_iff.mp (Bool.not_eq_false _ ▸ skipped)).2 with isInput | late
      · simp [isInput] at notInput
      · rw [sameBuffer] at late
        change first ∈ group.tail at late
        rw [isGroup] at groupNodup late
        exact (List.nodup_cons.mp groupNodup).1 late

/-- FIFOs without custom buffer have the same storage when they have the same buffer. -/
theorem storage_eq_of_buffer_eq {e : Fin g.nbEdges} (allocated : described.Allocated)
    (same : described.buffer e = described.buffer o)
    (noCustom : (described.fifo e).customBuffer = none) :
    described.storage e = described.storage o := by
  have eBuffer := mt (allocated.buffer e).mp (by simp [noCustom])
  have oBuffer : (described.fifo o).bufferID ≠ none := by
    intro isNone
    exact eBuffer ((show (described.fifo e).bufferID = _ from same).trans isNone)
  have oNoCustom : (described.fifo o).customBuffer = none := by
    by_contra custom
    exact oBuffer ((allocated.buffer o).mpr (Option.isSome_iff_ne_none.mpr custom))
  unfold FIFODescriptions.storage
  rw [noCustom, oNoCustom]
  exact congrArg (fun buffer => Storage.allocated (buffer.getD 0)) same

/-- A custom buffer is not a buffer of the scheduler. -/
theorem storage_ne_of_custom {e : Fin g.nbEdges}
    (custom : (described.fifo e).customBuffer.isSome = true)
    (noCustom : (described.fifo o).customBuffer = none) :
    described.storage e ≠ described.storage o := by
  rcases Option.isSome_iff_exists.mp custom with ⟨constraint, isCustom⟩
  intro same
  unfold FIFODescriptions.storage at same
  rw [isCustom, noCustom] at same
  simp only at same
  split_ifs at same

theorem buffer_eq_none_iff (allocated : described.Allocated) (e : Fin g.nbEdges) :
    described.buffer e = none ↔ (described.fifo e).customBuffer.isSome = true :=
  allocated.buffer e

section Custom

variable (allocated : described.Allocated) (enabled : config.disableDuplicateOptimization = false)
  (place : ∀ o ∈ outputs, described.skipForDuplicate config input outputs o = true →
    described.storage o = described.storage input ∨ ∃ other ∈ outputs,
      described.skipForDuplicate config input outputs other = false ∧
        described.storage other = described.storage o)

include allocated enabled place

/-- When the input has a custom buffer, all the outputs with a custom buffer are skipped. -/
theorem storage_eq_input_of_custom (inputCustom : (described.fifo input).customBuffer.isSome = true)
    (mem : o ∈ outputs) (custom : (described.fifo o).customBuffer.isSome = true) :
    described.storage o = described.storage input := by
  have skipped : ∀ k, (described.fifo k).customBuffer.isSome = true →
      described.skipForDuplicate config input outputs k = true := by
    intro k kCustom
    apply skipForDuplicate_iff.mpr
    refine ⟨enabled, Or.inl ?_⟩
    rw [(buffer_eq_none_iff allocated k).mpr kCustom,
      (buffer_eq_none_iff allocated input).mpr inputCustom]
  rcases place o mem (skipped o custom) with inPlace | ⟨other, -, notSkipped, same⟩
  · exact inPlace
  · cases otherCustom : (described.fifo other).customBuffer with
    | none => exact absurd same.symm (storage_ne_of_custom custom otherCustom)
    | some constraint =>
        rw [skipped other (by rw [otherCustom]; rfl)] at notSkipped
        exact absurd notSkipped Bool.true_eq_false.mp

/-- Otherwise only one of the outputs with a custom buffer is copied. -/
theorem storage_eq_of_custom (noCustom : (described.fifo input).customBuffer = none)
    {e : Fin g.nbEdges} (eMem : e ∈ outputs)
    (eCustom : (described.fifo e).customBuffer.isSome = true) (oMem : o ∈ outputs)
    (oCustom : (described.fifo o).customBuffer.isSome = true) :
    described.storage e = described.storage o := by
  let group := (outputs.filter fun k => described.buffer k != described.buffer input).filter
    fun k => described.buffer k = none
  have inputBuffer := mt (buffer_eq_none_iff allocated input).mp (by simp [noCustom])
  have inGroup : ∀ k ∈ outputs, (described.fifo k).customBuffer.isSome = true → k ∈ group := by
    intro k mem custom
    have isNone := (buffer_eq_none_iff allocated k).mpr custom
    refine List.mem_filter.mpr ⟨List.mem_filter.mpr ⟨mem, ?_⟩, by simp [isNone]⟩
    rw [isNone, bne_iff_ne]
    exact Ne.symm inputBuffer
  have skipped : ∀ k, (described.fifo k).customBuffer.isSome = true → k ∈ group.tail →
      described.skipForDuplicate config input outputs k = true := by
    intro k custom inTail
    apply skipForDuplicate_iff.mpr
    refine ⟨enabled, Or.inr ?_⟩
    rwa [(buffer_eq_none_iff allocated k).mpr custom]
  cases isGroup : group with
  | nil =>
      have mem := inGroup e eMem eCustom
      rw [isGroup] at mem
      exact absurd mem List.not_mem_nil
  | cons first rest =>
      rw [isGroup] at inGroup skipped
      have same : ∀ k ∈ outputs, (described.fifo k).customBuffer.isSome = true →
          described.storage k = described.storage first := by
        intro k mem custom
        rcases List.mem_cons.mp (inGroup k mem custom) with rfl | late
        · rfl
        · rcases place k mem (skipped k custom late) with inPlace |
            ⟨other, otherMem, notSkipped, sameStorage⟩
          · exact absurd inPlace (storage_ne_of_custom custom noCustom)
          · cases otherCustom : (described.fifo other).customBuffer with
            | none => exact absurd sameStorage.symm (storage_ne_of_custom custom otherCustom)
            | some constraint =>
                have isCustom : (described.fifo other).customBuffer.isSome = true := by
                  rw [otherCustom]
                  rfl
                rcases List.mem_cons.mp (inGroup other otherMem isCustom) with rfl | otherLate
                · exact sameStorage.symm
                · rw [skipped other isCustom otherLate] at notSkipped
                  exact absurd notSkipped Bool.true_eq_false.mp
      rw [same e eMem eCustom, same o oMem oCustom]

end Custom

/-- The outputs which are skipped have the storage of what is copied, exactly when the custom
buffers at each `Duplicate` are the same. -/
theorem skipsInPlace_iff (allocated : described.Allocated) (duplicates : DuplicateOutputs g) :
    described.SkipsInPlace config duplicates ↔
      config.disableDuplicateOptimization = true ∨ described.CustomBuffersAgree := by
  have nodup : ∀ node, (duplicates.outputs node).Nodup := fun node =>
    (duplicates.perm node).nodup_iff.mpr ((List.nodup_finRange _).filter _)
  have isOutput : ∀ node e, e ∈ duplicates.outputs node ↔ (g.edge e).srcOwner = node :=
    fun node e => ((duplicates.perm node).mem_iff).trans mem_outputs
  constructor
  · intro inPlace
    by_contra neither
    rw [not_or, Bool.not_eq_true] at neither
    rcases neither with ⟨enabled, disagree⟩
    apply disagree
    intro node input duplicate
    have place := inPlace node input duplicate
    intro e o eEnd oEnd eCustom oCustom
    cases inputCustom : (described.fifo input).customBuffer with
    | some constraint =>
        have isCustom : (described.fifo input).customBuffer.isSome = true := by
          rw [inputCustom]
          rfl
        have same : ∀ k, (k = input ∨ (g.edge k).srcOwner = node) →
            (described.fifo k).customBuffer.isSome = true →
            described.storage k = described.storage input := by
          rintro k (rfl | output) custom
          · rfl
          · exact storage_eq_input_of_custom allocated enabled place isCustom
              ((isOutput node k).mpr output) custom
        rw [same e eEnd eCustom, same o oEnd oCustom]
    | none =>
        have output : ∀ k, (k = input ∨ (g.edge k).srcOwner = node) →
            (described.fifo k).customBuffer.isSome = true → k ∈ duplicates.outputs node := by
          rintro k (rfl | output) custom
          · simp [inputCustom] at custom
          · exact (isOutput node k).mpr output
        exact storage_eq_of_custom allocated enabled place inputCustom (output e eEnd eCustom)
          eCustom (output o oEnd oCustom) oCustom
  · rintro (disabled | agree) node input duplicate o mem skipped
    · rw [(skipForDuplicate_iff.mp skipped).1] at disabled
      exact absurd disabled Bool.false_ne_true
    · have output : (g.edge o).srcOwner = node := (isOutput node o).mp mem
      rcases (skipForDuplicate_iff.mp skipped).2 with sameBuffer | inTail
      · left
        cases custom : (described.fifo o).customBuffer with
        | none => exact storage_eq_of_buffer_eq allocated sameBuffer custom
        | some constraint =>
            have oCustom : (described.fifo o).customBuffer.isSome = true := by rw [custom]; rfl
            have isNone := (buffer_eq_none_iff allocated o).mpr oCustom
            have inputCustom := (buffer_eq_none_iff allocated input).mp
              (sameBuffer.symm.trans isNone)
            exact agree node input duplicate o input (Or.inr output) (Or.inl rfl) oCustom
              inputCustom
      · right
        rcases exists_copied config (nodup node) inTail with
          ⟨other, otherMem, notSkipped, sameBuffer⟩
        refine ⟨other, otherMem, notSkipped, ?_⟩
        cases custom : (described.fifo other).customBuffer with
        | none => exact storage_eq_of_buffer_eq allocated sameBuffer custom
        | some constraint =>
            have otherCustom : (described.fifo other).customBuffer.isSome = true := by
              rw [custom]
              rfl
            have isNone := (buffer_eq_none_iff allocated other).mpr otherCustom
            have oCustom := (buffer_eq_none_iff allocated o).mp (sameBuffer.symm.trans isNone)
            exact agree node input duplicate other o (Or.inr ((isOutput node other).mp otherMem))
              (Or.inr output) otherCustom oCustom

end Skipped

/-! ### Running a Duplicate -/

section Run

variable {S : Type u} {β : Type v} {σ : Type w} [DecidableEq S] {run : RunConfig g S β σ}
  {s : RunState g S β σ} {before : List (Fin g.nbNodes)} {input o : Fin g.nbEdges}
  {copied : List (Fin g.nbEdges)}
  (shared : ∀ e k, e ≠ k → run.store e = run.store k → run.array e = true ∧ run.array k = true)

include shared

/-- The samples of the input stay where they are when they are copied to another FIFO. -/
theorem readBlock_writeBlock (ne : o ≠ input) {memory : S → Memory β} {samples : List β}
    (isRead : s.readBlock run before memory input = samples) :
    s.readBlock run before (s.writeBlock run (fun _ => samples) memory o) input = samples := by
  by_cases same : run.store o = run.store input
  · rcases shared o input ne same with ⟨oArray, inputArray⟩
    have length : g.bytesRead before input = samples.length := by
      rw [← isRead, length_readBlock]
    simp only [RunState.readBlock, inputArray, if_true, RunState.writeBlock, same,
      Function.update_self, oArray, length]
    exact Memory.load_store _ _ _
  · have kept : s.writeBlock run (fun _ => samples) memory o (run.store input) =
        memory (run.store input) :=
      Function.update_of_ne (Ne.symm same) _ _
    have unchanged : s.readBlock run before (s.writeBlock run (fun _ => samples) memory o) input =
        s.readBlock run before memory input := by
      unfold RunState.readBlock
      rw [kept]
    rw [unchanged, isRead]

/-- Each copy takes the samples which were read. -/
theorem foldl_copyTo (ne : ∀ k ∈ copied, k ≠ input) {memory : S → Memory β} {samples : List β}
    (isRead : s.readBlock run before memory input = samples) :
    copied.foldl (s.copyTo run before input) memory =
      copied.foldl (s.writeBlock run fun _ => samples) memory := by
  induction copied generalizing memory with
  | nil => rfl
  | cons o copied ih =>
      have first : s.copyTo run before input memory o =
          s.writeBlock run (fun _ => samples) memory o := by
        rw [RunState.copyTo, isRead]
      rw [List.foldl_cons, List.foldl_cons, first]
      exact ih (fun k mem => ne k (List.mem_cons_of_mem _ mem))
        (readBlock_writeBlock shared (ne o List.mem_cons_self) isRead)

/-- An array has the samples when it was copied, or when it already had them. -/
theorem load_runDuplicate (ne : ∀ k ∈ copied, k ≠ input) (isArray : run.array o = true)
    (given : o ∈ copied ∨ (o ≠ input ∧ run.store o = run.store input)) :
    ((s.runDuplicate run before input copied).memory (run.store o)).load 0
        (s.readBlock run before s.memory input).length =
      s.readBlock run before s.memory input := by
  have memory : (s.runDuplicate run before input copied).memory =
      copied.foldl (s.writeBlock run fun _ => s.readBlock run before s.memory input) s.memory :=
    foldl_copyTo shared ne rfl
  let samples : Fin g.nbEdges → List β := fun _ => s.readBlock run before s.memory input
  rw [memory]
  change (copied.foldl (s.writeBlock run samples) s.memory (run.store o)).load 0
    (samples o).length = samples o
  apply foldl_writeBlock_array
  · intro k mem same
    refine ⟨?_, rfl⟩
    by_cases isSame : k = o
    · rw [isSame, isArray]
    · exact (shared k o isSame same).1
  · rcases given with mem | ⟨different, same⟩
    · exact Or.inl mem
    · right
      have inputArray := (shared o input different same).2
      have block : s.readBlock run before s.memory input =
          (s.memory (run.store input)).load 0 (g.bytesRead before input) := by
        rw [RunState.readBlock, if_pos inputArray]
        rfl
      change (s.memory (run.store o)).load 0 (s.readBlock run before s.memory input).length =
        s.readBlock run before s.memory input
      rw [length_readBlock, same, block]

/-- A FIFO with positions gets the samples when they are copied to it. -/
theorem fifo_runDuplicate (ne : ∀ k ∈ copied, k ≠ input) (nodup : copied.Nodup)
    (isFifo : run.array o = false) (mem : o ∈ copied) :
    (s.runDuplicate run before input copied).fifo run o =
      (s.fifo run o).write (s.readBlock run before s.memory input) := by
  have memory : (s.runDuplicate run before input copied).memory =
      copied.foldl (s.writeBlock run fun _ => s.readBlock run before s.memory input) s.memory :=
    foldl_copyTo shared ne rfl
  have alone : ∀ k ∈ copied, run.store k = run.store o → k = o := by
    intro k _ same
    by_contra different
    have isArray := (shared k o different same).2
    simp [isFifo] at isArray
  have written := foldl_writeBlock_fifo s (fun _ => s.readBlock run before s.memory input) isFifo
    nodup mem alone s.memory
  rw [RunState.fifo, memory, written]
  simp only [RunState.runDuplicate, RunState.duplicatePositions, isFifo, Bool.false_eq_true,
    if_false, List.contains_iff_mem.mpr mem, if_true]
  rfl

end Run

/-- When the skipped outputs have the storage of what is copied, every consumer finds the
samples. -/
theorem duplicatesDeliver_of_skipsInPlace {config : Configuration} {described : FIFODescriptions g}
    (allocated : described.Allocated) {duplicates : DuplicateOutputs g}
    (inPlace : described.SkipsInPlace config duplicates) :
    described.DuplicatesDeliver.{v, w} config duplicates := by
  intro β σ behaviour scratch s before node input duplicate ordered o mem
  have shared : ∀ e k, e ≠ k →
      (described.runConfig behaviour scratch).store e =
        (described.runConfig behaviour scratch).store k →
      (described.runConfig behaviour scratch).array e = true ∧
        (described.runConfig behaviour scratch).array k = true := allocated.shared
  have isOutput : ∀ k ∈ duplicates.outputs node, (g.edge k).srcOwner = node := fun k kMem =>
    mem_outputs.mp ((duplicates.perm node).mem_iff.mp kMem)
  have apart : ∀ k ∈ duplicates.outputs node, k ≠ input := by
    rintro k kMem rfl
    exact duplicates.apart node k duplicate (isOutput k kMem)
  have ne : ∀ k ∈ described.copied config input (duplicates.outputs node), k ≠ input :=
    fun k kMem => apart k (List.mem_filter.mp kMem).1
  have nodup : (described.copied config input (duplicates.outputs node)).Nodup :=
    ((duplicates.perm node).nodup_iff.mpr ((List.nodup_finRange _).filter _)).filter _
  have isCopied : ∀ k ∈ duplicates.outputs node,
      described.skipForDuplicate config input (duplicates.outputs node) k = false →
      k ∈ described.copied config input (duplicates.outputs node) := fun k kMem notSkipped =>
    List.mem_filter.mpr ⟨kMem, by simp [notSkipped]⟩
  unfold RunConfig.Delivered
  cases isArray : (described.runConfig behaviour scratch).array o with
  | true =>
      rw [if_pos rfl]
      cases skipped : described.skipForDuplicate config input (duplicates.outputs node) o with
      | false => exact load_runDuplicate shared ne isArray (Or.inl (isCopied o mem skipped))
      | true =>
          rcases inPlace node input duplicate o mem skipped with same |
            ⟨other, otherMem, notSkipped, same⟩
          · exact load_runDuplicate shared ne isArray (Or.inr ⟨apart o mem, same⟩)
          · have different : other ≠ o := by
              rintro rfl
              rw [skipped] at notSkipped
              exact absurd notSkipped Bool.true_eq_false.mp
            have otherArray := (shared other o different same).1
            have found : ((s.runDuplicate _ before input _).memory _).load _ _ = _ :=
              load_runDuplicate shared ne otherArray (Or.inl (isCopied other otherMem notSkipped))
            rwa [show (described.runConfig behaviour scratch).store other =
              (described.runConfig behaviour scratch).store o from same] at found
  | false =>
      have notSkipped : described.skipForDuplicate config input (duplicates.outputs node) o =
          false := by
        by_contra skipped
        rcases inPlace node input duplicate o mem (Bool.not_eq_false _ ▸ skipped) with same |
          ⟨other, otherMem, notSkipped, same⟩
        · have arrays := shared o input (apart o mem) same
          simp [isArray] at arrays
        · have different : other ≠ o := by
            rintro rfl
            exact skipped notSkipped
          have arrays := shared other o different same
          simp [isArray] at arrays
      rw [if_neg Bool.false_ne_true, fifo_runDuplicate shared ne nodup isArray
        (isCopied o mem notSkipped)]
      exact SyncFIFO.contents_write (ordered o isArray) _

/-- Skipped Duplicate copies.  The skipped outputs have the storage of what is copied, and the
consumers find the samples, exactly when the custom buffers at each `Duplicate` are the same. -/
theorem duplicateSkips_iff (given : g.CustomBuffersGiven) {config : Configuration}
    {described : FIFODescriptions g} (isDescribed : Described g config described)
    (duplicates : DuplicateOutputs g) :
    described.SkipsInPlace config duplicates ∧
        described.DuplicatesDeliver.{v, w} config duplicates ↔
      config.disableDuplicateOptimization = true ∨ described.CustomBuffersAgree := by
  have allocated := isDescribed.allocated given
  rw [← skipsInPlace_iff allocated duplicates]
  refine ⟨And.left, ?_⟩
  intro inPlace
  exact ⟨inPlace, duplicatesDeliver_of_skipsInPlace allocated inPlace⟩

/-- The outputs of each `Duplicate` in the order of the edges. -/
def edgeOrder (g : Graph)
    (apart : ∀ node input, g.duplicateInput node = some input → (g.edge input).srcOwner ≠ node) :
    DuplicateOutputs g :=
  ⟨g.outputs, fun _ => List.Perm.refl _, apart⟩

theorem fanOut_apart : ∀ node input, fanOut.duplicateInput node = some input →
    (fanOut.edge input).srcOwner ≠ node := by
  decide

/-- Without custom buffers, each consumer of a duplicated output finds the samples. -/
theorem fanOut_duplicateSkips :
    ∃ described, Described fanOut ⟨false, true, false⟩ described ∧
      described.SkipsInPlace ⟨false, true, false⟩ (edgeOrder fanOut fanOut_apart) ∧
      described.DuplicatesDeliver.{0, 0} ⟨false, true, false⟩ (edgeOrder fanOut fanOut_apart) := by
  have given : fanOut.CustomBuffersGiven := by
    have noCustom : ∀ e, (fanOut.edge e).customBuffer = none := by decide
    intro e constraint custom
    simp [noCustom e] at custom
  have evaluated : (initializeFIFODescriptions fanOut (tryColors []) ⟨false, true, false⟩
      (fun _ => (0, 3)) (fun _ => 4) 4).toOption.map
        (fun described => decide (∀ e, (described.fifo e).customBuffer = none)) = some true := by
    decide +kernel
  rcases Option.map_eq_some_iff.mp evaluated with ⟨described, isSome, noCustom⟩
  have isDescribed : Described fanOut ⟨false, true, false⟩ described :=
    .synchronous _ (tryColors_proper []) _ _ _ (toOption_eq_some.mp isSome)
  refine ⟨described, isDescribed, (duplicateSkips_iff given isDescribed _).mpr (Or.inr ?_)⟩
  intro node input _ e o _ _ custom
  simp [of_decide_eq_true noCustom e] at custom

/-! ### Two buffers of the user -/

/-- A source, and two sinks whose inputs are in two different buffers of the user. -/
def sourceAndSinks : SchedulableNodes (Option (Fin 2)) Unit (Fin 2) where
  owner _ := none
  inputOwner := some
  outputs node := if node = none then [()] else []
  outputs_nodup := by decide
  mem_outputs := by decide
  outputType _ := .cType 0
  inputType _ := .cType 0
  nbSamples _ := .int 4
  outputConstraint _ := none
  inputConstraint b := some ⟨b.val, some ("c" ++ toString b.val), true, false, true⟩
  nodeID node := node.elim "source" fun b => "sink" ++ toString b.val
  inputs := Option.toList
  inputs_nodup := by decide
  mem_inputs := by decide
  inputSamples _ := .int 4
  nbSamples_pos _ := Nat.one_pos
  inputSamples_pos _ := Nat.one_pos

/-- The output of the source is connected to both sinks. -/
def twoConnections : List (BuildStep Unit (Fin 2) ℕ) :=
  [.connect () ⟨0, Nat.two_pos⟩ (ConnectOptions.default ℕ),
    .connect () ⟨1, Nat.one_lt_two⟩ (ConnectOptions.default ℕ)]

/-- The graph of these connections, and the graph after `insertDuplicates`. -/
def twoConnected : ConnectedGraph (Option (Fin 2)) Unit (Fin 2) ℕ :=
  match BuildStep.build sourceAndSinks.toStreamingNodes 0 twoConnections with
  | .ok g => g
  | .error _ => .empty 0

def twoInserted : ConnectedGraph (Option (Fin 2)) Unit (Fin 2) ℕ :=
  match twoConnected.insertDuplicates sourceAndSinks.toStreamingNodes ⟨false, false⟩ with
  | .ok h => h
  | .error _ => .empty 0

theorem twoConnections_built : BuildStep.build sourceAndSinks.toStreamingNodes 0 twoConnections =
    .ok twoConnected :=
  rfl

theorem twoConnected_inserted :
    twoConnected.insertDuplicates sourceAndSinks.toStreamingNodes ⟨false, false⟩ =
      .ok twoInserted :=
  rfl

theorem twoConnected_schedulable : ConnectedGraph.Schedulable sourceAndSinks twoConnected where
  inputs := by decide
  noLoop := by decide
  delay_nonneg := by decide
  nbSamples_pos _ := Nat.succ_pos 3
  inputSamples_pos _ := Nat.succ_pos 3

theorem twoInserted_plain : ConnectedGraph.Plain sourceAndSinks twoInserted :=
  ConnectedGraph.insertDuplicates_plain twoConnections_built twoConnected_inserted
    twoConnected_schedulable

/-- The graph of the scheduler, with samples of two bytes. -/
def twoCustomBuffers : Graph :=
  twoInserted.schedulerGraph twoInserted_plain ⟨fun _ => 2, fun _ _ => rfl⟩

theorem twoCustomBuffers_apart : ∀ node input, twoCustomBuffers.duplicateInput node = some input →
    (twoCustomBuffers.edge input).srcOwner ≠ node := by
  decide +kernel

/-- The copy to the second buffer of the user is skipped. -/
theorem twoCustomBuffers_not_skipsInPlace :
    ∃ result : Schedule twoCustomBuffers,
      computeSchedule onesNullspace (occupancy twoCustomBuffers) (tryColors [])
        ⟨false, true, false⟩ = .ok result ∧
      ¬result.fifos.SkipsInPlace ⟨false, true, false⟩
        (edgeOrder twoCustomBuffers twoCustomBuffers_apart) := by
  have evaluated : (computeSchedule onesNullspace (occupancy twoCustomBuffers) (tryColors [])
      ⟨false, true, false⟩).toOption.map (fun result =>
        decide (∃ node input, twoCustomBuffers.duplicateInput node = some input ∧
          ∃ o ∈ twoCustomBuffers.outputs node,
            result.fifos.skipForDuplicate ⟨false, true, false⟩ input
                (twoCustomBuffers.outputs node) o = true ∧
              result.fifos.storage o ≠ result.fifos.storage input ∧
              ∀ other, result.fifos.storage other = result.fifos.storage o → other = o)) =
      some true := by
    decide +kernel
  rcases Option.map_eq_some_iff.mp evaluated with ⟨result, isSome, holds⟩
  rcases of_decide_eq_true holds with ⟨node, input, duplicate, o, mem, skipped, different, alone⟩
  refine ⟨result, toOption_eq_some.mp isSome, ?_⟩
  intro inPlace
  rcases inPlace node input duplicate o mem skipped with same | ⟨other, -, notSkipped, same⟩
  · exact different same
  · rw [alone other same] at notSkipped
    exact absurd (skipped.symm.trans notSkipped) Bool.true_eq_false.mp

end CmsisStream.Scheduler
