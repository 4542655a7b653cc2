import CmsisStream.Scheduler.Storage

/-!
# The FIFOs of an asynchronous graph

In the asynchronous modes `initializeFIFODescriptions` flags no FIFO as an array
and shares no buffer, whatever the lengths of the FIFOs are.  In all modes a FIFO
has a buffer of the scheduler unless it has a custom buffer, and only arrays have
a common storage.
-/

namespace CmsisStream.Scheduler

variable {g : Graph}

/-- The descriptions in the asynchronous modes. -/
def describeAsynchronous (g : Graph) (lengths : Fin g.nbEdges → ℤ) : FIFODescriptions g :=
  let own := (List.finRange g.nbEdges).foldl (allocateOwn g (fun _ => false) lengths)
    ⟨0, fun _ => none, fun _ => none⟩
  { fifo := fun e =>
      { length := lengths e
        isArray := false
        customBuffer := (g.edge e).customBuffer
        bufferID := own.buffer e }
    allBuffers := own.allBuffers }

/-- `Graph.initializeFIFODescriptions` in the asynchronous modes. -/
def initializeAsynchronousFIFODescriptions (g : Graph) (lengths : Fin g.nbEdges → ℤ) :
    Except SchedError (FIFODescriptions g) :=
  match reusedName [] (customNames g) with
  | some name => .error (.cannotReuseCustomBuffer name)
  | none =>
      match (List.finRange g.nbEdges).find? fun e =>
          (g.edge e).customBuffer.any BufferConstraint.mustBeArray with
      | some e => .error (.customBufferMustBeArray e)
      | none => .ok (describeAsynchronous g lengths)

/-- What both modes guarantee about the buffers. -/
structure FIFODescriptions.Allocated (described : FIFODescriptions g) : Prop where
  buffer : ∀ e, (described.fifo e).bufferID = none ↔
    (described.fifo e).customBuffer.isSome = true
  shared : ∀ e o, e ≠ o → described.storage e = described.storage o →
    (described.fifo e).isArray = true ∧ (described.fifo o).isArray = true

theorem initializeAsynchronousFIFODescriptions_ok {lengths : Fin g.nbEdges → ℤ}
    {described : FIFODescriptions g}
    (ok : initializeAsynchronousFIFODescriptions g lengths = .ok described) :
    reusedName [] (customNames g) = none ∧ described = describeAsynchronous g lengths := by
  unfold initializeAsynchronousFIFODescriptions at ok
  split at ok
  · simp at ok
  · rename_i unique
    split at ok
    · simp at ok
    · exact ⟨unique, (Except.ok.inj ok).symm⟩

/-- In the asynchronous modes the FIFOs without custom buffer have different buffers. -/
theorem describeAsynchronous_buffer (lengths : Fin g.nbEdges → ℤ) :
    (∀ e, ((describeAsynchronous g lengths).fifo e).bufferID = none ↔
      (g.edge e).customBuffer.isSome = true) ∧
    ∀ e o, (g.edge e).customBuffer = none → (g.edge o).customBuffer = none →
      ((describeAsynchronous g lengths).fifo e).bufferID =
        ((describeAsynchronous g lengths).fifo o).bufferID → e = o := by
  have invariant : OwnInvariant (fun _ => false) lengths ⟨0, fun _ => none, fun _ => none⟩
    (List.finRange g.nbEdges) _ := allocateOwn_spec _
  have own : ∀ e, (g.edge e).customBuffer = none → IsOwn (g := g) (fun _ => false) e :=
    fun _ noCustom => ⟨rfl, noCustom⟩
  refine ⟨?_, ?_⟩
  · intro e
    cases custom : (g.edge e).customBuffer with
    | none =>
        rcases invariant.own e (List.mem_finRange e) (own e custom) with ⟨id, eq, -⟩
        refine iff_of_false ?_ (by simp)
        intro isNone
        exact absurd (isNone.symm.trans eq) (by simp)
    | some constraint =>
        refine iff_of_true ?_ rfl
        apply invariant.other e
        rintro ⟨-, noCustom⟩
        simp [custom] at noCustom
  · intro e o noCustom noCustom' same
    exact invariant.injective e (List.mem_finRange e) o (List.mem_finRange o) (own e noCustom)
      (own o noCustom') same

/-- In the asynchronous modes a buffer has the length of its FIFO. -/
theorem describeAsynchronous_bytesOf (lengths : Fin g.nbEdges → ℤ) {userBytes : Storage g → ℤ}
    {e : Fin g.nbEdges} (noCustom : (g.edge e).customBuffer = none) :
    (describeAsynchronous g lengths).bytesOf userBytes
      ((describeAsynchronous g lengths).storage e) = g.bytesNeeded lengths e := by
  have invariant : OwnInvariant (fun _ => false) lengths ⟨0, fun _ => none, fun _ => none⟩
    (List.finRange g.nbEdges) _ := allocateOwn_spec _
  rcases invariant.own e (List.mem_finRange e) ⟨rfl, noCustom⟩ with ⟨id, buffer, -, -, own⟩
  have isBuffer : ((describeAsynchronous g lengths).fifo e).bufferID = some id := buffer
  have isAllocated : (describeAsynchronous g lengths).storage e = .allocated id := by
    unfold FIFODescriptions.storage
    rw [show ((describeAsynchronous g lengths).fifo e).customBuffer = none from noCustom, isBuffer]
    rfl
  have isOwn : (describeAsynchronous g lengths).allBuffers id =
      some ⟨(g.edge e).bytes, lengths e⟩ := own
  rw [isAllocated, FIFODescriptions.bytesOf, isOwn]
  rfl

/-- In the asynchronous modes every FIFO has a storage of its own. -/
theorem storage_injective (given : g.CustomBuffersGiven) {lengths : Fin g.nbEdges → ℤ}
    {described : FIFODescriptions g}
    (ok : initializeAsynchronousFIFODescriptions g lengths = .ok described) {e o : Fin g.nbEdges}
    (same : described.storage e = described.storage o) : e = o := by
  rcases initializeAsynchronousFIFODescriptions_ok ok with ⟨unique, rfl⟩
  rcases describeAsynchronous_buffer lengths with ⟨isNone, injective⟩
  have customEq : ∀ k, ((describeAsynchronous g lengths).fifo k).customBuffer =
      (g.edge k).customBuffer := fun _ => rfl
  unfold FIFODescriptions.storage at same
  rw [customEq, customEq] at same
  cases eCustom : (g.edge e).customBuffer with
  | none =>
      cases oCustom : (g.edge o).customBuffer with
      | none =>
          simp only [eCustom, oCustom, Storage.allocated.injEq] at same
          have eSome := mt (isNone e).mp (by simp [eCustom])
          have oSome := mt (isNone o).mp (by simp [oCustom])
          rcases Option.ne_none_iff_exists'.mp eSome with ⟨id, eBuffer⟩
          rcases Option.ne_none_iff_exists'.mp oSome with ⟨id', oBuffer⟩
          apply injective e o eCustom oCustom
          rw [eBuffer, oBuffer] at same ⊢
          simpa using same
      | some constraint =>
          simp only [eCustom, oCustom] at same
          split_ifs at same
  | some constraint =>
      cases oCustom : (g.edge o).customBuffer with
      | none =>
          simp only [eCustom, oCustom] at same
          split_ifs at same
      | some constraint' =>
          simp only [eCustom, oCustom] at same
          split_ifs at same with eAssigned oAssigned oAssigned
          · exact Storage.assignedByNode.inj same
          · rcases given e constraint eCustom with isName | assigned
            · rcases Option.isSome_iff_exists.mp isName with ⟨name, eName⟩
              rw [Storage.named.injEq] at same
              exact customName_injective unique eCustom oCustom eName (same ▸ eName)
            · exact absurd assigned eAssigned

section Modes

variable {config : Configuration} {live : Fin g.nbEdges → Interval}
  {lengths : Fin g.nbEdges → ℤ} {maxTime : ℕ} {coloring : Coloring g}
  {described : FIFODescriptions g}

theorem allocated_of_initializeAsynchronous (given : g.CustomBuffersGiven)
    (ok : initializeAsynchronousFIFODescriptions g lengths = .ok described) :
    described.Allocated := by
  refine ⟨?_, ?_⟩
  · rcases initializeAsynchronousFIFODescriptions_ok ok with ⟨-, rfl⟩
    exact (describeAsynchronous_buffer lengths).1
  · intro e o ne same
    exact absurd (storage_injective given ok same) ne

/-- A FIFO with a custom buffer has no number of a shared buffer. -/
theorem sharedNB_of_custom {d : ColorDict g} {e : Fin g.nbEdges} {constraint : BufferConstraint}
    (custom : sharedCustomBuffer g d e = some constraint) : sharedNB g d e = none := by
  unfold sharedCustomBuffer at custom
  unfold sharedNB
  split
  · rfl
  · rename_i noCustom
    rw [noCustom] at custom
    simp only at custom
    split at custom
    · rename_i shared
      rw [shared]
    · simp at custom

theorem allocated_of_initialize (given : g.CustomBuffersGiven) (proper : ProperColoring coloring)
    (ok : initializeFIFODescriptions g coloring config live lengths maxTime = .ok described) :
    described.Allocated := by
  rcases initializeFIFODescriptions_ok ok with ⟨-, -, -, isDescribed⟩
  refine ⟨?_, ?_⟩
  · intro e
    rw [isDescribed]
    have customEq : ((describe g config lengths (colors g coloring config live lengths
        maxTime)).fifo e).customBuffer =
          sharedCustomBuffer g (colors g coloring config live lengths maxTime) e := rfl
    rw [customEq]
    cases custom : sharedCustomBuffer g (colors g coloring config live lengths maxTime) e with
    | none =>
        refine iff_of_false ?_ (by simp)
        rcases bufferID_cases (coloredArrays proper) custom with
          ⟨-, number, -, buffer⟩ | ⟨-, id, buffer, -⟩
        · simp [buffer]
        · simp [buffer]
    | some constraint =>
        refine iff_of_true ?_ rfl
        rcases describe_invariant config lengths (colors g coloring config live lengths maxTime)
          with ⟨_, invariant⟩
        have notOwn : ¬IsOwn (optimizedFIFO g config lengths) e := by
          rintro ⟨notOptimized, noCustom⟩
          rcases sharedCustomBuffer_spec custom with own | ⟨-, owner, color, mem, -⟩
          · simp [noCustom] at own
          · have isOptimized := (colors_mem proper).mp (List.mem_map_of_mem mem)
            simp [optimizedFIFO, isOptimized.1, isOptimized.2] at notOptimized
        exact (invariant.other e notOwn).trans (sharedNB_of_custom custom)
  · intro e o ne same
    rcases storage_shared given proper ok ne same with ⟨eArray, oArray, -⟩
    rw [isDescribed]
    exact ⟨eArray, oArray⟩

end Modes

end CmsisStream.Scheduler
