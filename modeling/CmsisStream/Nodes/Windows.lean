import CmsisStream.Container.Copy
import Mathlib.Algebra.BigOperators.Group.Finset.Basic
import Mathlib.Algebra.Order.Group.Int
import Mathlib.Tactic.Ring

/-!
# Sliding windows and overlap-add

`SlidingBuffer` cuts a stream into windows which overlap, and `OverlapAdd` adds
overlapping windows to a stream.  Both keep a memory of `overlap` samples between
two runs.  The memory of the first node is the end of its last window, the one of
the second node is the part of the sum which later windows can still change.
-/

namespace CmsisStream.Nodes

open ArrayCopy

/-- The parameters of both nodes, with the bound checked by `static_assert`. -/
structure WindowShape where
  windowSize : ℕ
  overlap : ℕ
  overlap_lt : overlap < windowSize

namespace WindowShape

/-- The number of samples between the starts of two windows. -/
def hop (shape : WindowShape) : ℕ := shape.windowSize - shape.overlap

theorem hop_pos (shape : WindowShape) : 0 < shape.hop :=
  Nat.sub_pos_of_lt shape.overlap_lt

theorem hop_add_overlap (shape : WindowShape) : shape.hop + shape.overlap = shape.windowSize :=
  Nat.sub_add_cancel shape.overlap_lt.le

end WindowShape

/-! ### Runs of a node with one input and one output -/

section Runs

variable {Memory α : Type} {nbIn nbOut : ℕ}

/-- The memory of a node and what it has written after some runs.  The input of a run is in
`read` and its write buffer holds `written` before the run. -/
def nodeRuns (run : Memory → List α → List α → Option (Memory × List α)) (memory : Memory)
    (read : ℕ → Vector α nbIn) (written : ℕ → Vector α nbOut) :
    ℕ → Option (Memory × List α)
  | 0 => some (memory, [])
  | n + 1 => do
      let (memory, stream) ← nodeRuns run memory read written n
      let (memory, output) ← run memory (read n).toList (written n).toList
      pure (memory, stream ++ output)

/-- When each run keeps an invariant of the memory and writes known values, so do all runs. -/
theorem nodeRuns_spec {run : Memory → List α → List α → Option (Memory × List α)}
    {memory : Memory} {read : ℕ → Vector α nbIn} {written : ℕ → Vector α nbOut}
    {P : ℕ → Memory → Prop} {value : ℕ → ℕ → α} (initial : P 0 memory)
    (step : ∀ k memory, P k memory → ∃ next output,
      run memory (read k).toList (written k).toList = some (next, output) ∧ P (k + 1) next ∧
        output.length = nbOut ∧ ∀ i < nbOut, output[i]? = some (value k i)) (n : ℕ) :
    ∃ last stream, nodeRuns run memory read written n = some (last, stream) ∧ P n last ∧
      stream.length = n * nbOut ∧
      ∀ k < n, ∀ i < nbOut, stream[k * nbOut + i]? = some (value k i) := by
  induction n with
  | zero => exact ⟨memory, [], rfl, initial, by simp, by simp⟩
  | succ n ih =>
      rcases ih with ⟨last, stream, runs, holds, length, values⟩
      rcases step n last holds with ⟨next, output, runsTo, nextHolds, outputLength, outputs⟩
      refine ⟨next, stream ++ output, ?_, nextHolds, ?_, ?_⟩
      · simp [nodeRuns, runs, runsTo]
      · rw [List.length_append, length, outputLength, Nat.succ_mul]
      · intro k kLess i iLess
        by_cases last : k = n
        · subst last
          rw [List.getElem?_append_right (by omega), length, Nat.add_sub_cancel_left]
          exact outputs i iLess
        · have before : k + 1 ≤ n := by omega
          have inside : (k + 1) * nbOut ≤ n * nbOut := Nat.mul_le_mul_right _ before
          rw [Nat.succ_mul] at inside
          rw [List.getElem?_append_left (by omega)]
          exact values k (by omega) i iLess

end Runs

/-! ### Sliding windows -/

section Sliding

variable {α : Type} (shape : WindowShape)

/-- `SlidingBuffer::run` -/
def slidingRun (memory a b : List α) : Option (List α × List α) := do
  let b ← memcpy b 0 memory 0 shape.overlap
  let b ← memcpy b shape.overlap a 0 (shape.windowSize - shape.overlap)
  let memory ← memcpy memory 0 b (shape.windowSize - shape.overlap) shape.overlap
  pure (memory, b)

variable [Zero α]

/-- `SlidingBuffer` executed some times; the constructor resizes the memory. -/
def slidingRuns (read : ℕ → Vector α shape.hop) (written : ℕ → Vector α shape.windowSize) :
    ℕ → Option (List α × List α) :=
  nodeRuns (slidingRun shape) (List.replicate shape.overlap 0) read written

/-- The samples of the input stream, which is zero before its start. -/
def streamSample (read : ℕ → Vector α shape.hop) (j : ℤ) : α :=
  if j < 0 then 0 else (read (j.toNat / shape.hop)).toList.getD (j.toNat % shape.hop) 0

variable {shape} {read : ℕ → Vector α shape.hop}

theorem streamSample_of_neg {j : ℤ} (negative : j < 0) : streamSample shape read j = 0 :=
  if_pos negative

/-- The samples of the frame read by a run. -/
theorem getElem?_read (k : ℕ) {i : ℕ} (inFrame : i < shape.hop) :
    (read k).toList[i]? = some (streamSample shape read ((k * shape.hop + i : ℕ) : ℤ)) := by
  have notNegative : ¬ ((k * shape.hop + i : ℕ) : ℤ) < 0 := by omega
  have frame : (k * shape.hop + i) / shape.hop = k := by
    rw [Nat.mul_comm, Nat.mul_add_div shape.hop_pos, Nat.div_eq_of_lt inFrame, Nat.add_zero]
  have position : (k * shape.hop + i) % shape.hop = i := by
    rw [Nat.mul_comm, Nat.mul_add_mod, Nat.mod_eq_of_lt inFrame]
  rw [streamSample, if_neg notNegative, Int.toNat_natCast, frame, position,
    List.getD_eq_getElem?_getD]
  have inside : i < (read k).toList.length := by simpa using inFrame
  rw [List.getElem?_eq_getElem inside, Option.getD_some]

/-- The memory holds the samples in front of the next frame. -/
def SlidingMemory (read : ℕ → Vector α shape.hop) (k : ℕ) (memory : List α) : Prop :=
  memory.length = shape.overlap ∧ ∀ i < shape.overlap,
    memory[i]? = some (streamSample shape read (k * shape.hop - shape.overlap + i))

/-- A run writes the next window and keeps its end. -/
theorem slidingRun_spec (k : ℕ) {memory : List α} (holds : SlidingMemory read k memory)
    (b : Vector α shape.windowSize) :
    ∃ next output, slidingRun shape memory (read k).toList b.toList = some (next, output) ∧
      SlidingMemory read (k + 1) next ∧ output.length = shape.windowSize ∧
      ∀ i < shape.windowSize, output[i]? =
        some (streamSample shape read (k * shape.hop - shape.overlap + i)) := by
  have sizes := shape.hop_add_overlap
  have memoryLength := holds.1
  have frame : (read k).toList.length = shape.hop := by simp
  have window : b.toList.length = shape.windowSize := by simp
  rcases memcpy_spec (show 0 + shape.overlap ≤ b.toList.length by omega)
    (show 0 + shape.overlap ≤ memory.length by omega) with
    ⟨started, firstCopy, startedLength, startedItems, -, -⟩
  rcases memcpy_spec (show shape.overlap + shape.hop ≤ started.length by omega)
    (show 0 + shape.hop ≤ (read k).toList.length by omega) with
    ⟨output, secondCopy, outputLength, outputItems, outputKept, -⟩
  rcases memcpy_spec (show 0 + shape.overlap ≤ memory.length by omega)
    (show shape.hop + shape.overlap ≤ output.length by omega) with
    ⟨next, thirdCopy, nextLength, nextItems, -, -⟩
  have values : ∀ i < shape.windowSize, output[i]? =
      some (streamSample shape read (k * shape.hop - shape.overlap + i)) := by
    intro i inWindow
    by_cases inMemory : i < shape.overlap
    · have copied := startedItems i inMemory
      rw [Nat.zero_add] at copied
      rw [outputKept i inMemory, copied, holds.2 i inMemory]
    · rcases Nat.exists_eq_add_of_le (Nat.le_of_not_lt inMemory) with ⟨j, rfl⟩
      rw [outputItems j (by omega), Nat.zero_add, getElem?_read k (by omega)]
      congr 2
      push_cast
      omega
  refine ⟨next, output, ?_, ⟨by omega, ?_⟩, by omega, values⟩
  · change (memcpy _ _ _ _ _ >>= _) = _
    rw [firstCopy]
    change (memcpy _ _ _ _ shape.hop >>= _) = _
    rw [secondCopy]
    change (memcpy _ _ _ shape.hop _ >>= _) = _
    rw [thirdCopy]
    rfl
  · intro i inMemory
    have copied := nextItems i inMemory
    rw [Nat.zero_add] at copied
    rw [copied, values _ (by omega)]
    congr 2
    push_cast
    ring

/-- The windows written by `SlidingBuffer`: window `k` has the samples of the input stream
from `k * hop - overlap` on. -/
theorem slidingRuns_windows (read : ℕ → Vector α shape.hop)
    (written : ℕ → Vector α shape.windowSize) (n : ℕ) :
    ∃ memory stream, slidingRuns shape read written n = some (memory, stream) ∧
      stream.length = n * shape.windowSize ∧
      ∀ k < n, ∀ i < shape.windowSize, stream[k * shape.windowSize + i]? =
        some (streamSample shape read (k * shape.hop - shape.overlap + i)) := by
  have initial : SlidingMemory read 0 (List.replicate shape.overlap (0 : α)) := by
    refine ⟨List.length_replicate, ?_⟩
    intro i inMemory
    rw [streamSample_of_neg (by push_cast; omega)]
    simp [inMemory]
  rcases nodeRuns_spec initial
    (fun k memory holds => slidingRun_spec k holds (written k)) n with
    ⟨memory, stream, runs, -, length, values⟩
  exact ⟨memory, stream, runs, length, values⟩

end Sliding

/-! ### Overlap-add -/

section OverlapAdd

variable {α : Type} (shape : WindowShape)

/-- `OverlapAdd::run` -/
def overlapAddRun [Add α] (memory a b : List α) : Option (List α × List α) := do
  let memory ← combineInto (fun x y => x + y) a shape.overlap memory
  if 2 * shape.overlap > shape.windowSize then do
    let b ← memcpy b 0 memory 0 (shape.windowSize - shape.overlap)
    let memory ← memcpy memory 0 memory (shape.windowSize - shape.overlap)
      (2 * shape.overlap - shape.windowSize)
    let memory ← memcpy memory (2 * shape.overlap - shape.windowSize) a shape.overlap
      (shape.windowSize - shape.overlap)
    pure (memory, b)
  else if 2 * shape.overlap < shape.windowSize then do
    let b ← memcpy b 0 memory 0 shape.overlap
    let b ← memcpy b shape.overlap a shape.overlap (shape.windowSize - 2 * shape.overlap)
    let memory ← memcpy memory 0 a (shape.windowSize - shape.overlap) shape.overlap
    pure (memory, b)
  else do
    let b ← memcpy b 0 memory 0 shape.overlap
    let memory ← memcpy memory 0 a shape.overlap shape.overlap
    pure (memory, b)

variable [AddCommMonoid α]

/-- `OverlapAdd` executed some times; the constructor resizes the memory. -/
def overlapAddRuns (read : ℕ → Vector α shape.windowSize) (written : ℕ → Vector α shape.hop) :
    ℕ → Option (List α × List α) :=
  nodeRuns (overlapAddRun shape) (List.replicate shape.overlap 0) read written

/-- What the frame `k` adds to the sample `j` of the output stream. -/
def frameSample (read : ℕ → Vector α shape.windowSize) (k j : ℕ) : α :=
  if k * shape.hop ≤ j then (read k).toList.getD (j - k * shape.hop) 0 else 0

/-- The sum of the first `n` frames at the sample `j` of the output stream. -/
def overlapSum (read : ℕ → Vector α shape.windowSize) (n j : ℕ) : α :=
  ∑ k ∈ Finset.range n, frameSample shape read k j

variable {shape} {read : ℕ → Vector α shape.windowSize}

theorem frameSample_of_lt {k j : ℕ} (before : j < k * shape.hop) :
    frameSample shape read k j = 0 :=
  if_neg (by omega)

theorem frameSample_of_end {k j : ℕ} (after : k * shape.hop + shape.windowSize ≤ j) :
    frameSample shape read k j = 0 := by
  rw [frameSample, if_pos (by omega), List.getD_eq_getElem?_getD, List.getElem?_eq_none]
  · rfl
  · rw [Vector.length_toList]
    omega

/-- The items of the frame read by a run. -/
theorem getElem?_frame (k : ℕ) {i : ℕ} (inFrame : i < shape.windowSize) :
    (read k).toList[i]? = some (frameSample shape read k (k * shape.hop + i)) := by
  have inside : i < (read k).toList.length := by simpa using inFrame
  rw [frameSample, if_pos (by omega), Nat.add_sub_cancel_left, List.getD_eq_getElem?_getD,
    List.getElem?_eq_getElem inside, Option.getD_some]

/-- The frames before the last ones do not reach the samples past the memory. -/
theorem overlapSum_of_overlap_le {n i : ℕ} (past : shape.overlap ≤ i) :
    overlapSum shape read n (n * shape.hop + i) = 0 := by
  apply Finset.sum_eq_zero
  intro k kMem
  apply frameSample_of_end
  have earlier : (k + 1) * shape.hop ≤ n * shape.hop :=
    Nat.mul_le_mul_right _ (Finset.mem_range.mp kMem)
  have sizes := shape.hop_add_overlap
  rw [Nat.succ_mul] at earlier
  omega

theorem overlapSum_succ (n j : ℕ) :
    overlapSum shape read (n + 1) j = overlapSum shape read n j + frameSample shape read n j :=
  Finset.sum_range_succ _ _

/-- Past the memory the sum only has the last frame. -/
theorem overlapSum_last {n i : ℕ} (past : shape.overlap ≤ i) :
    overlapSum shape read (n + 1) (n * shape.hop + i) =
      frameSample shape read n (n * shape.hop + i) := by
  rw [overlapSum_succ, overlapSum_of_overlap_le past, zero_add]

/-- The memory holds the sum of the frames read so far, from the next output sample on. -/
def PartialSum (read : ℕ → Vector α shape.windowSize) (n : ℕ) (memory : List α) : Prop :=
  memory.length = shape.overlap ∧ ∀ i < shape.overlap,
    memory[i]? = some (overlapSum shape read n (n * shape.hop + i))

/-- The memory after the loop at the beginning of a run. -/
theorem combineInto_partialSum {n : ℕ} {memory : List α} (holds : PartialSum read n memory) :
    ∃ summed, combineInto (fun x y => x + y) (read n).toList shape.overlap memory = some summed ∧
      summed.length = shape.overlap ∧ ∀ i < shape.overlap,
        summed[i]? = some (overlapSum shape read (n + 1) (n * shape.hop + i)) := by
  have sizes := shape.hop_add_overlap
  have frame : (read n).toList.length = shape.windowSize := by simp
  rcases combineInto_spec (fun x y : α => x + y)
    (show shape.overlap ≤ (read n).toList.length by omega) holds.1.ge with
    ⟨summed, run, length, changed, -⟩
  refine ⟨summed, run, length.trans holds.1, ?_⟩
  intro i inMemory
  rw [changed i inMemory _ _ (getElem?_frame n (by omega)) (holds.2 i inMemory),
    overlapSum_succ, add_comm]

/-- The items of a frame past the memory are the values of the sum. -/
theorem getElem?_frame_past (n : ℕ) {i : ℕ} (past : shape.overlap ≤ i)
    (inFrame : i < shape.windowSize) :
    (read n).toList[i]? = some (overlapSum shape read (n + 1) (n * shape.hop + i)) := by
  rw [overlapSum_last past, getElem?_frame n inFrame]

/-- A run writes the samples which no later frame reaches, and keeps the others. -/
theorem overlapAddRun_spec (n : ℕ) {memory : List α} (holds : PartialSum read n memory)
    (b : Vector α shape.hop) :
    ∃ next output, overlapAddRun shape memory (read n).toList b.toList = some (next, output) ∧
      PartialSum read (n + 1) next ∧ output.length = shape.hop ∧
      ∀ i < shape.hop, output[i]? = some (overlapSum shape read (n + 1) (n * shape.hop + i)) := by
  have sizes := shape.hop_add_overlap
  have frame : (read n).toList.length = shape.windowSize := by simp
  have room : b.toList.length = shape.hop := by simp
  rcases combineInto_partialSum holds with ⟨summed, looped, summedLength, sums⟩
  -- sample `i` of the next memory is sample `hop + i` counted from this run
  have shifted : ∀ i, (n + 1) * shape.hop + i = n * shape.hop + (shape.hop + i) := by
    intro i
    ring
  unfold overlapAddRun
  rw [looped]
  simp only [Option.bind_eq_bind, Option.bind_some]
  by_cases large : 2 * shape.overlap > shape.windowSize
  · rw [if_pos large]
    rcases memcpy_spec (show 0 + shape.hop ≤ b.toList.length by omega)
      (show 0 + shape.hop ≤ summed.length by omega) with
      ⟨output, firstCopy, outputLength, outputItems, -, -⟩
    rcases memcpy_spec (show 0 + (2 * shape.overlap - shape.windowSize) ≤ summed.length by omega)
      (show shape.hop + (2 * shape.overlap - shape.windowSize) ≤ summed.length by omega) with
      ⟨moved, secondCopy, movedLength, movedItems, -, -⟩
    rcases memcpy_spec
      (show 2 * shape.overlap - shape.windowSize + shape.hop ≤ moved.length by omega)
      (show shape.overlap + shape.hop ≤ (read n).toList.length by omega) with
      ⟨next, thirdCopy, nextLength, nextItems, nextKept, -⟩
    refine ⟨next, output, ?_, ⟨by omega, ?_⟩, by omega, ?_⟩
    · change (memcpy _ _ _ _ shape.hop >>= _) = _
      rw [firstCopy]
      change (memcpy _ _ _ shape.hop _ >>= _) = _
      rw [secondCopy]
      change (memcpy _ _ _ _ shape.hop >>= _) = _
      rw [thirdCopy]
      rfl
    · intro i inMemory
      rw [shifted]
      by_cases old : i < 2 * shape.overlap - shape.windowSize
      · have item := movedItems i old
        rw [Nat.zero_add] at item
        rw [nextKept i old, item]
        exact sums _ (by omega)
      · rcases Nat.exists_eq_add_of_le (Nat.le_of_not_lt old) with ⟨j, rfl⟩
        rw [nextItems j (by omega), getElem?_frame_past n (by omega) (by omega)]
        congr 2
        omega
    · intro i inOutput
      have item := outputItems i inOutput
      rw [Nat.zero_add] at item
      rw [item]
      exact sums i (by omega)
  · rw [if_neg large]
    rcases memcpy_spec (show 0 + shape.overlap ≤ b.toList.length by omega)
      (show 0 + shape.overlap ≤ summed.length by omega) with
      ⟨started, firstCopy, startedLength, startedItems, -, -⟩
    by_cases small : 2 * shape.overlap < shape.windowSize
    · rw [if_pos small]
      rcases memcpy_spec
        (show shape.overlap + (shape.windowSize - 2 * shape.overlap) ≤ started.length by omega)
        (show shape.overlap + (shape.windowSize - 2 * shape.overlap) ≤ (read n).toList.length
          by omega) with
        ⟨output, secondCopy, outputLength, outputItems, outputKept, -⟩
      rcases memcpy_spec (show 0 + shape.overlap ≤ summed.length by omega)
        (show shape.hop + shape.overlap ≤ (read n).toList.length by omega) with
        ⟨next, thirdCopy, nextLength, nextItems, -, -⟩
      refine ⟨next, output, ?_, ⟨by omega, ?_⟩, by omega, ?_⟩
      · change (memcpy _ _ _ _ _ >>= _) = _
        rw [firstCopy]
        change (memcpy _ _ _ _ _ >>= _) = _
        rw [secondCopy]
        change (memcpy _ _ _ shape.hop _ >>= _) = _
        rw [thirdCopy]
        rfl
      · intro i inMemory
        have item := nextItems i inMemory
        rw [Nat.zero_add] at item
        rw [shifted, item]
        exact getElem?_frame_past n (by omega) (by omega)
      · intro i inOutput
        by_cases inMemory : i < shape.overlap
        · have item := startedItems i inMemory
          rw [Nat.zero_add] at item
          rw [outputKept i inMemory, item]
          exact sums i inMemory
        · rcases Nat.exists_eq_add_of_le (Nat.le_of_not_lt inMemory) with ⟨j, rfl⟩
          rw [outputItems j (by omega)]
          exact getElem?_frame_past n (by omega) (by omega)
    · rw [if_neg small]
      rcases memcpy_spec (show 0 + shape.overlap ≤ summed.length by omega)
        (show shape.overlap + shape.overlap ≤ (read n).toList.length by omega) with
        ⟨next, secondCopy, nextLength, nextItems, -, -⟩
      refine ⟨next, started, ?_, ⟨by omega, ?_⟩, by omega, ?_⟩
      · change (memcpy _ _ _ _ _ >>= _) = _
        rw [firstCopy]
        change (memcpy _ _ _ _ _ >>= _) = _
        rw [secondCopy]
        rfl
      · intro i inMemory
        have item := nextItems i inMemory
        rw [Nat.zero_add] at item
        rw [shifted, item, getElem?_frame_past n (by omega) (by omega)]
        congr 2
        omega
      · intro i inOutput
        have item := startedItems i (by omega)
        rw [Nat.zero_add] at item
        rw [item]
        exact sums i (by omega)

/-- The output stream of `OverlapAdd`: its sample `j` is the sum of what the frames add there. -/
theorem overlapAddRuns_sum (read : ℕ → Vector α shape.windowSize)
    (written : ℕ → Vector α shape.hop) (n : ℕ) :
    ∃ memory stream, overlapAddRuns shape read written n = some (memory, stream) ∧
      stream.length = n * shape.hop ∧
      ∀ j < n * shape.hop,
        stream[j]? = some (∑ k ∈ Finset.range n, frameSample shape read k j) := by
  have initial : PartialSum read 0 (List.replicate shape.overlap (0 : α)) := by
    refine ⟨List.length_replicate, ?_⟩
    intro i inMemory
    simp [overlapSum, inMemory]
  rcases nodeRuns_spec initial
    (fun k memory holds => overlapAddRun_spec k holds (written k)) n with
    ⟨memory, stream, runs, -, length, values⟩
  refine ⟨memory, stream, runs, length, ?_⟩
  intro j inStream
  have written := values (j / shape.hop) (Nat.div_lt_of_lt_mul (by rwa [Nat.mul_comm]))
    (j % shape.hop) (Nat.mod_lt _ shape.hop_pos)
  rw [Nat.mul_comm, Nat.div_add_mod] at written
  rw [written]
  congr 1
  apply Finset.sum_subset
  · intro k kMem
    have less := Finset.mem_range.mp kMem
    have runsLess : j / shape.hop < n := Nat.div_lt_of_lt_mul (by rwa [Nat.mul_comm])
    exact Finset.mem_range.mpr (by omega)
  · -- later frames start after the sample
    intro k _ notMem
    apply frameSample_of_lt
    rw [Finset.mem_range, not_lt] at notMem
    exact (Nat.div_lt_iff_lt_mul shape.hop_pos).mp notMem

end OverlapAdd

end CmsisStream.Nodes
