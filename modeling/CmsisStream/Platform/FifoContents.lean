import CmsisStream.Platform.Fifo

/-!
# The samples in a FIFO

The samples between the positions of a FIFO are a queue: a write adds its block
at the end, wherever the samples are moved before, and a read takes its samples
from the front.  The asynchronous `FIFO<T,length,0,1>` has the same positions and
moves its samples in the same way, so this also holds of it.
-/

namespace CmsisStream.Platform

universe u

variable {α : Type u}

namespace Memory

/-- `std::fill_n` of `count` samples from the base of the buffer. -/
def fill (memory : Memory α) (count : ℤ) (x : α) : Memory α := fun i =>
  if 0 ≤ i ∧ i < count then x else memory i

@[simp]
theorem length_load (memory : Memory α) (offset : ℤ) (nb : ℕ) :
    (memory.load offset nb).length = nb := by
  simp [load]

/-- Two ranges with the same samples. -/
theorem load_congr {memory memory' : Memory α} {offset offset' : ℤ} {nb : ℕ}
    (same : ∀ i : ℕ, i < nb → memory (offset + i) = memory' (offset' + i)) :
    memory.load offset nb = memory'.load offset' nb := by
  apply List.map_congr_left
  intro i mem
  exact same i (List.mem_range.mp mem)

/-- A range is its first samples and then the others. -/
theorem load_add (memory : Memory α) (offset : ℤ) (nb more : ℕ) :
    memory.load offset (nb + more) = memory.load offset nb ++ memory.load (offset + nb) more := by
  simp only [load, List.range_add, List.map_append, List.map_map]
  congr 1
  apply List.map_congr_left
  intro i _
  simp [add_assoc]

/-- The samples before the block which is written. -/
theorem load_store_of_le (memory : Memory α) {offset : ℤ} {nb : ℕ} (le : (nb : ℤ) ≤ offset)
    (block : List α) : (memory.store offset block).load 0 nb = memory.load 0 nb := by
  apply load_congr
  intro i below
  rw [store, if_neg (by omega)]

theorem load_memcpy (memory : Memory α) (src : ℤ) (nb : ℕ) :
    (memory.memcpy src nb).load 0 nb = memory.load src nb := by
  apply load_congr
  intro i below
  rw [memcpy, if_pos (by omega), zero_add]

theorem load_fill {memory : Memory α} {count : ℤ} {nb : ℕ} (le : (nb : ℤ) ≤ count) (x : α) :
    (memory.fill count x).load 0 nb = List.replicate nb x := by
  apply List.eq_replicate_iff.mpr
  refine ⟨length_load _ _ _, ?_⟩
  intro y mem
  rcases List.mem_map.mp mem with ⟨i, inRange, rfl⟩
  have below := List.mem_range.mp inRange
  rw [fill, if_pos (by omega)]

/-- Writing the samples which are there changes nothing. -/
theorem store_load (memory : Memory α) (offset : ℤ) (nb : ℕ) :
    memory.store offset (memory.load offset nb) = memory := by
  funext i
  unfold store
  split_ifs with above
  · by_cases inBlock : (i - offset).toNat < nb
    · have index : offset + (i - offset).toNat = i := by omega
      rw [List.getElem?_eq_getElem (by simpa using inBlock), Option.getD_some]
      simp only [load, List.getElem_map, List.getElem_range, index]
    · rw [List.getElem?_eq_none (by simpa using inBlock), Option.getD_none]
  · rfl

/-- Writing a block a second time changes nothing. -/
theorem store_store (memory : Memory α) (offset : ℤ) (block : List α) :
    (memory.store offset block).store offset block = memory.store offset block := by
  have written := store_load (memory.store offset block) offset block.length
  rwa [load_store] at written

end Memory

namespace SyncFIFO

/-- `nbSamplesInFIFO` -/
def nbSamplesInFIFO (fifo : SyncFIFO α) : ℤ := fifo.writePos - fifo.readPos

/-- `reset` -/
def reset (fifo : SyncFIFO α) (delay : ℤ) : SyncFIFO α :=
  { fifo with readPos := 0, writePos := delay }

/-- The samples between the positions. -/
def contents (fifo : SyncFIFO α) : List α :=
  fifo.mBuffer.load fifo.readPos fifo.nbSamplesInFIFO.toNat

/-- The positions are in order. -/
structure Ordered (fifo : SyncFIFO α) : Prop where
  nonneg : 0 ≤ fifo.readPos
  le : fifo.readPos ≤ fifo.writePos

variable {fifo : SyncFIFO α}

/-- A FIFO with ordered positions, with the number of its samples. -/
theorem Ordered.exists_length (ordered : fifo.Ordered) :
    ∃ nb : ℕ, fifo.writePos = fifo.readPos + nb ∧ fifo.nbSamplesInFIFO = nb ∧
      fifo.contents = fifo.mBuffer.load fifo.readPos nb := by
  have le := ordered.le
  refine ⟨(fifo.writePos - fifo.readPos).toNat, by omega, ?_, rfl⟩
  rw [nbSamplesInFIFO]
  omega

theorem Ordered.length_contents (ordered : fifo.Ordered) :
    (fifo.contents.length : ℤ) = fifo.nbSamplesInFIFO := by
  rcases ordered.exists_length with ⟨nb, -, number, contents⟩
  rw [contents, number, Memory.length_load]

/-- The state after a write: the samples are at the start of the buffer. -/
theorem Ordered.write_eq (ordered : fifo.Ordered) (block : List α) :
    ∃ (nb : ℕ) (memory : Memory α), fifo.contents = memory.load 0 nb ∧
      fifo.write block = ⟨memory.store nb block, 0, nb + block.length⟩ := by
  rcases ordered.exists_length with ⟨nb, writePos, -, contents⟩
  have number : fifo.writePos - fifo.readPos = nb := by omega
  by_cases moved : 0 < fifo.readPos
  · refine ⟨nb, fifo.mBuffer.memcpy fifo.readPos nb, ?_, ?_⟩
    · rw [contents, Memory.load_memcpy]
    · simp only [write, getWriteBuffer, if_pos moved, number]
  · have zero : fifo.readPos = 0 := le_antisymm (not_lt.mp moved) ordered.nonneg
    rw [zero, zero_add] at writePos
    refine ⟨nb, fifo.mBuffer, by rw [contents, zero], ?_⟩
    simp [write, getWriteBuffer, writePos, zero]

/-- A write adds its block at the end. -/
theorem contents_write (ordered : fifo.Ordered) (block : List α) :
    (fifo.write block).contents = fifo.contents ++ block := by
  rcases ordered.write_eq block with ⟨nb, memory, contents, written⟩
  have number : ((nb : ℤ) + block.length - 0).toNat = nb + block.length := by omega
  rw [written, contents]
  simp only [SyncFIFO.contents, nbSamplesInFIFO, number]
  rw [Memory.load_add, Memory.load_store_of_le _ le_rfl, zero_add, Memory.load_store]

theorem Ordered.write (ordered : fifo.Ordered) (block : List α) : (fifo.write block).Ordered := by
  rcases ordered.write_eq block with ⟨nb, memory, -, written⟩
  rw [written]
  refine ⟨le_rfl, ?_⟩
  change (0 : ℤ) ≤ nb + block.length
  omega

/-- A read takes its samples from the front. -/
theorem contents_read (ordered : fifo.Ordered) {nb : ℕ} (enough : nb ≤ fifo.contents.length) :
    (fifo.read nb).1 = fifo.contents.take nb ∧
      (fifo.read nb).2.contents = fifo.contents.drop nb ∧ (fifo.read nb).2.Ordered := by
  rcases ordered.exists_length with ⟨total, writePos, -, contents⟩
  rw [contents, Memory.length_load] at enough
  rcases Nat.exists_eq_add_of_le enough with ⟨left, rfl⟩
  have number : (fifo.read nb).2.nbSamplesInFIFO.toNat = left := by
    simp only [read, getReadBuffer, nbSamplesInFIFO, writePos]
    omega
  have split := fifo.mBuffer.load_add fifo.readPos nb left
  refine ⟨?_, ?_, ?_⟩
  · rw [contents, split, List.take_left' (Memory.length_load _ _ _)]
    rfl
  · rw [contents, split, List.drop_left' (Memory.length_load _ _ _), SyncFIFO.contents, number]
    rfl
  · have nonneg := ordered.nonneg
    refine ⟨?_, ?_⟩
    · simp only [read, getReadBuffer]
      omega
    · simp only [read, getReadBuffer, writePos]
      omega

end SyncFIFO

end CmsisStream.Platform
