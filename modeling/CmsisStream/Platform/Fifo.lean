import Mathlib.Algebra.Order.Group.Int
import Mathlib.Data.List.Basic
import Mathlib.Logic.Function.Basic
import Mathlib.Tactic.Ring

/-!
# The synchronous FIFOs of the C++ platform

`FIFO<T,length,0,0>` keeps a read and a write position in its buffer, and moves
the samples to the start of the buffer before each write.  `FIFO<T,length,1,0>`
has no position and always returns the base pointer.  A pointer is an offset
from the base of the buffer, and the memory around the buffer is a function of
this offset.
-/

namespace CmsisStream.Platform

universe u

variable {α : Type u}

/-- Samples in memory, by their offset from the base of a buffer. -/
abbrev Memory (α : Type u) := ℤ → α

namespace Memory

/-- `memcpy` of `count` samples to the base of the buffer, for ranges without overlap. -/
def memcpy (memory : Memory α) (src count : ℤ) : Memory α := fun i =>
  if 0 ≤ i ∧ i < count then memory (src + i) else memory i

/-- Write a block of samples at an offset. -/
def store (memory : Memory α) (offset : ℤ) (block : List α) : Memory α := fun i =>
  if offset ≤ i then (block[(i - offset).toNat]?).getD (memory i) else memory i

/-- The `nb` samples at an offset. -/
def load (memory : Memory α) (offset : ℤ) (nb : ℕ) : List α :=
  (List.range nb).map fun i : ℕ => memory (offset + i)

theorem store_apply_of_lt (memory : Memory α) (offset : ℤ) {block : List α} {i : ℕ}
    (lt : i < block.length) : memory.store offset block (offset + i) = block[i] := by
  have index : (offset + i - offset).toNat = i := by omega
  rw [store, if_pos (by omega), index, List.getElem?_eq_getElem lt, Option.getD_some]

@[simp]
theorem load_store (memory : Memory α) (offset : ℤ) (block : List α) :
    (memory.store offset block).load offset block.length = block := by
  apply List.ext_getElem
  · simp [load]
  · intro i lt lt'
    simp only [load, List.getElem_map, List.getElem_range]
    exact store_apply_of_lt memory offset lt'

end Memory

/-- `FIFO<T,length,0,0>` -/
structure SyncFIFO (α : Type u) where
  mBuffer : Memory α
  readPos : ℤ
  writePos : ℤ

namespace SyncFIFO

/-- The constructor, for a buffer with some content. -/
def mk' (buffer : Memory α) (delay : ℤ) : SyncFIFO α := ⟨buffer, 0, delay⟩

/-- `getWriteBuffer`: the write pointer and the new state. -/
def getWriteBuffer (fifo : SyncFIFO α) (nb : ℤ) : ℤ × SyncFIFO α :=
  let aligned : SyncFIFO α :=
    if 0 < fifo.readPos then
      { mBuffer := fifo.mBuffer.memcpy fifo.readPos (fifo.writePos - fifo.readPos)
        readPos := 0
        writePos := fifo.writePos - fifo.readPos }
    else fifo
  (aligned.writePos, { aligned with writePos := aligned.writePos + nb })

/-- `getReadBuffer`: the read pointer and the new state. -/
def getReadBuffer (fifo : SyncFIFO α) (nb : ℤ) : ℤ × SyncFIFO α :=
  (fifo.readPos, { fifo with readPos := fifo.readPos + nb })

/-- A node writes a whole block through the write pointer. -/
def write (fifo : SyncFIFO α) (block : List α) : SyncFIFO α :=
  let next := (fifo.getWriteBuffer block.length).2
  { next with mBuffer := next.mBuffer.store (fifo.getWriteBuffer block.length).1 block }

/-- A node reads a block through the read pointer. -/
def read (fifo : SyncFIFO α) (nb : ℕ) : List α × SyncFIFO α :=
  (fifo.mBuffer.load (fifo.getReadBuffer nb).1 nb, (fifo.getReadBuffer nb).2)

end SyncFIFO

/-- `FIFO<T,length,1,0>` -/
structure ArrayFIFO (α : Type u) where
  mBuffer : Memory α

namespace ArrayFIFO

/-- `getWriteBuffer`: always the base pointer. -/
def getWriteBuffer (_fifo : ArrayFIFO α) (_nb : ℤ) : ℤ := 0

/-- `getReadBuffer`: always the base pointer. -/
def getReadBuffer (_fifo : ArrayFIFO α) (_nb : ℤ) : ℤ := 0

/-- A node writes a whole block through the write pointer. -/
def write (fifo : ArrayFIFO α) (block : List α) : ArrayFIFO α :=
  ⟨fifo.mBuffer.store (fifo.getWriteBuffer block.length) block⟩

/-- A node reads a block through the read pointer. -/
def read (fifo : ArrayFIFO α) (nb : ℕ) : List α :=
  fifo.mBuffer.load (fifo.getReadBuffer nb) nb

end ArrayFIFO

/-- One use of a FIFO by a node. -/
inductive Access (α : Type u) where
  | write (block : List α)
  | read (nb : ℕ)

/-- The blocks read from a `FIFO<T,length,0,0>`. -/
def SyncFIFO.reads : SyncFIFO α → List (Access α) → List (List α)
  | _, [] => []
  | fifo, .write block :: accesses => (fifo.write block).reads accesses
  | fifo, .read nb :: accesses => (fifo.read nb).1 :: (fifo.read nb).2.reads accesses

/-- The blocks read from a `FIFO<T,length,1,0>`. -/
def ArrayFIFO.reads : ArrayFIFO α → List (Access α) → List (List α)
  | _, [] => []
  | fifo, .write block :: accesses => (fifo.write block).reads accesses
  | fifo, .read nb :: accesses => fifo.read nb :: fifo.reads accesses

/-- Each block is written and then read. -/
def alternating (blocks : List (List α)) : List (Access α) :=
  blocks.flatMap fun block => [.write block, .read block.length]

/-- The array FIFO reads back each block which is written and then read. -/
theorem ArrayFIFO.reads_alternating (blocks : List (List α)) (fifo : ArrayFIFO α) :
    fifo.reads (alternating blocks) = blocks := by
  induction blocks generalizing fifo with
  | nil => rfl
  | cons block blocks ih =>
      change (fifo.write block).read block.length ::
        (fifo.write block).reads (alternating blocks) = block :: blocks
      rw [ih]
      congr 1
      exact Memory.load_store _ _ _

/-- A block written to an empty FIFO goes to the start of the buffer. -/
theorem SyncFIFO.getWriteBuffer_of_empty {fifo : SyncFIFO α} (nonneg : 0 ≤ fifo.readPos)
    (empty : fifo.writePos = fifo.readPos) (nb : ℤ) :
    (fifo.getWriteBuffer nb).1 = 0 ∧ (fifo.getWriteBuffer nb).2.readPos = 0 ∧
      (fifo.getWriteBuffer nb).2.writePos = nb := by
  unfold SyncFIFO.getWriteBuffer
  split_ifs with moved
  · simp [empty]
  · have zero : fifo.readPos = 0 := le_antisymm (not_lt.mp moved) nonneg
    simp [empty, zero]

/-- The queue reads back each block which is written and then read. -/
theorem SyncFIFO.reads_alternating (blocks : List (List α)) {fifo : SyncFIFO α}
    (nonneg : 0 ≤ fifo.readPos) (empty : fifo.writePos = fifo.readPos) :
    fifo.reads (alternating blocks) = blocks := by
  induction blocks generalizing fifo with
  | nil => rfl
  | cons block blocks ih =>
      obtain ⟨offset, readPos, writePos⟩ :=
        getWriteBuffer_of_empty nonneg empty (block.length : ℤ)
      have written : (fifo.write block).readPos = 0 ∧
          (fifo.write block).writePos = block.length := ⟨readPos, writePos⟩
      change ((fifo.write block).read block.length).1 ::
        ((fifo.write block).read block.length).2.reads (alternating blocks) = block :: blocks
      rw [ih]
      · congr 1
        simp only [read, getReadBuffer, written.1]
        simp only [write, offset]
        exact Memory.load_store _ _ _
      · simp [read, getReadBuffer, written.1]
      · simp [read, getReadBuffer, written.1, written.2]

end CmsisStream.Platform
