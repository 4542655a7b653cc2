import CmsisStream.Platform.FifoContents
import Mathlib.Data.List.Induction

/-!
# The positions of a FIFO

The number of samples in a FIFO only depends on the sizes of the blocks which are
written and read.  While it stays between zero and the length of the FIFO, the
positions and the windows which are returned stay inside the buffer, and the
samples read are the first ones of those written.  The tests of a node before it
runs keep the number of samples in these bounds.
-/

namespace CmsisStream.Platform

universe u

variable {α : Type u}

/-- An `int` operation; when it overflows it has no defined result. -/
def intResult (x : ℤ) : Option ℤ := if -2 ^ 31 ≤ x ∧ x < 2 ^ 31 then some x else none

theorem intResult_eq_some {x y : ℤ} (eq : intResult x = some y) : y = x := by
  unfold intResult at eq
  split_ifs at eq
  exact (Option.some.inj eq).symm

/-- The size of a block which is written or read. -/
inductive Transfer where
  | write (nb : ℕ)
  | read (nb : ℕ)
deriving DecidableEq

/-- What a transfer adds to the number of samples. -/
def Transfer.change : Transfer → ℤ
  | .write nb => nb
  | .read nb => -nb

/-- The size of the block of an access. -/
def Access.transfer : Access α → Transfer
  | .write block => .write block.length
  | .read nb => .read nb

/-- An access which writes the same sample everywhere in its block. -/
def Transfer.access (sample : α) : Transfer → Access α
  | .write nb => .write (List.replicate nb sample)
  | .read nb => .read nb

/-- The samples in a FIFO after some transfers. -/
def samplesAfter (delay : ℤ) (transfers : List Transfer) : ℤ :=
  delay + (transfers.map Transfer.change).sum

/-- The samples read after the last write. -/
def readSinceWrite (transfers : List Transfer) : ℤ :=
  transfers.foldl (fun nb transfer => match transfer with
    | .write _ => 0
    | .read more => nb + more) 0

@[simp]
theorem samplesAfter_singleton (delay : ℤ) (transfer : Transfer) :
    samplesAfter delay [transfer] = delay + transfer.change := by
  simp [samplesAfter]

theorem samplesAfter_append (delay : ℤ) (transfers more : List Transfer) :
    samplesAfter delay (transfers ++ more) = samplesAfter (samplesAfter delay transfers) more := by
  simp [samplesAfter, add_assoc]

/-- `FIFO<T,length,0,1>` has the same members as `FIFO<T,length,0,0>`, and the same functions. -/
abbrev AsyncFIFO := SyncFIFO

namespace SyncFIFO

/-- `willUnderflowWith` -/
def willUnderflowWith (fifo : SyncFIFO α) (nb : ℤ) : Option Bool := do
  let samples ← intResult (fifo.writePos - fifo.readPos)
  let left ← intResult (samples - nb)
  return left < 0

/-- `willOverflowWith`, for the template parameter `length`. -/
def willOverflowWith (length : ℤ) (fifo : SyncFIFO α) (nb : ℤ) : Option Bool := do
  let samples ← intResult (fifo.writePos - fifo.readPos)
  let total ← intResult (samples + nb)
  return length < total

/-- The FIFO after an access. -/
def access (fifo : SyncFIFO α) : Access α → SyncFIFO α
  | .write block => fifo.write block
  | .read nb => (fifo.read nb).2

/-- The FIFO after some accesses. -/
def after (fifo : SyncFIFO α) (accesses : List (Access α)) : SyncFIFO α :=
  accesses.foldl access fifo

theorem after_append (fifo : SyncFIFO α) (accesses more : List (Access α)) :
    fifo.after (accesses ++ more) = (fifo.after accesses).after more :=
  List.foldl_append

/-- `0 <= readPos <= writePos <= length` -/
structure InBuffer (length : ℤ) (fifo : SyncFIFO α) : Prop where
  nonneg : 0 ≤ fifo.readPos
  le : fifo.readPos ≤ fifo.writePos
  below : fifo.writePos ≤ length

/-- Each block is only written or read after the answer that there is enough room, or that there
are enough samples; in between the other end of the FIFO may be used. -/
structure Guarded (length : ℤ) (fifo : SyncFIFO α) (accesses : List (Access α)) : Prop where
  write : ∀ before block, before ++ [.write block] <+: accesses →
    ∃ early later, before = early ++ later ∧ (∀ access ∈ later, ∃ nb, access = .read nb) ∧
      (fifo.after early).willOverflowWith length block.length = some false
  read : ∀ before (nb : ℕ), before ++ [.read nb] <+: accesses →
    ∃ early later, before = early ++ later ∧ (∀ access ∈ later, ∃ block, access = .write block) ∧
      (fifo.after early).willUnderflowWith nb = some false

variable {fifo : SyncFIFO α} {length : ℤ}

/-- An answer that there is enough room. -/
theorem le_of_willOverflowWith {nb : ℤ} (answer : fifo.willOverflowWith length nb = some false) :
    fifo.nbSamplesInFIFO + nb ≤ length := by
  unfold willOverflowWith at answer
  rcases Option.bind_eq_some_iff.mp answer with ⟨samples, isSamples, answer⟩
  rcases Option.bind_eq_some_iff.mp answer with ⟨total, isTotal, answer⟩
  have fits := of_decide_eq_false (Option.some.inj answer)
  rw [intResult_eq_some isTotal, intResult_eq_some isSamples] at fits
  rw [nbSamplesInFIFO]
  omega

/-- An answer that there are enough samples. -/
theorem le_of_willUnderflowWith {nb : ℤ} (answer : fifo.willUnderflowWith nb = some false) :
    nb ≤ fifo.nbSamplesInFIFO := by
  unfold willUnderflowWith at answer
  rcases Option.bind_eq_some_iff.mp answer with ⟨samples, isSamples, answer⟩
  rcases Option.bind_eq_some_iff.mp answer with ⟨left, isLeft, answer⟩
  have enough := of_decide_eq_false (Option.some.inj answer)
  rw [intResult_eq_some isLeft, intResult_eq_some isSamples] at enough
  rw [nbSamplesInFIFO]
  omega

theorem intResult_of_fits {x : ℤ} (low : -2 ^ 31 ≤ x) (high : x < 2 ^ 31) :
    intResult x = some x := by
  rw [intResult, if_pos ⟨low, high⟩]

/-- The answer about an underflow, when the numbers fit in an `int`. -/
theorem willUnderflowWith_eq_false_iff (inBuffer : fifo.InBuffer length) {nb : ℕ}
    (fits : length + nb < 2 ^ 31) :
    fifo.willUnderflowWith nb = some false ↔ nb ≤ fifo.contents.length := by
  have nonneg := inBuffer.nonneg
  have le := inBuffer.le
  have below := inBuffer.below
  have number := (Ordered.mk nonneg le).length_contents
  rw [nbSamplesInFIFO] at number
  have samples : intResult (fifo.writePos - fifo.readPos) = some (fifo.writePos - fifo.readPos) :=
    intResult_of_fits (by omega) (by omega)
  have left : intResult (fifo.writePos - fifo.readPos - nb) =
      some (fifo.writePos - fifo.readPos - nb) := intResult_of_fits (by omega) (by omega)
  have answer :
      fifo.willUnderflowWith nb = some (decide (fifo.writePos - fifo.readPos - nb < 0)) := by
    simp [willUnderflowWith, samples, left]
  rw [answer, Option.some.injEq, decide_eq_false_iff_not]
  omega

/-- The answer about an overflow, when the numbers fit in an `int`. -/
theorem willOverflowWith_eq_false_iff (inBuffer : fifo.InBuffer length) {nb : ℕ}
    (fits : length + nb < 2 ^ 31) :
    fifo.willOverflowWith length nb = some false ↔ (fifo.contents.length : ℤ) + nb ≤ length := by
  have nonneg := inBuffer.nonneg
  have le := inBuffer.le
  have below := inBuffer.below
  have number := (Ordered.mk nonneg le).length_contents
  rw [nbSamplesInFIFO] at number
  have samples : intResult (fifo.writePos - fifo.readPos) = some (fifo.writePos - fifo.readPos) :=
    intResult_of_fits (by omega) (by omega)
  have total : intResult (fifo.writePos - fifo.readPos + nb) =
      some (fifo.writePos - fifo.readPos + nb) := intResult_of_fits (by omega) (by omega)
  have answer : fifo.willOverflowWith length nb =
      some (decide (length < fifo.writePos - fifo.readPos + nb)) := by
    simp [willOverflowWith, samples, total]
  rw [answer, Option.some.injEq, decide_eq_false_iff_not]
  omega

/-- The number of samples after a write, wherever the samples are moved. -/
@[simp]
theorem nbSamplesInFIFO_write (fifo : SyncFIFO α) (block : List α) :
    (fifo.write block).nbSamplesInFIFO = fifo.nbSamplesInFIFO + block.length := by
  simp only [write, getWriteBuffer, nbSamplesInFIFO]
  split_ifs
  · simp
  · ring

@[simp]
theorem nbSamplesInFIFO_read (fifo : SyncFIFO α) (nb : ℕ) :
    (fifo.read nb).2.nbSamplesInFIFO = fifo.nbSamplesInFIFO - nb := by
  simp only [read, getReadBuffer, nbSamplesInFIFO]
  ring

theorem nbSamplesInFIFO_access (fifo : SyncFIFO α) (access : Access α) :
    (fifo.access access).nbSamplesInFIFO = fifo.nbSamplesInFIFO + access.transfer.change := by
  cases access with
  | write block => exact nbSamplesInFIFO_write fifo block
  | read nb => exact nbSamplesInFIFO_read fifo nb

/-- The number of samples only depends on the sizes of the blocks. -/
theorem nbSamplesInFIFO_after (fifo : SyncFIFO α) (accesses : List (Access α)) :
    (fifo.after accesses).nbSamplesInFIFO =
      samplesAfter fifo.nbSamplesInFIFO (accesses.map Access.transfer) := by
  induction accesses generalizing fifo with
  | nil => simp [after, samplesAfter]
  | cons access accesses ih =>
      change ((fifo.access access).after accesses).nbSamplesInFIFO = _
      rw [ih, nbSamplesInFIFO_access]
      simp [samplesAfter, add_assoc]

/-- After a write the samples are at the start of the buffer. -/
theorem readPos_write (nonneg : 0 ≤ fifo.readPos) (block : List α) :
    (fifo.write block).readPos = 0 := by
  simp only [write, getWriteBuffer]
  split_ifs with moved
  · rfl
  · exact le_antisymm (not_lt.mp moved) nonneg

/-- The read position is the number of samples read after the last write. -/
theorem readPos_after (start : fifo.readPos = 0) (accesses : List (Access α)) :
    (fifo.after accesses).readPos = readSinceWrite (accesses.map Access.transfer) ∧
      0 ≤ (fifo.after accesses).readPos := by
  induction accesses using List.reverseRecOn with
  | nil => exact ⟨start, start.ge⟩
  | append_singleton accesses access ih =>
      rcases ih with ⟨eq, nonneg⟩
      rw [after_append, List.map_append, readSinceWrite, List.foldl_append]
      cases access with
      | write block =>
          have moved : ((fifo.after accesses).write block).readPos = 0 := readPos_write nonneg block
          exact ⟨moved, moved.ge⟩
      | read nb =>
          have advanced : ((fifo.after accesses).read nb).2.readPos =
            (fifo.after accesses).readPos + nb := rfl
          refine ⟨?_, ?_⟩
          · change ((fifo.after accesses).read nb).2.readPos = _
            rw [advanced, eq]
            rfl
          · change 0 ≤ ((fifo.after accesses).read nb).2.readPos
            rw [advanced]
            omega

/-- An access which keeps the number of samples in the bounds keeps the positions in them. -/
theorem InBuffer.access (inBuffer : fifo.InBuffer length) (access : Access α)
    (low : 0 ≤ (fifo.access access).nbSamplesInFIFO)
    (high : (fifo.access access).nbSamplesInFIFO ≤ length) :
    (fifo.access access).InBuffer length := by
  have nonneg := inBuffer.nonneg
  have below := inBuffer.below
  cases access with
  | write block =>
      have moved : (fifo.access (.write block)).readPos = 0 := readPos_write nonneg block
      rw [nbSamplesInFIFO, moved] at low high
      exact ⟨moved.ge, by omega, by omega⟩
  | read nb =>
      have readPos : (fifo.access (.read nb)).readPos = fifo.readPos + nb := rfl
      have writePos : (fifo.access (.read nb)).writePos = fifo.writePos := rfl
      rw [nbSamplesInFIFO, readPos, writePos] at low
      exact ⟨by omega, by omega, by omega⟩

/-- The number of samples stays between zero and the length. -/
def Within (length : ℤ) (fifo : SyncFIFO α) (accesses : List (Access α)) : Prop :=
  ∀ early, early <+: accesses →
    0 ≤ (fifo.after early).nbSamplesInFIFO ∧ (fifo.after early).nbSamplesInFIFO ≤ length

theorem Within.tail {access : Access α} {accesses : List (Access α)}
    (within : fifo.Within length (access :: accesses)) :
    (fifo.access access).Within length accesses := by
  intro early isPrefix
  exact within (access :: early) (List.cons_prefix_cons.mpr ⟨rfl, isPrefix⟩)

theorem Within.early {accesses early : List (Access α)} (within : fifo.Within length accesses)
    (isPrefix : early <+: accesses) : fifo.Within length early :=
  fun _ earlier => within _ (earlier.trans isPrefix)

theorem InBuffer.after {accesses : List (Access α)} (inBuffer : fifo.InBuffer length)
    (within : fifo.Within length accesses) : (fifo.after accesses).InBuffer length := by
  induction accesses generalizing fifo with
  | nil => exact inBuffer
  | cons access accesses ih =>
      rcases within [access] (List.cons_prefix_cons.mpr ⟨rfl, List.nil_prefix⟩) with ⟨low, high⟩
      exact ih (inBuffer.access access low high) within.tail

section Guarded

variable {accesses : List (Access α)}

/-- The number of samples only decreases when samples are read. -/
theorem nbSamplesInFIFO_after_le {later : List (Access α)}
    (isRead : ∀ access ∈ later, ∃ nb, access = Access.read nb) (fifo : SyncFIFO α) :
    (fifo.after later).nbSamplesInFIFO ≤ fifo.nbSamplesInFIFO := by
  induction later generalizing fifo with
  | nil => exact le_rfl
  | cons access later ih =>
      rcases isRead access List.mem_cons_self with ⟨nb, rfl⟩
      have rest := ih (fun other mem => isRead other (List.mem_cons_of_mem _ mem))
        (fifo.read nb).2
      have removed := nbSamplesInFIFO_read fifo nb
      change ((fifo.read nb).2.after later).nbSamplesInFIFO ≤ fifo.nbSamplesInFIFO
      omega

/-- The number of samples only increases when samples are written. -/
theorem le_nbSamplesInFIFO_after {later : List (Access α)}
    (isWrite : ∀ access ∈ later, ∃ block, access = Access.write block) (fifo : SyncFIFO α) :
    fifo.nbSamplesInFIFO ≤ (fifo.after later).nbSamplesInFIFO := by
  induction later generalizing fifo with
  | nil => exact le_rfl
  | cons access later ih =>
      rcases isWrite access List.mem_cons_self with ⟨block, rfl⟩
      have rest := ih (fun other mem => isWrite other (List.mem_cons_of_mem _ mem))
        (fifo.write block)
      have added := nbSamplesInFIFO_write fifo block
      change fifo.nbSamplesInFIFO ≤ ((fifo.write block).after later).nbSamplesInFIFO
      omega

/-- The tests keep the number of samples between zero and the length. -/
theorem Guarded.within (guarded : fifo.Guarded length accesses)
    (low : 0 ≤ fifo.nbSamplesInFIFO) (high : fifo.nbSamplesInFIFO ≤ length) :
    fifo.Within length accesses := by
  intro early
  induction early using List.reverseRecOn with
  | nil => exact fun _ => ⟨low, high⟩
  | append_singleton before access ih =>
      intro isPrefix
      rcases ih ((List.prefix_append _ _).trans isPrefix) with ⟨low, high⟩
      rw [after_append]
      cases access with
      | write block =>
          rcases guarded.write before block isPrefix with ⟨early, later, rfl, isRead, answer⟩
          have room := le_of_willOverflowWith answer
          have drained := nbSamplesInFIFO_after_le isRead (fifo.after early)
          rw [← after_append] at drained
          have added := nbSamplesInFIFO_write (fifo.after (early ++ later)) block
          change 0 ≤ ((fifo.after (early ++ later)).write block).nbSamplesInFIFO ∧
            ((fifo.after (early ++ later)).write block).nbSamplesInFIFO ≤ length
          omega
      | read nb =>
          rcases guarded.read before nb isPrefix with ⟨early, later, rfl, isWrite, answer⟩
          have enough := le_of_willUnderflowWith answer
          have filled := le_nbSamplesInFIFO_after isWrite (fifo.after early)
          rw [← after_append] at filled
          have removed := nbSamplesInFIFO_read (fifo.after (early ++ later)) nb
          change 0 ≤ ((fifo.after (early ++ later)).read nb).2.nbSamplesInFIFO ∧
            ((fifo.after (early ++ later)).read nb).2.nbSamplesInFIFO ≤ length
          omega

/-- Each block is tested just before it is written or read. -/
def tested (length : ℤ) (fifo : SyncFIFO α) : List (Access α) → Bool
  | [] => true
  | .write block :: rest =>
      fifo.willOverflowWith length block.length == some false &&
        (fifo.write block).tested length rest
  | .read nb :: rest =>
      fifo.willUnderflowWith nb == some false && (fifo.read nb).2.tested length rest

/-- Of the accesses which are tested, the next one is. -/
theorem tested_append {before rest : List (Access α)}
    (isTested : fifo.tested length (before ++ rest) = true) :
    (fifo.after before).tested length rest = true := by
  induction before generalizing fifo with
  | nil => exact isTested
  | cons access before ih =>
      cases access with
      | write block => exact ih (Bool.and_eq_true_iff.mp isTested).2
      | read nb => exact ih (Bool.and_eq_true_iff.mp isTested).2

theorem guarded_of_tested (isTested : fifo.tested length accesses = true) :
    fifo.Guarded length accesses := by
  refine ⟨?_, ?_⟩
  · rintro before block ⟨rest, rfl⟩
    rw [List.append_assoc] at isTested
    have answer := (Bool.and_eq_true_iff.mp (tested_append isTested)).1
    exact ⟨before, [], (List.append_nil _).symm, by simp, eq_of_beq answer⟩
  · rintro before nb ⟨rest, rfl⟩
    rw [List.append_assoc] at isTested
    have answer := (Bool.and_eq_true_iff.mp (tested_append isTested)).1
    exact ⟨before, [], (List.append_nil _).symm, by simp, eq_of_beq answer⟩

end Guarded

/-! ### Moving the samples -/

/-- When `getWriteBuffer` moves the samples, the ranges of the copy are disjoint. -/
def CopyDisjoint (fifo : SyncFIFO α) : Prop :=
  0 < fifo.readPos → ∀ i, 0 ≤ i → i < fifo.writePos - fifo.readPos →
    ¬(fifo.readPos ≤ i ∧ i < fifo.writePos)

/-- Each copy before a write is between disjoint ranges. -/
def CopiesDisjoint (fifo : SyncFIFO α) (accesses : List (Access α)) : Prop :=
  ∀ early block, early ++ [.write block] <+: accesses → (fifo.after early).CopyDisjoint

theorem copyDisjoint_iff (ordered : fifo.Ordered) :
    fifo.CopyDisjoint ↔
      fifo.readPos = 0 ∨ fifo.writePos - fifo.readPos ≤ fifo.readPos := by
  have nonneg := ordered.nonneg
  constructor
  · intro disjoint
    by_contra overlap
    rw [not_or, not_le] at overlap
    rcases overlap with ⟨moved, left⟩
    exact disjoint (by omega) fifo.readPos nonneg left ⟨le_rfl, by omega⟩
  · rintro enough moved i - below ⟨low, -⟩
    omega

end SyncFIFO

/-- At each write, the samples read after the write before it are none, or at least as many as
those which are left. -/
def HalfRead (delay : ℤ) (transfers : List Transfer) : Prop :=
  ∀ early nb, early ++ [.write nb] <+: transfers →
    readSinceWrite early = 0 ∨ samplesAfter delay early ≤ readSinceWrite early

end CmsisStream.Platform
