import Mathlib.Data.Finset.Basic
import Mathlib.Data.List.Nodup

/-!
# Objects on the heap

An allocation gives a new object, and `delete` is possible once.  An object is never allocated
again: a pointer to a deleted object stays invalid, even when its address is used for another one.
-/

namespace CmsisStream.Container

structure Heap where
  /-- The objects which have not been deleted. -/
  live : Finset ℕ
  /-- The next object to be allocated. -/
  fresh : ℕ
  lt_fresh : ∀ object ∈ live, object < fresh

namespace Heap

variable {heap heap' : Heap} {object : ℕ} {objects : List ℕ}

def empty : Heap := ⟨∅, 0, by simp⟩

theorem fresh_notMem (heap : Heap) : heap.fresh ∉ heap.live := fun mem =>
  Nat.lt_irrefl _ (heap.lt_fresh _ mem)

/-- Allocate the object `fresh`. -/
def allocate (heap : Heap) : Heap where
  live := insert heap.fresh heap.live
  fresh := heap.fresh + 1
  lt_fresh object mem := by
    rcases Finset.mem_insert.mp mem with rfl | mem
    · exact Nat.lt_succ_self _
    · exact Nat.lt_succ_of_lt (heap.lt_fresh object mem)

@[simp]
theorem live_allocate (heap : Heap) : heap.allocate.live = insert heap.fresh heap.live := rfl

@[simp]
theorem fresh_allocate (heap : Heap) : heap.allocate.fresh = heap.fresh + 1 := rfl

/-- Delete an object; for an object which is not there the behaviour is undefined. -/
def delete (heap : Heap) (object : ℕ) : Option Heap :=
  if object ∈ heap.live then
    some { heap with
      live := heap.live.erase object
      lt_fresh := fun other mem => heap.lt_fresh other (Finset.mem_of_mem_erase mem) }
  else none

theorem delete_of_mem (mem : object ∈ heap.live) :
    ∃ heap', heap.delete object = some heap' ∧ heap'.live = heap.live.erase object ∧
      heap'.fresh = heap.fresh := by
  simp [delete, mem]

theorem delete_of_notMem (notMem : object ∉ heap.live) : heap.delete object = none := by
  simp [delete, notMem]

/-- Delete objects one after the other. -/
def deleteAll (heap : Heap) (objects : List ℕ) : Option Heap := objects.foldlM delete heap

@[simp]
theorem deleteAll_nil (heap : Heap) : heap.deleteAll [] = some heap := rfl

theorem deleteAll_cons (heap : Heap) (object : ℕ) (objects : List ℕ) :
    heap.deleteAll (object :: objects) = (heap.delete object).bind (·.deleteAll objects) := rfl

/-- Deletions are possible when each object is there and is deleted once. -/
theorem isSome_deleteAll : (heap.deleteAll objects).isSome ↔
    objects.Nodup ∧ ∀ object ∈ objects, object ∈ heap.live := by
  induction objects generalizing heap with
  | nil => simp
  | cons object objects ih =>
      rw [deleteAll_cons, List.nodup_cons, List.forall_mem_cons]
      by_cases mem : object ∈ heap.live
      · rcases delete_of_mem mem with ⟨heap', deleted, live, -⟩
        simp only [deleted, Option.bind_some, ih, live, Finset.mem_erase, mem, true_and]
        constructor
        · rintro ⟨nodup, there⟩
          exact ⟨⟨fun again => (there object again).1 rfl, nodup⟩, fun o mem => (there o mem).2⟩
        · rintro ⟨⟨notMem, nodup⟩, there⟩
          exact ⟨nodup, fun o mem => ⟨fun same => notMem (same ▸ mem), there o mem⟩⟩
      · simp [delete_of_notMem mem, mem]

theorem live_deleteAll (deleted : heap.deleteAll objects = some heap') :
    heap'.live = heap.live \ objects.toFinset ∧ heap'.fresh = heap.fresh := by
  induction objects generalizing heap with
  | nil =>
      cases deleted
      simp
  | cons object objects ih =>
      rw [deleteAll_cons] at deleted
      by_cases mem : object ∈ heap.live
      · rcases delete_of_mem mem with ⟨first, isFirst, live, fresh⟩
        rw [isFirst, Option.bind_some] at deleted
        rcases ih deleted with ⟨live', fresh'⟩
        refine ⟨?_, fresh'.trans fresh⟩
        rw [live', live]
        ext o
        simp only [Finset.mem_sdiff, Finset.mem_erase, List.toFinset_cons, Finset.mem_insert]
        tauto
      · rw [delete_of_notMem mem] at deleted
        cases deleted

end Heap

end CmsisStream.Container
