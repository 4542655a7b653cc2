import CmsisStream.Container.Heap
import Mathlib.Data.Finset.Lattice.Lemmas
import Mathlib.Data.List.ReduceOption

/-!
# The objects of a generated scheduler

With the heap allocation the FIFOs and the nodes are created by `init` and deleted by `free`, and
`init_buffer` and `free_buffer` do the same for the buffers.  `init` stops at the first allocation
which fails, and `free` does not reset the pointers: what is after this allocation keeps the
pointers of the graph which was initialized before.
-/

namespace CmsisStream.Generated

open Container

/-- The pointers of `fifos_t` and `nodes_t`, or of `buffers_t`, in the order of the allocations. -/
structure HeapObjects where
  pointers : List (Option ℕ)
  heap : Heap

/-- The result of `init`: `nodeError` is the error of the `init` function of a node. -/
inductive InitStatus where
  | success
  | memoryAllocationFailure
  | nodeError
deriving DecidableEq

/-- Allocate the objects, when the memory is enough for `room` of them. -/
def allocateObjects : List (Option ℕ) → ℕ → Heap → Bool × HeapObjects
  | [], _, heap => (true, ⟨[], heap⟩)
  | _ :: pointers, 0, heap => (false, ⟨none :: pointers, heap⟩)
  | _ :: pointers, room + 1, heap =>
      let (allocated, objects) := allocateObjects pointers room heap.allocate
      (allocated, ⟨some heap.fresh :: objects.pointers, objects.heap⟩)

namespace HeapObjects

/-- The pointers are static variables, which are zero. -/
def static (n : ℕ) (heap : Heap) : HeapObjects := ⟨List.replicate n none, heap⟩

/-- `init` -/
def init (s : HeapObjects) (room : ℕ) (nodesInit : Bool) : InitStatus × HeapObjects :=
  let (allocated, objects) := allocateObjects s.pointers room s.heap
  (if allocated then if nodesInit then .success else .nodeError else .memoryAllocationFailure,
    objects)

/-- `free`: delete what the pointers which are not `NULL` point to. -/
def free (s : HeapObjects) : Option HeapObjects :=
  (s.heap.deleteAll s.pointers.reduceOption).map fun heap => { s with heap := heap }

/-- Every pointer is to an object which is there. -/
def allValid (s : HeapObjects) : Bool :=
  s.pointers.all fun pointer => pointer.any (· ∈ s.heap.live)

/-- Each of the first pointers is `NULL` or to an object which is there. -/
def nonNullValid (s : HeapObjects) (n : ℕ) : Bool :=
  (s.pointers.take n).all fun pointer => pointer.all (· ∈ s.heap.live)

/-- What the application does with a graph -/
inductive Use where
  /-- The scheduler function uses the objects. -/
  | scheduler
  /-- `reset_fifos` uses the first objects after a test of their pointers. -/
  | resetFifos (n : ℕ)

def use (s : HeapObjects) : Use → Option HeapObjects
  | .scheduler => if s.allValid then some s else none
  | .resetFifos n => if s.nonNullValid n then some s else none

/-- A graph is initialized, used when `init` is a success, and freed. -/
structure Lifetime where
  room : ℕ
  nodesInit : Bool
  uses : List Use

def run (s : HeapObjects) (lifetime : Lifetime) : Option HeapObjects :=
  let (status, objects) := s.init lifetime.room lifetime.nodesInit
  (if status = .success then lifetime.uses.foldlM use objects else some objects).bind free

/-- After `free`, the first pointers are those of the objects of the last `init`. -/
structure Freed (s : HeapObjects) (deleted : List ℕ) (nulls : ℕ) : Prop where
  pointers : s.pointers = deleted.map some ++ List.replicate nulls none
  lt_fresh : ∀ object ∈ deleted, object < s.heap.fresh
  notMem : ∀ object ∈ deleted, object ∉ s.heap.live

theorem freed_static (n : ℕ) (heap : Heap) : (static n heap).Freed [] n := ⟨rfl, by simp, by simp⟩

/-- The objects which `init` allocates -/
def allocated (s : HeapObjects) (room : ℕ) : List ℕ :=
  List.range' s.heap.fresh (min room s.pointers.length)

end HeapObjects

theorem reduceOption_map_some {α : Type} (l : List α) : (l.map some).reduceOption = l := by
  simp [List.reduceOption]

/-- What `init` does to the pointers and to the heap -/
theorem allocateObjects_spec (pointers : List (Option ℕ)) (room : ℕ) (heap : Heap) :
    let objects := List.range' heap.fresh (min room pointers.length)
    let result := allocateObjects pointers room heap
    result.1 = decide (pointers.length ≤ room) ∧
      result.2.pointers = objects.map some ++
        (if room < pointers.length then none :: pointers.drop (room + 1) else []) ∧
      result.2.heap.live = heap.live ∪ objects.toFinset ∧
      result.2.heap.fresh = heap.fresh + min room pointers.length := by
  induction pointers generalizing room heap with
  | nil => simp [allocateObjects]
  | cons pointer pointers ih =>
      cases room with
      | zero => simp [allocateObjects]
      | succ room =>
          rcases ih room heap.allocate with ⟨allocated, objects, live, fresh⟩
          simp only [allocateObjects, List.length_cons, Nat.add_le_add_iff_right, allocated,
            objects, live, fresh, Heap.live_allocate, Heap.fresh_allocate,
            Nat.add_min_add_right, List.range'_succ, List.map_cons, List.cons_append,
            Nat.add_lt_add_iff_right, List.drop_succ_cons, List.toFinset_cons, true_and]
          exact ⟨Finset.insert_union_comm .., by omega⟩

namespace HeapObjects

variable {s : HeapObjects} {deleted : List ℕ} {nulls room : ℕ} {nodesInit : Bool}

theorem Freed.length_pointers (freed : s.Freed deleted nulls) :
    s.pointers.length = deleted.length + nulls := by
  simp [freed.pointers]

/-- The objects which `free` deletes after `init` -/
theorem Freed.reduceOption_init (freed : s.Freed deleted nulls) (room : ℕ) (nodesInit : Bool) :
    (s.init room nodesInit).2.pointers.reduceOption =
      s.allocated room ++ deleted.drop (room + 1) := by
  rcases allocateObjects_spec s.pointers room s.heap with ⟨-, pointers, -, -⟩
  rw [init, pointers, List.reduceOption_append, allocated]
  congr 1
  · exact reduceOption_map_some _
  · split
    · rw [List.reduceOption_cons_of_none, freed.pointers, List.drop_append, List.drop_replicate,
        ← List.map_drop, List.reduceOption_append, reduceOption_map_some,
        List.reduceOption_replicate_none, List.append_nil]
    · rename_i room_le
      have length := freed.length_pointers
      rw [List.drop_eq_nil_of_le (by omega)]
      rfl

theorem length_allocated (s : HeapObjects) (room : ℕ) :
    (s.allocated room).length = min room s.pointers.length := by
  simp [allocated]

theorem fresh_le_of_mem_allocated {object : ℕ} (mem : object ∈ s.allocated room) :
    s.heap.fresh ≤ object := by
  rw [allocated, List.mem_range'_1] at mem
  exact mem.1

theorem mem_heap_init {object : ℕ} : object ∈ (s.init room nodesInit).2.heap.live ↔
    object ∈ s.heap.live ∨ object ∈ s.allocated room := by
  rcases allocateObjects_spec s.pointers room s.heap with ⟨-, -, live, -⟩
  simp [init, live, allocated]

/-- The objects of the graph before are deleted again when fewer objects are allocated, except
for the one whose pointer is `NULL`. -/
theorem Freed.isSome_free (freed : s.Freed deleted nulls) (nodesInit : Bool) :
    (s.init room nodesInit).2.free.isSome ↔
      deleted.length ≤ (s.allocated room).length + 1 := by
  have length := freed.length_pointers
  rw [free, Option.isSome_map, Heap.isSome_deleteAll, freed.reduceOption_init, length_allocated]
  constructor
  · rintro ⟨-, there⟩
    by_contra fewer
    have again : deleted.drop (room + 1) ≠ [] := by
      rw [ne_eq, List.drop_eq_nil_iff]
      omega
    rcases List.exists_mem_of_ne_nil _ again with ⟨object, mem⟩
    have isDeleted := List.mem_of_mem_drop mem
    rcases mem_heap_init.mp (there object (List.mem_append_right _ mem)) with live | allocated
    · exact freed.notMem object isDeleted live
    · have fresh_le := fresh_le_of_mem_allocated allocated
      have lt_fresh := freed.lt_fresh object isDeleted
      omega
  · intro enough
    rw [List.drop_eq_nil_of_le (by omega), List.append_nil]
    refine ⟨List.nodup_range', fun object mem => mem_heap_init.mpr (.inr mem)⟩

/-- After `init` and `free`, the pointers are those of the new objects, and the heap is the same
as before. -/
theorem Freed.free {s' : HeapObjects} (freed : s.Freed deleted nulls)
    (possible : (s.init room nodesInit).2.free = some s') :
    s'.Freed (s.allocated room) (s.pointers.length - (s.allocated room).length) ∧
      s'.heap.live = s.heap.live ∧ s'.pointers.length = s.pointers.length := by
  have enough := (freed.isSome_free nodesInit).mp (Option.isSome_iff_exists.mpr ⟨s', possible⟩)
  have length := freed.length_pointers
  rw [length_allocated] at enough
  rcases Option.map_eq_some_iff.mp possible with ⟨heap, deletes, rfl⟩
  rcases Heap.live_deleteAll deletes with ⟨live, fresh⟩
  rw [freed.reduceOption_init, List.drop_eq_nil_of_le (by omega), List.append_nil] at live
  rcases allocateObjects_spec s.pointers room s.heap with ⟨-, pointers, initLive, initFresh⟩
  have same : heap.live = s.heap.live := by
    rw [live]
    ext object
    rw [Finset.mem_sdiff, mem_heap_init, List.mem_toFinset]
    constructor
    · rintro ⟨old | new, notNew⟩
      · exact old
      · exact absurd new notNew
    · intro old
      refine ⟨.inl old, fun new => ?_⟩
      have lt_fresh := s.heap.lt_fresh object old
      have fresh_le := fresh_le_of_mem_allocated new
      omega
  have nulls_eq : (s.init room nodesInit).2.pointers = (s.allocated room).map some ++
      List.replicate (s.pointers.length - (s.allocated room).length) none := by
    rw [init, pointers, length_allocated, allocated]
    congr 1
    split
    · have dropped : s.pointers.drop (room + 1) =
          List.replicate (nulls - (room + 1 - deleted.length)) none := by
        rw [freed.pointers, List.drop_append, List.drop_eq_nil_of_le (by simp; omega),
          List.nil_append, List.drop_replicate, List.length_map]
      rw [dropped, ← List.replicate_succ]
      congr 1
      omega
    · rw [Nat.min_eq_right (by omega), Nat.sub_self, List.replicate_zero]
  refine ⟨⟨nulls_eq, fun object mem => ?_, fun object mem old => ?_⟩, same, ?_⟩
  · rw [allocated, List.mem_range'_1] at mem
    rw [fresh, init, initFresh]
    exact mem.2
  · have lt_fresh := s.heap.lt_fresh object (same ▸ old)
    have fresh_le := fresh_le_of_mem_allocated mem
    omega
  · rw [nulls_eq, List.length_append, List.length_map, List.length_replicate, length_allocated]
    omega

/-- After a success the objects can be used as often as one likes. -/
theorem use_init (success : (s.init room nodesInit).1 = .success) (uses : List Use) :
    uses.foldlM use (s.init room nodesInit).2 = some (s.init room nodesInit).2 := by
  rcases allocateObjects_spec s.pointers room s.heap with ⟨enough, pointers, live, -⟩
  have length_le : s.pointers.length ≤ room := by
    by_contra more
    simp [init, enough, more] at success
  have valid : ∀ pointer ∈ (s.init room nodesInit).2.pointers,
      ∃ object ∈ (s.init room nodesInit).2.heap.live, pointer = some object := by
    intro pointer mem
    rw [init, pointers, if_neg (by omega), List.append_nil] at mem
    rcases List.mem_map.mp mem with ⟨object, isNew, rfl⟩
    exact ⟨object, mem_heap_init.mpr (.inr isNew), rfl⟩
  have allValid : (s.init room nodesInit).2.allValid = true := by
    refine List.all_eq_true.mpr fun pointer mem => ?_
    rcases valid pointer mem with ⟨object, isLive, rfl⟩
    simpa using isLive
  have nonNullValid (n : ℕ) : (s.init room nodesInit).2.nonNullValid n = true := by
    refine List.all_eq_true.mpr fun pointer mem => ?_
    rcases valid pointer (List.mem_of_mem_take mem) with ⟨object, isLive, rfl⟩
    simpa using isLive
  induction uses with
  | nil => rfl
  | cons u uses ih =>
      rw [List.foldlM_cons]
      cases u with
      | scheduler =>
          rw [use, if_pos allValid]
          exact ih
      | resetFifos n =>
          rw [use, if_pos (nonNullValid n)]
          exact ih

theorem run_eq (s : HeapObjects) (lifetime : Lifetime) :
    s.run lifetime = (s.init lifetime.room lifetime.nodesInit).2.free := by
  rw [run]
  dsimp only
  split
  · rename_i success
    rw [use_init success, Option.bind_some]
  · rfl

/-- The graphs which are initialized one after the other are freed without deleting an object
twice exactly when an `init` never stops more than one allocation before the objects of the
graph before.  Everything which has been allocated is then deleted. -/
theorem Freed.runs (freed : s.Freed deleted nulls) (lifetimes : List Lifetime) :
    ((lifetimes.foldlM run s).isSome ↔
      (deleted.length :: lifetimes.map fun lifetime =>
        min lifetime.room s.pointers.length).IsChain fun before after => before ≤ after + 1) ∧
      ∀ s' ∈ lifetimes.foldlM run s, s'.heap.live = s.heap.live := by
  induction lifetimes generalizing s deleted nulls with
  | nil => simp
  | cons lifetime lifetimes ih =>
      rw [List.foldlM_cons, run_eq, List.map_cons, List.isChain_cons_cons,
        ← length_allocated, ← freed.isSome_free lifetime.nodesInit]
      cases free : (s.init lifetime.room lifetime.nodesInit).2.free with
      | none => simp
      | some s' =>
          rcases freed.free free with ⟨freed', live, length⟩
          have rest := ih freed'
          rw [length, live] at rest
          simpa using rest

end HeapObjects

/-- With static pointers which are zero, whatever is on the heap -/
theorem heapAllocation_safe_iff (n : ℕ) (heap : Heap) (lifetimes : List HeapObjects.Lifetime) :
    ((lifetimes.foldlM HeapObjects.run (.static n heap)).isSome ↔
      (lifetimes.map fun lifetime => min lifetime.room n).IsChain
        fun before after => before ≤ after + 1) ∧
      ∀ s ∈ lifetimes.foldlM HeapObjects.run (.static n heap), s.heap.live = heap.live := by
  have runs := (HeapObjects.freed_static n heap).runs lifetimes
  have length : (HeapObjects.static n heap).pointers.length = n := by simp [HeapObjects.static]
  refine ⟨runs.1.trans ?_, runs.2⟩
  rw [length]
  cases lifetimes with
  | nil => simp
  | cons lifetime lifetimes => simp

/-- After a graph with three objects, an `init` which fails at the second one is enough. -/
example : ([⟨3, true, [.scheduler]⟩, ⟨1, true, []⟩].foldlM HeapObjects.run
    (.static 3 ⟨∅, 0, by simp⟩)).isSome = false := by
  decide

end CmsisStream.Generated
