import CmsisStream.Concurrency.Machine
import CmsisStream.Container.Heap
import Mathlib.Data.Finset.Card

/-!
# `UniquePtr` and `SharedBuffer`

Both classes own an object on the heap and can only be moved.  The move assignment of `UniquePtr`
deletes the object of its target, and the one of `SharedBuffer` overwrites the pointer.
-/

namespace CmsisStream.Platform

open Container

/-- A deleter: the default one of a `const` type does nothing. -/
inductive Deleter where
  | delete
  | keep
deriving DecidableEq

inductive OwningClass where
  | uniquePtr
  | sharedBuffer
deriving DecidableEq

/-- The handles of a class.  One which does not live, or which has been moved, is null. -/
structure Handles (ι : Type) where
  ptr : ι → Option (ℕ × Deleter)
  heap : Heap

inductive HandleAction (ι : Type) where
  /-- From a new object, or from `NULL` when the allocation failed -/
  | construct (d : ι) (allocated : Bool)
  /-- From a pointer to a constant object of the application -/
  | borrow (d : ι) (object : ℕ)
  | moveConstruct (d s : ι)
  | moveAssign (d s : ι)
  /-- `reset`, the assignment of `nullptr` and the destructor -/
  | reset (h : ι)

namespace Handles

variable {ι : Type} [DecidableEq ι]

def setPtr (b : Handles ι) (h : ι) (ptr : Option (ℕ × Deleter)) : Handles ι :=
  { b with ptr := Function.update b.ptr h ptr }

def init (heap : Heap) : Handles ι := ⟨fun _ => none, heap⟩

/-- Delete the object of a handle, if it has one. -/
def reset (b : Handles ι) (h : ι) : Option (Handles ι) :=
  match b.ptr h with
  | some (object, .delete) =>
      (b.heap.delete object).map fun heap => { b.setPtr h none with heap := heap }
  | _ => some (b.setPtr h none)

/-- The pointer of `s` is given to `d`. -/
def move (b : Handles ι) (d s : ι) : Handles ι := (b.setPtr d (b.ptr s)).setPtr s none

def moveAssign (b : Handles ι) (d s : ι) : OwningClass → Option (Handles ι)
  | .uniquePtr => (b.reset d).map (·.move d s)
  | .sharedBuffer => some (b.move d s)

def next (c : OwningClass) (b : Handles ι) : HandleAction ι → Option (Handles ι)
  | .construct d allocated =>
      some (if allocated then
        { b.setPtr d (some (b.heap.fresh, .delete)) with heap := b.heap.allocate }
      else b.setPtr d none)
  | .borrow d object => some (b.setPtr d (some (object, .keep)))
  | .moveConstruct d s => some (b.move d s)
  | .moveAssign d s => if d = s then some b else b.moveAssign d s c
  | .reset h => b.reset h

/-- The handles of a program, when some objects are already on the heap -/
def machine (c : OwningClass) (heap : Heap) : Machine (Handles ι) (HandleAction ι) where
  init := init heap
  next := next c

/-- A handle is constructed while it is null. -/
def Possible (c : OwningClass) (b : Handles ι) : HandleAction ι → Prop
  | .construct d _ => b.ptr d = none
  | .borrow d _ => b.ptr d = none ∧ c = .uniquePtr
  | .moveConstruct d s => b.ptr d = none ∧ d ≠ s
  | .moveAssign _ _ | .reset _ => True

instance (c : OwningClass) (b : Handles ι) (a : HandleAction ι) : Decidable (Possible c b a) := by
  cases a <;> unfold Possible <;> infer_instance

/-- The object which a pointer deletes -/
def deleted : Option (ℕ × Deleter) → Option ℕ
  | some (object, .delete) => some object
  | _ => none

/-- The object which a handle deletes -/
def object (b : Handles ι) (h : ι) : Option ℕ := deleted (b.ptr h)

/-- The objects which have no handle any more after an action -/
def lost (b : Handles ι) (c : OwningClass) : HandleAction ι → List ℕ
  | .moveAssign d s => if c = .sharedBuffer ∧ d ≠ s then (b.object d).toList else []
  | _ => []

/-- The objects which have been lost in a run -/
def lostIn (c : OwningClass) (heap : Heap) (actions : List (HandleAction ι)) : List ℕ :=
  (machine c heap).trace (fun b => b.lost c) (machine c heap).init actions

/-- An object which has been allocated by the program is there as long as a handle has it, or
for ever when it is lost. -/
structure Owned (heap : Heap) (lost : List ℕ) (b : Handles ι) : Prop where
  live : ∀ o, o ∈ b.heap.live ↔ o ∈ heap.live ∨ (∃ h, b.object h = some o) ∨ o ∈ lost
  unique : ∀ h h' o, b.object h = some o → b.object h' = some o → h = h'
  new : ∀ h o, b.object h = some o → o ∉ heap.live ∧ o ∉ lost
  lost : lost.Nodup ∧ ∀ o ∈ lost, o ∉ heap.live

variable {c : OwningClass} {heap : Heap} {lostBefore : List ℕ} {b b' : Handles ι} {h d s : ι}
  {o : ℕ}

theorem object_setPtr (b : Handles ι) (h : ι) (ptr : Option (ℕ × Deleter)) (x : ι) :
    (b.setPtr h ptr).object x = if x = h then deleted ptr else b.object x := by
  simp only [object, setPtr, Function.update_apply]
  split <;> rfl

theorem object_move (d s x : ι) : (b.move d s).object x =
    if x = s then none else if x = d then b.object s else b.object x := by
  rw [move, object_setPtr, object_setPtr]
  rfl

/-- The target of a move is overwritten. -/
theorem move_setPtr (differ : d ≠ s) (ptr : Option (ℕ × Deleter)) :
    (b.setPtr d ptr).move d s = b.move d s := by
  simp [move, setPtr, Function.update_of_ne differ.symm]

/-- A pointer which deletes nothing does not change what is owned. -/
theorem Owned.setPtr (owned : b.Owned heap lostBefore) (null : b.object h = none)
    {ptr : Option (ℕ × Deleter)} (nothing : deleted ptr = none) :
    (b.setPtr h ptr).Owned heap lostBefore := by
  have same : (b.setPtr h ptr).object = b.object := by
    funext x
    rw [object_setPtr, nothing]
    split
    · rename_i same
      rw [same, null]
    · rfl
  rcases owned with ⟨live, unique, new, lost⟩
  exact ⟨fun o => same ▸ live o, same ▸ unique, same ▸ new, lost⟩

/-- A handle which forgets its object -/
theorem Owned.forget (owned : b.Owned heap lostBefore) (has : b.object h = some o) :
    (b.setPtr h none).Owned heap (lostBefore ++ [o]) := by
  rcases owned with ⟨live, unique, new, nodup, notBefore⟩
  have still (x : ι) (o' : ℕ) : (b.setPtr h none).object x = some o' ↔
      b.object x = some o' ∧ x ≠ h := by
    rw [object_setPtr]
    by_cases same : x = h <;> simp [same, deleted]
  refine ⟨fun o' => ?_, fun x y o' isX isY => ?_, fun x o' isX => ?_, ?_, fun o' mem => ?_⟩
  · simp only [still, List.mem_append, List.mem_singleton]
    constructor
    · intro isLive
      rcases (live o').mp isLive with before | ⟨x, isX⟩ | isLost
      · exact .inl before
      · by_cases same : x = h
        · subst same
          exact .inr (.inr (.inr (Option.some.inj (isX.symm.trans has))))
        · exact .inr (.inl ⟨x, isX, same⟩)
      · exact .inr (.inr (.inl isLost))
    · rintro (before | ⟨x, isX, -⟩ | isLost | rfl)
      · exact (live o').mpr (.inl before)
      · exact (live o').mpr (.inr (.inl ⟨x, isX⟩))
      · exact (live o').mpr (.inr (.inr isLost))
      · exact (live o').mpr (.inr (.inl ⟨h, has⟩))
  · exact unique x y o' ((still x o').mp isX).1 ((still y o').mp isY).1
  · rcases (still x o').mp isX with ⟨isX, notH⟩
    refine ⟨(new x o' isX).1, fun mem => ?_⟩
    rcases List.mem_append.mp mem with mem | mem
    · exact (new x o' isX).2 mem
    · rw [List.mem_singleton.mp mem] at isX
      exact notH (unique x h o isX has)
  · exact List.nodup_append.mpr ⟨nodup, List.nodup_singleton o, fun x mem y isY same =>
      (new h o has).2 (List.mem_singleton.mp isY ▸ same ▸ mem)⟩
  · rcases List.mem_append.mp mem with mem | mem
    · exact notBefore o' mem
    · exact List.mem_singleton.mp mem ▸ (new h o has).1

omit [DecidableEq ι] in
/-- A lost object which is deleted -/
theorem Owned.delete (owned : b.Owned heap (lostBefore ++ [o])) :
    ∃ after, b.heap.delete o = some after ∧
      ({ b with heap := after } : Handles ι).Owned heap lostBefore := by
  rcases owned with ⟨live, unique, new, nodup, notBefore⟩
  rcases List.nodup_append.mp nodup with ⟨nodup, -, differ⟩
  have isLast : o ∈ lostBefore ++ [o] := by simp
  rcases Heap.delete_of_mem ((live o).mpr (.inr (.inr isLast))) with ⟨after, deletes, erased, -⟩
  refine ⟨after, deletes, fun o' => ?_, unique, fun h o' has => ?_, nodup, fun o' mem => ?_⟩
  · rw [erased, Finset.mem_erase, live]
    constructor
    · rintro ⟨other, before | has | isLost⟩
      · exact .inl before
      · exact .inr (.inl has)
      · rcases List.mem_append.mp isLost with isLost | same
        · exact .inr (.inr isLost)
        · exact absurd (List.mem_singleton.mp same) other
    · rintro (before | ⟨h, has⟩ | isLost)
      · exact ⟨fun same => notBefore o isLast (same ▸ before), .inl before⟩
      · exact ⟨fun same => (new h o' has).2 (same ▸ isLast), .inr (.inl ⟨h, has⟩)⟩
      · exact ⟨differ o' isLost o (List.mem_singleton_self o),
          .inr (.inr (List.mem_append_left _ isLost))⟩
  · exact ⟨(new h o' has).1, fun mem => (new h o' has).2 (List.mem_append_left _ mem)⟩
  · exact notBefore o' (List.mem_append_left _ mem)

/-- Deleting the object of a handle is possible, and leaves the handle null. -/
theorem Owned.reset (owned : b.Owned heap lostBefore) (h : ι) :
    ∃ b', b.reset h = some b' ∧ b'.ptr = (b.setPtr h none).ptr ∧ b'.Owned heap lostBefore := by
  rw [Handles.reset]
  split
  · rename_i o isPtr
    have has : b.object h = some o := by rw [object, isPtr, deleted]
    rcases (owned.forget has).delete with ⟨after, deletes, kept⟩
    have same : b.heap.delete o = some after := deletes
    rw [same]
    exact ⟨_, rfl, rfl, kept⟩
  · rename_i notOwner
    refine ⟨_, rfl, rfl, owned.setPtr ?_ rfl⟩
    rw [object]
    generalize b.ptr h = ptr at notOwner ⊢
    rcases ptr with _ | ⟨o, _ | _⟩
    · rfl
    · exact absurd rfl (notOwner o)
    · rfl

theorem Owned.allocate (owned : b.Owned heap lostBefore) (null : b.object h = none) :
    ({ b.setPtr h (some (b.heap.fresh, .delete)) with heap := b.heap.allocate } :
      Handles ι).Owned heap lostBefore := by
  rcases owned with ⟨live, unique, new, nodup, notBefore⟩
  have notLive := b.heap.fresh_notMem
  simp only [live, not_or, not_exists] at notLive
  rcases notLive with ⟨notStart, notHad, notLost⟩
  have has (x : ι) (o : ℕ) :
      ({ b.setPtr h (some (b.heap.fresh, .delete)) with heap := b.heap.allocate } :
        Handles ι).object x = some o ↔
      x = h ∧ o = b.heap.fresh ∨ b.object x = some o := by
    change (b.setPtr h (some (b.heap.fresh, .delete))).object x = some o ↔ _
    rw [object_setPtr]
    by_cases same : x = h
    · subst same
      simp [deleted, null, eq_comm]
    · simp [same]
  refine ⟨fun o => ?_, fun x y o isX isY => ?_, fun x o isX => ?_, nodup, notBefore⟩
  · simp only [has, Heap.live_allocate, Finset.mem_insert, live]
    constructor
    · rintro (rfl | before | ⟨x, isX⟩ | isLost)
      · exact .inr (.inl ⟨h, .inl ⟨rfl, rfl⟩⟩)
      · exact .inl before
      · exact .inr (.inl ⟨x, .inr isX⟩)
      · exact .inr (.inr isLost)
    · rintro (before | ⟨x, ⟨-, rfl⟩ | isX⟩ | isLost)
      · exact .inr (.inl before)
      · exact .inl rfl
      · exact .inr (.inr (.inl ⟨x, isX⟩))
      · exact .inr (.inr (.inr isLost))
  · rcases (has x o).mp isX with ⟨isNew, fresh⟩ | hadX
    · rcases (has y o).mp isY with ⟨isNewY, -⟩ | hadY
      · rw [isNew, isNewY]
      · exact absurd (fresh ▸ hadY) (notHad y)
    · rcases (has y o).mp isY with ⟨-, fresh⟩ | hadY
      · exact absurd (fresh ▸ hadX) (notHad x)
      · exact unique x y o hadX hadY
  · rcases (has x o).mp isX with ⟨-, rfl⟩ | isX
    · exact ⟨notStart, notLost⟩
    · exact new x o isX

/-- A move to a null handle -/
theorem Owned.move (owned : b.Owned heap lostBefore) (null : b.object d = none) (differ : d ≠ s) :
    (b.move d s).Owned heap lostBefore := by
  rcases owned with ⟨live, unique, new, lost⟩
  have has (x : ι) (o : ℕ) : (b.move d s).object x = some o ↔
      x ≠ s ∧ b.object (if x = d then s else x) = some o := by
    rw [object_move]
    by_cases source : x = s
    · simp [source]
    · by_cases target : x = d <;> simp [source, target]
  refine ⟨fun o => ?_, fun x y o isX isY => ?_, fun x o isX => ?_, lost⟩
  · change o ∈ b.heap.live ↔ _
    rw [live]
    refine or_congr Iff.rfl (or_congr ⟨?_, ?_⟩ Iff.rfl)
    · rintro ⟨x, isX⟩
      by_cases source : x = s
      · exact ⟨d, (has d o).mpr ⟨differ, by rwa [if_pos rfl, ← source]⟩⟩
      · have notTarget : x ≠ d := fun same => by
          rw [same, null] at isX
          cases isX
        exact ⟨x, (has x o).mpr ⟨source, by rwa [if_neg notTarget]⟩⟩
    · rintro ⟨x, isX⟩
      exact ⟨_, ((has x o).mp isX).2⟩
  · rcases (has x o).mp isX with ⟨notX, isX⟩
    rcases (has y o).mp isY with ⟨notY, isY⟩
    have same := unique _ _ o isX isY
    by_cases targetX : x = d <;> by_cases targetY : y = d <;> simp_all
  · exact new _ o ((has x o).mp isX).2

/-- What is owned after an action, which is always possible -/
theorem Owned.next {a : HandleAction ι} (owned : b.Owned heap lostBefore)
    (possible : Possible c b a) :
    ∃ b', b.next c a = some b' ∧ b'.Owned heap (lostBefore ++ b.lost c a) := by
  have null_of_ptr {h : ι} (null : b.ptr h = none) : b.object h = none := by
    rw [object, null]
    rfl
  cases a with
  | construct d allocated =>
      refine ⟨_, rfl, ?_⟩
      simp only [Handles.lost, List.append_nil]
      cases allocated with
      | true => exact owned.allocate (null_of_ptr possible)
      | false => exact owned.setPtr (null_of_ptr possible) rfl
  | borrow d object =>
      refine ⟨_, rfl, ?_⟩
      simp only [Handles.lost, List.append_nil]
      exact owned.setPtr (null_of_ptr possible.1) rfl
  | moveConstruct d s =>
      refine ⟨_, rfl, ?_⟩
      simp only [Handles.lost, List.append_nil]
      exact owned.move (null_of_ptr possible.1) possible.2
  | moveAssign d s =>
      by_cases same : d = s
      · refine ⟨b, if_pos same, ?_⟩
        simpa [Handles.lost, same] using owned
      · have overwritten {b' : Handles ι} (isNull : b'.ptr = (b.setPtr d none).ptr) :
            b'.object d = none := by
          rw [object, isNull]
          simp [Handles.setPtr, deleted]
        cases c with
        | uniquePtr =>
            rcases owned.reset d with ⟨b', reset, isNull, owned'⟩
            refine ⟨b'.move d s, ?_, ?_⟩
            · rw [Handles.next, if_neg same, moveAssign, reset, Option.map_some]
            · simpa [Handles.lost] using owned'.move (overwritten isNull) same
        | sharedBuffer =>
            refine ⟨b.move d s, if_neg same, ?_⟩
            cases has : b.object d with
            | none => simpa [Handles.lost, has] using owned.move has same
            | some o =>
                have moved := (owned.forget has).move (overwritten rfl) same
                rw [move_setPtr same] at moved
                simpa [Handles.lost, has, same] using moved
  | reset h =>
      rcases owned.reset h with ⟨b', reset, -, owned'⟩
      refine ⟨b', reset, ?_⟩
      simpa only [Handles.lost, List.append_nil] using owned'

omit [DecidableEq ι] in
theorem owned_init (heap : Heap) : (init heap : Handles ι).Owned heap [] :=
  ⟨by simp [init, object, deleted], by simp [init, object, deleted],
    by simp [init, object, deleted], by simp, by simp⟩

theorem owned_of_path {actions : List (HandleAction ι)}
    (path : (machine c heap).Path (Possible c) actions b) :
    b.Owned heap (lostIn c heap actions) := by
  induction path with
  | init => exact owned_init heap
  | @step actions b b' a path possible next ih =>
      rcases ih.next possible with ⟨after, isNext, owned⟩
      cases next.symm.trans isNext
      rwa [lostIn, Machine.trace_concat _ path.run_eq]

theorem lostIn_uniquePtr (heap : Heap) (actions : List (HandleAction ι)) :
    lostIn .uniquePtr heap actions = [] := by
  rw [lostIn]
  generalize (machine (ι := ι) .uniquePtr heap).init = b
  induction actions generalizing b with
  | nil => rfl
  | cons a actions ih =>
      have nothing : b.lost .uniquePtr a = [] := by cases a <;> simp [lost]
      rw [Machine.trace, nothing, List.nil_append]
      split
      · exact ih _
      · rfl

/-- `UniquePtr` deletes every object once, and an object is there exactly as long as a handle has
it, which is the only one. -/
theorem uniquePtr_owns {actions : List (HandleAction ι)}
    (path : (machine .uniquePtr heap).Path (Possible .uniquePtr) actions b) :
    (∀ a, Possible .uniquePtr b a → (b.next .uniquePtr a).isSome) ∧
      ∀ o, (o ∈ b.heap.live ↔ o ∈ heap.live ∨ ∃! h, b.object h = some o) ∧
        ∀ h, b.object h = some o → o ∉ heap.live := by
  have owned := owned_of_path path
  rw [lostIn_uniquePtr] at owned
  refine ⟨fun a possible => ?_, fun o => ⟨?_, fun h has => (owned.new h o has).1⟩⟩
  · rcases owned.next possible with ⟨b', next, -⟩
    rw [next, Option.isSome_some]
  · rw [owned.live]
    refine or_congr Iff.rfl ⟨?_, fun ⟨h, has, _⟩ => .inl ⟨h, has⟩⟩
    rintro (⟨h, has⟩ | none)
    · exact ⟨h, has, fun h' has' => owned.unique h' h o has' has⟩
    · cases none

/-- Two handles are constructed, and moved until one of them has the object of the other. -/
def twoMoves : List (HandleAction Bool) :=
  [.construct true true, .moveConstruct false true, .construct true true, .moveAssign false true]

/-- The second object belongs to the target of the assignment. -/
theorem twoMoves_owned : ∃ b : Handles Bool,
    (machine .uniquePtr .empty).Path (Possible .uniquePtr) twoMoves b ∧
      ∃! h, b.object h = some 1 := by
  have run : ∃ b, ((machine .uniquePtr .empty).restrict (Possible .uniquePtr)).run
      (machine .uniquePtr .empty).init twoMoves = some b ∧ 1 ∈ b.heap.live :=
    ⟨_, rfl, by decide⟩
  rcases run with ⟨b, run, isLive⟩
  have path := Machine.path_of_run run
  have notBefore : 1 ∉ Heap.empty.live := by simp [Heap.empty]
  exact ⟨b, path, (((uniquePtr_owns path).2 1).1.mp isLive).resolve_left notBefore⟩

/-- `SharedBuffer` never deletes a descriptor twice either, and when all the handles are gone as
many descriptors are left as have been overwritten by a move assignment. -/
theorem sharedBuffer_loses {actions : List (HandleAction ι)}
    (path : (machine .sharedBuffer heap).Path (Possible .sharedBuffer) actions b) :
    (∀ a, Possible .sharedBuffer b a → (b.next .sharedBuffer a).isSome) ∧
      ((∀ h, b.object h = none) →
        b.heap.live = heap.live ∪ (lostIn .sharedBuffer heap actions).toFinset ∧
          b.heap.live.card = heap.live.card + (lostIn .sharedBuffer heap actions).length) := by
  have owned := owned_of_path path
  refine ⟨fun a possible => ?_, fun gone => ?_⟩
  · rcases owned.next possible with ⟨b', next, -⟩
    rw [next, Option.isSome_some]
  · have left : b.heap.live = heap.live ∪ (lostIn .sharedBuffer heap actions).toFinset := by
      ext o
      simp [owned.live, gone]
    refine ⟨left, ?_⟩
    rw [left, Finset.card_union_of_disjoint, List.toFinset_card_of_nodup owned.lost.1]
    exact Finset.disjoint_right.mpr fun o mem => owned.lost.2 o (List.mem_toFinset.mp mem)

/-- The same moves, and the end of the scope of both handles -/
def twoMovesThenEnd : List (HandleAction Bool) := twoMoves ++ [.reset false, .reset true]

/-- The first descriptor is left. -/
theorem twoMovesThenEnd_loses : ∃ b : Handles Bool,
    (machine .sharedBuffer .empty).Path (Possible .sharedBuffer) twoMovesThenEnd b ∧
      b.heap.live.card = 1 := by
  have run : ∃ b, ((machine .sharedBuffer .empty).restrict (Possible .sharedBuffer)).run
      (machine .sharedBuffer .empty).init twoMovesThenEnd = some b ∧ ∀ h, b.object h = none :=
    ⟨_, rfl, by decide⟩
  rcases run with ⟨b, run, gone⟩
  have path := Machine.path_of_run run
  exact ⟨b, path, ((sharedBuffer_loses path).2 gone).2⟩

end Handles

end CmsisStream.Platform
