import Mathlib.Data.List.Basic
import Mathlib.Logic.Function.Iterate
import Mathlib.Tactic.SplitIfs

/-!
# Ring buffers

A ring buffer keeps its items from a read position on, going back to the start of the array
at its end.  A slot is empty when nothing was ever written there or its item has been moved.
-/

/-- The slots of the array, the two positions and the number of items. -/
structure RingBuffer (α : Type) where
  slots : ℕ → Option α
  read : ℕ
  write : ℕ
  count : ℕ

namespace RingBuffer

variable {α : Type} {capacity : ℕ} {ring : RingBuffer α} {item : α} {items : List α}

def empty : RingBuffer α where
  slots _ := none
  read := 0
  write := 0
  count := 0

/-- The position after this one. -/
def advance (capacity position : ℕ) : ℕ :=
  if position + 1 = capacity then 0 else position + 1

/-- Write an item after the others, if there is room. -/
def push (capacity : ℕ) (ring : RingBuffer α) (item : α) : RingBuffer α where
  slots := Function.update ring.slots ring.write (some item)
  read := ring.read
  write := advance capacity ring.write
  count := ring.count + 1

/-- Move the first item out. -/
def pop (capacity : ℕ) (ring : RingBuffer α) : RingBuffer α where
  slots := Function.update ring.slots ring.read none
  read := advance capacity ring.read
  write := ring.write
  count := ring.count - 1

/-- Move all the items out, one after the other. -/
def clear (capacity : ℕ) (ring : RingBuffer α) : RingBuffer α :=
  (pop capacity)^[ring.count] ring

theorem count_clear : (ring.clear capacity).count = 0 := by
  have popped : ∀ n (r : RingBuffer α), ((pop capacity)^[n] r).count = r.count - n := by
    intro n
    induction n with
    | zero => exact fun r => rfl
    | succ n ih =>
        intro r
        rw [Function.iterate_succ_apply, ih, pop, Nat.sub_sub, Nat.add_comm]
  rw [clear, popped, Nat.sub_self]

/-- The first item. -/
def front (ring : RingBuffer α) : Option α := ring.slots ring.read

/-- The items of the ring, the first one first. -/
def contents (capacity : ℕ) (ring : RingBuffer α) : List α :=
  (List.range ring.count).filterMap fun i => ring.slots ((ring.read + i) % capacity)

/-- The ring holds these items, in this order. -/
structure Holds (capacity : ℕ) (ring : RingBuffer α) (items : List α) : Prop where
  count : ring.count = items.length
  room : items.length ≤ capacity
  read : ring.read < max 1 capacity
  write : ring.write = (ring.read + items.length) % capacity
  slots : ∀ i (lt : i < items.length), ring.slots ((ring.read + i) % capacity) = some items[i]

theorem advance_eq {position : ℕ} (lt : position < capacity) :
    advance capacity position = (position + 1) % capacity := by
  rw [advance]
  split
  · rename_i last
    rw [last, Nat.mod_self]
  · rw [Nat.mod_eq_of_lt]
    omega

/-- Positions at a distance less than the capacity are different. -/
theorem slot_ne {position i j : ℕ} (lt : i < j) (near : j - i < capacity) :
    (position + i) % capacity ≠ (position + j) % capacity := by
  intro same
  have zero := Nat.sub_mod_eq_zero_of_mod_eq same.symm
  rw [Nat.add_sub_add_left, Nat.mod_eq_of_lt near] at zero
  omega

theorem holds_empty (capacity : ℕ) : (empty : RingBuffer α).Holds capacity [] where
  count := rfl
  room := Nat.zero_le _
  read := Nat.lt_of_lt_of_le Nat.zero_lt_one (Nat.le_max_left 1 capacity)
  write := by simp [empty]
  slots i lt := absurd lt (Nat.not_lt_zero i)

namespace Holds

theorem contents (holds : ring.Holds capacity items) : ring.contents capacity = items := by
  have slots : (List.range items.length).map
      (fun i => ring.slots ((ring.read + i) % capacity)) = items.map some := by
    apply List.ext_getElem
    · simp
    · intro i lt lt'
      rw [List.length_map] at lt'
      simp [holds.slots i lt']
  have moved : ((List.range items.length).map
      (fun i => ring.slots ((ring.read + i) % capacity))).filterMap id = items := by
    rw [slots, List.filterMap_map]
    exact List.filterMap_some
  rw [List.filterMap_map] at moved
  rwa [RingBuffer.contents, holds.count]

theorem front (holds : ring.Holds capacity (item :: items)) : ring.front = some item := by
  have first := holds.slots 0 (by simp)
  have room := holds.room
  have read := holds.read
  rw [List.length_cons] at room
  rwa [Nat.add_zero, Nat.mod_eq_of_lt (by omega)] at first

theorem push (holds : ring.Holds capacity items) (room : items.length < capacity) (item : α) :
    (ring.push capacity item).Holds capacity (items ++ [item]) where
  count := by simp [RingBuffer.push, holds.count]
  room := by
    rw [List.length_append, List.length_singleton]
    omega
  read := holds.read
  write := by
    have lt : ring.write < capacity := holds.write ▸ Nat.mod_lt _ (by omega)
    rw [RingBuffer.push, advance_eq lt, holds.write, List.length_append, List.length_singleton,
      Nat.mod_add_mod, Nat.add_assoc]
  slots := by
    intro i lt
    rw [List.length_append, List.length_singleton] at lt
    by_cases last : i = items.length
    · subst last
      rw [RingBuffer.push, ← holds.write]
      simp
    · have lt' : i < items.length := by omega
      have other : (ring.read + i) % capacity ≠ ring.write := by
        rw [holds.write]
        exact slot_ne lt' (by omega)
      rw [List.getElem_append_left lt', ← holds.slots i lt']
      exact Function.update_of_ne other _ _

theorem pop (holds : ring.Holds capacity (item :: items)) :
    (ring.pop capacity).Holds capacity items := by
  have room := holds.room
  have lt := holds.read
  rw [List.length_cons] at room
  have inside : ring.read < capacity := by omega
  have next : (ring.pop capacity).read = (ring.read + 1) % capacity := advance_eq inside
  refine ⟨by simp [RingBuffer.pop, holds.count], by omega, ?_, ?_, ?_⟩
  · have bound := Nat.mod_lt (ring.read + 1) (by omega : 0 < capacity)
    omega
  · rw [next, Nat.mod_add_mod, Nat.add_assoc, Nat.add_comm 1]
    exact holds.write
  · intro i lt
    have slot := holds.slots (i + 1) (by simpa using lt)
    have other : (ring.read + (i + 1)) % capacity ≠ ring.read := by
      have ne : (ring.read + 0) % capacity ≠ (ring.read + (i + 1)) % capacity :=
        slot_ne (by omega) (by omega)
      rw [Nat.add_zero, Nat.mod_eq_of_lt inside] at ne
      exact ne.symm
    rw [next, Nat.mod_add_mod, Nat.add_assoc, Nat.add_comm 1]
    rw [← List.getElem_cons_succ item items i (by simpa using lt), ← slot]
    exact Function.update_of_ne other _ _

theorem clear (holds : ring.Holds capacity items) : (ring.clear capacity).Holds capacity [] := by
  rw [RingBuffer.clear, holds.count]
  induction items generalizing ring with
  | nil => exact holds
  | cons item items ih => exact ih holds.pop

end Holds

end RingBuffer
