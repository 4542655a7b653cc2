import Mathlib.Data.List.Basic
import Mathlib.Data.Nat.Notation

/-!
# Copies between arrays

An array is a list of its items.  A copy, and the loop which combines the items of
two arrays, fail when they leave one of the arrays, so that a program which is
proved to end does not.
-/

namespace ArrayCopy

variable {α : Type}

/-- Copies `count` items of `src` from `srcPos` on to `dst` from `dstPos` on. -/
def memcpy (dst : List α) (dstPos : ℕ) (src : List α) (srcPos count : ℕ) : Option (List α) :=
  if dstPos + count ≤ dst.length ∧ srcPos + count ≤ src.length then
    some (dst.take dstPos ++ (src.drop srcPos).take count ++ dst.drop (dstPos + count))
  else none

/-- A copy within both arrays changes the items of its range and no others. -/
theorem memcpy_spec {dst src : List α} {dstPos srcPos count : ℕ}
    (dstFits : dstPos + count ≤ dst.length) (srcFits : srcPos + count ≤ src.length) :
    ∃ result, memcpy dst dstPos src srcPos count = some result ∧
      result.length = dst.length ∧
      (∀ i < count, result[dstPos + i]? = src[srcPos + i]?) ∧
      (∀ i < dstPos, result[i]? = dst[i]?) ∧
      ∀ i, dstPos + count ≤ i → result[i]? = dst[i]? := by
  refine ⟨_, if_pos ⟨dstFits, srcFits⟩, ?_, ?_, ?_, ?_⟩
  · simp only [List.length_append, List.length_take, List.length_drop]
    omega
  · intro i inRange
    have length : (dst.take dstPos).length = dstPos := List.length_take_of_le (by omega)
    rw [List.append_assoc, List.getElem?_append_right (by omega), List.getElem?_append_left]
    · rw [length, Nat.add_sub_cancel_left, List.getElem?_take, if_pos inRange, List.getElem?_drop]
    · simp only [List.length_take, List.length_drop]
      omega
  · intro i before
    rw [List.append_assoc, List.getElem?_append_left]
    · simp [before]
    · simp only [List.length_take]
      omega
  · intro i after
    rw [List.getElem?_append_right]
    · simp only [List.length_append, List.length_take, List.length_drop, List.getElem?_drop]
      congr 1
      omega
    · simp only [List.length_append, List.length_take, List.length_drop]
      omega

/-- `for (i = 0; i < count; i++) dst[i] = combine(src[i], dst[i])` -/
def combineInto (combine : α → α → α) (src : List α) (count : ℕ) (dst : List α) :
    Option (List α) :=
  (List.range count).foldlM (fun dst i => do
    let x ← src[i]?
    let y ← dst[i]?
    pure (dst.set i (combine x y))) dst

/-- The loop changes the first items and no others. -/
theorem combineInto_spec (combine : α → α → α) {src dst : List α} {count : ℕ}
    (srcFits : count ≤ src.length) (dstFits : count ≤ dst.length) :
    ∃ result, combineInto combine src count dst = some result ∧
      result.length = dst.length ∧
      (∀ i < count, ∀ x y, src[i]? = some x → dst[i]? = some y →
        result[i]? = some (combine x y)) ∧
      ∀ i, count ≤ i → result[i]? = dst[i]? := by
  induction count with
  | zero => exact ⟨dst, rfl, rfl, by simp, by simp⟩
  | succ count ih =>
      rcases ih (by omega) (by omega) with ⟨partly, run, length, changed, kept⟩
      have inSrc : src[count]? = some src[count] := List.getElem?_eq_getElem srcFits
      have inDst : dst[count]? = some dst[count] := List.getElem?_eq_getElem dstFits
      refine ⟨partly.set count (combine src[count] dst[count]), ?_, ?_, ?_, ?_⟩
      · unfold combineInto at run ⊢
        rw [List.range_succ, List.foldlM_append, run]
        simp [inSrc, (kept count (Nat.le_refl _)).trans inDst]
      · rw [List.length_set, length]
      · intro i inRange x y isX isY
        by_cases last : i = count
        · subst last
          rw [isX] at inSrc
          rw [isY] at inDst
          rw [List.getElem?_set_self (by omega), ← Option.some.inj inSrc, ← Option.some.inj inDst]
        · rw [List.getElem?_set_ne (Ne.symm last)]
          exact changed i (by omega) x y isX isY
      · intro i after
        rw [List.getElem?_set_ne (by omega)]
        exact kept i (by omega)

end ArrayCopy
