import CmsisStream.Dataflow.Net
import Mathlib.Algebra.BigOperators.Group.Finset.Basic
import Mathlib.Algebra.BigOperators.Intervals
import Mathlib.Algebra.Order.BigOperators.Group.Finset

/-!
# Periodic executions

Cyclo-static rates repeat with some period, and so does an execution whose
firing counts bring every edge back to where it was.  This file collects the
totals of a repeated rate and shows that an admissible firing sequence with
periodic counts can be repeated any number of times.
-/

namespace Dataflow

universe u v

open Finset

section CyclePosition

variable {n : ℕ} (k : ℕ)

/-- At the last position of a cycle the next step starts a new one. -/
theorem succ_mod_div_of_last (last : k % n + 1 = n) :
    (k + 1) % n = 0 ∧ (k + 1) / n = k / n + 1 := by
  have next : k + 1 = n * (k / n + 1) := by
    have split := Nat.div_add_mod k n
    rw [Nat.mul_add]
    omega
  have positive : 0 < n := by omega
  refine ⟨?_, ?_⟩
  · rw [next, Nat.mul_mod_right]
  · rw [next, Nat.mul_div_cancel_left _ positive]

/-- Before the last position of a cycle the next step is the next position. -/
theorem succ_mod_div_of_not_last (positive : 0 < n) (notLast : k % n + 1 ≠ n) :
    (k + 1) % n = k % n + 1 ∧ (k + 1) / n = k / n := by
  have below : k % n + 1 < n := lt_of_le_of_ne (Nat.mod_lt k positive) notLast
  have split : k + 1 = k % n + 1 + n * (k / n) := by
    have := Nat.div_add_mod k n
    omega
  refine ⟨?_, ?_⟩
  · rw [split, Nat.add_mul_mod_self_left, Nat.mod_eq_of_lt below]
  · rw [split, Nat.add_mul_div_left _ _ positive, Nat.div_eq_of_lt below, zero_add]

end CyclePosition

/-- The total of the first `k` values of a rate repeated with some period. -/
def cyclicTotal (rate : ℕ → ℕ) (period k : ℕ) : ℕ :=
  ∑ m ∈ range k, rate (m % period)

section CyclicTotal

variable (rate : ℕ → ℕ) (period : ℕ)

@[simp]
theorem cyclicTotal_zero : cyclicTotal rate period 0 = 0 := rfl

theorem cyclicTotal_succ (k : ℕ) :
    cyclicTotal rate period (k + 1) = cyclicTotal rate period k + rate (k % period) :=
  sum_range_succ _ _

theorem cyclicTotal_mono : Monotone (cyclicTotal rate period) := by
  apply monotone_nat_of_le_succ
  intro k
  rw [cyclicTotal_succ]
  exact Nat.le_add_right _ _

/-- Whole periods only contribute their total. -/
theorem cyclicTotal_add_mul (k cycles : ℕ) :
    cyclicTotal rate period (k + cycles * period) =
      cyclicTotal rate period k + cycles * cyclicTotal rate period period := by
  induction cycles with
  | zero => simp
  | succ cycles ih =>
      have onePeriod : ∀ j, cyclicTotal rate period (j + period) =
          cyclicTotal rate period j + cyclicTotal rate period period := by
        intro j
        induction j with
        | zero => simp
        | succ j ihj =>
            rw [Nat.add_right_comm, cyclicTotal_succ, ihj, cyclicTotal_succ,
              Nat.add_mod_right]
            ring
      rw [show k + (cycles + 1) * period = k + cycles * period + period by ring,
        onePeriod, ih]
      ring

end CyclicTotal

namespace Net

variable {Node : Type u} {Edge : Type v} {net : Net Node Edge}

/-- Firing every node `r` times more leaves the number of samples on each edge unchanged. -/
def Balanced (net : Net Node Edge) (r : Node → ℕ) : Prop :=
  ∀ x e, net.level (x + r) e = net.level x e

theorem Balanced.nsmul {r : Node → ℕ} (balanced : net.Balanced r) (m : ℕ) :
    net.Balanced (m • r) := by
  intro x e
  induction m with
  | zero => simp
  | succ m ih => rw [succ_nsmul, ← add_assoc, balanced, ih]

variable [DecidableEq Node]

/-- Every firing is a firing of some node. -/
theorem sum_counts [Fintype Node] (firings : List Node) :
    ∑ node, counts firings node = firings.length := by
  simpa [counts] using Multiset.sum_count_eq_card (s := univ) (m := (firings : Multiset Node))
    fun node _ => mem_univ node

theorem counts_flatten_replicate (m : ℕ) (firings : List Node) :
    counts (List.replicate m firings).flatten = m • counts firings := by
  induction m with
  | zero => simp only [List.replicate_zero, List.flatten_nil, counts_nil, zero_nsmul]; rfl
  | succ m ih =>
      rw [List.replicate_succ', List.flatten_append, counts_append, ih, succ_nsmul]
      simp

omit [DecidableEq Node] in
/-- A prefix of a repeated sequence is some whole repetitions and a prefix of one more. -/
theorem prefix_flatten_replicate {firings before : List Node} {m : ℕ}
    (isPrefix : before <+: (List.replicate m firings).flatten) :
    ∃ cycles rest, before = (List.replicate cycles firings).flatten ++ rest ∧
      rest <+: firings := by
  induction m generalizing before with
  | zero =>
      refine ⟨0, [], ?_, List.nil_prefix⟩
      simpa [List.prefix_nil] using isPrefix
  | succ m ih =>
      rw [List.replicate_succ, List.flatten_cons] at isPrefix
      obtain ⟨after, eq⟩ := isPrefix
      rcases List.append_eq_append_iff.mp eq with ⟨tail, rfl, -⟩ | ⟨tail, rfl, eqTail⟩
      · exact ⟨0, before, by simp, List.prefix_append _ _⟩
      · obtain ⟨cycles, rest, rfl, restPrefix⟩ := ih ⟨after, eqTail.symm⟩
        refine ⟨cycles + 1, rest, ?_, restPrefix⟩
        rw [List.replicate_succ, List.flatten_cons, List.append_assoc]

omit [DecidableEq Node] in
/-- A firing of a repeated sequence is a firing of one of its repetitions. -/
theorem firing_of_flatten_replicate {firings before : List Node} {node : Node} {m : ℕ}
    (isPrefix : before ++ [node] <+: (List.replicate m firings).flatten) :
    ∃ cycles early, before = (List.replicate cycles firings).flatten ++ early ∧
      early ++ [node] <+: firings := by
  induction m generalizing before with
  | zero => simp at isPrefix
  | succ m ih =>
      rw [List.replicate_succ, List.flatten_cons] at isPrefix
      obtain ⟨after, eq⟩ := isPrefix
      rcases List.append_eq_append_iff.mp eq with ⟨tail, rfl, -⟩ | ⟨tail, eqBefore, eqTail⟩
      · exact ⟨0, before, by simp, List.prefix_append _ _⟩
      · rcases List.eq_nil_or_concat tail with rfl | ⟨tail, last, rfl⟩
        · rw [List.append_nil] at eqBefore
          exact ⟨0, before, by simp, eqBefore ▸ List.prefix_rfl⟩
        · rw [List.concat_eq_append, ← List.append_assoc] at eqBefore
          obtain ⟨rfl, same⟩ := List.append_inj' eqBefore rfl
          obtain rfl := List.singleton_inj.mp same
          obtain ⟨cycles, early, rfl, earlyPrefix⟩ := ih ⟨after, by
            rw [eqTail, List.concat_eq_append]⟩
          refine ⟨cycles + 1, early, ?_, earlyPrefix⟩
          rw [List.replicate_succ, List.flatten_cons, List.append_assoc]

/-- An admissible firing sequence with balanced counts can be repeated for ever. -/
theorem Admissible.repeat {capacity : Edge → WithTop ℤ} {firings : List Node}
    (admissible : net.Admissible capacity firings) (balanced : net.Balanced (counts firings))
    (m : ℕ) : net.Admissible capacity (List.replicate m firings).flatten := by
  intro before isPrefix e
  obtain ⟨cycles, rest, rfl, restPrefix⟩ := prefix_flatten_replicate isPrefix
  rw [counts_append, counts_flatten_replicate, add_comm, balanced.nsmul cycles]
  exact admissible rest restPrefix e

end Net

end Dataflow
