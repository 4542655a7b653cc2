import Mathlib.Algebra.Order.Floor.Ring
import Mathlib.Data.Int.ConditionallyCompleteOrder
import Mathlib.Data.List.Infix
import Mathlib.Order.WithBot
import Mathlib.Tactic.Ring

/-!
# Counting dataflow nets

A dataflow net joins nodes by edges.  How many samples the `k` first firings of
the source of an edge produce, and how many the `k` first firings of its
destination consume, is given by two monotone functions, so static and
cyclo-static rates are both instances.  The number of samples on an edge then
depends only on how many times each node was fired, not on the order.

The main result is the exchange property `exists_within_fire`: when a firing
order stays within the capacities, every other partial execution which stays
within them can be continued towards the same firing counts.
-/

namespace Dataflow

universe u v

/-- A net whose edges carry samples from a source node to a destination node. -/
structure Net (Node : Type u) (Edge : Type v) where
  src : Edge → Node
  dst : Edge → Node
  /-- Samples on the edge before the first firing. -/
  initial : Edge → ℤ
  /-- Samples written by the first `k` firings of the source. -/
  produced : Edge → ℕ → ℕ
  /-- Samples read by the first `k` firings of the destination. -/
  consumed : Edge → ℕ → ℕ
  produced_mono : ∀ e, Monotone (produced e)
  consumed_mono : ∀ e, Monotone (consumed e)

/-- How many times each node occurs in a sequence of firings. -/
def counts {Node : Type u} [DecidableEq Node] (firings : List Node) : Node → ℕ :=
  fun node => firings.count node

/-- The firing counts after one more firing of a node. -/
def bump {Node : Type u} [DecidableEq Node] (x : Node → ℕ) (node : Node) : Node → ℕ :=
  Function.update x node (x node + 1)

section Counts

variable {Node : Type u} [DecidableEq Node]

@[simp]
theorem counts_nil : counts ([] : List Node) = fun _ => 0 := by
  funext node
  simp [counts]

@[simp]
theorem counts_concat (firings : List Node) (node : Node) :
    counts (firings ++ [node]) = bump (counts firings) node := by
  funext other
  by_cases same : other = node
  · subst same
    simp [counts, bump]
  · simp [counts, bump, Function.update_of_ne same, Ne.symm same]

theorem counts_append (first second : List Node) :
    counts (first ++ second) = counts first + counts second := by
  funext node
  simp [counts]

@[simp]
theorem bump_self (x : Node → ℕ) (node : Node) : bump x node node = x node + 1 := by
  simp [bump]

@[simp]
theorem bump_of_ne (x : Node → ℕ) {node other : Node} (ne : other ≠ node) :
    bump x node other = x other := by
  simp [bump, Function.update_of_ne ne]

/-- A firing sequence which exceeds the counts `x` has a first firing exceeding them. -/
theorem exists_first_excess {firings : List Node} {x : Node → ℕ}
    (excess : ¬counts firings ≤ x) :
    ∃ before node, before ++ [node] <+: firings ∧ counts before ≤ x ∧
      counts before node = x node := by
  induction firings using List.reverseRecOn with
  | nil => exact absurd (fun node => by simp) excess
  | append_singleton firings last ih =>
      by_cases within : counts firings ≤ x
      · refine ⟨firings, last, List.prefix_rfl, within, le_antisymm (within last) ?_⟩
        -- all other nodes are within `x`, so the excess is the last firing
        by_contra below
        apply excess
        intro node
        rw [counts_concat]
        by_cases same : node = last
        · subst same
          rw [bump_self]
          exact Nat.succ_le_of_lt (not_le.mp below)
        · rw [bump_of_ne _ same]
          exact within node
      · obtain ⟨before, node, isPrefix, le, eq⟩ := ih within
        exact ⟨before, node, isPrefix.trans (List.prefix_append _ _), le, eq⟩

end Counts

namespace Net

variable {Node : Type u} {Edge : Type v} (net : Net Node Edge)

/-- The number of samples on an edge after the firing counts `x`. -/
def level (x : Node → ℕ) (e : Edge) : ℤ :=
  net.initial e + net.produced e (x (net.src e)) - net.consumed e (x (net.dst e))

/-- No edge is below zero or above its capacity. -/
def Within (capacity : Edge → WithTop ℤ) (x : Node → ℕ) : Prop :=
  ∀ e, 0 ≤ net.level x e ∧ (net.level x e : WithTop ℤ) ≤ capacity e

/-- Every prefix of a firing sequence stays within the capacities. -/
def Admissible [DecidableEq Node] (capacity : Edge → WithTop ℤ) (firings : List Node) : Prop :=
  ∀ before, before <+: firings → net.Within capacity (counts before)

variable {net}

theorem level_congr {x y : Node → ℕ} {e : Edge} (src : x (net.src e) = y (net.src e))
    (dst : x (net.dst e) = y (net.dst e)) : net.level x e = net.level y e := by
  simp only [level, src, dst]

theorem Within.mono {capacity larger : Edge → WithTop ℤ} {x : Node → ℕ}
    (within : net.Within capacity x) (le : capacity ≤ larger) : net.Within larger x :=
  fun e => ⟨(within e).1, (within e).2.trans (le e)⟩

variable [DecidableEq Node]

theorem Admissible.within {capacity : Edge → WithTop ℤ} {firings : List Node}
    (admissible : net.Admissible capacity firings) : net.Within capacity (counts firings) :=
  admissible firings List.prefix_rfl

theorem Admissible.of_prefix {capacity : Edge → WithTop ℤ} {before firings : List Node}
    (admissible : net.Admissible capacity firings) (isPrefix : before <+: firings) :
    net.Admissible capacity before :=
  fun _ earlier => admissible _ (earlier.trans isPrefix)

theorem Admissible.mono {capacity larger : Edge → WithTop ℤ} {firings : List Node}
    (admissible : net.Admissible capacity firings) (le : capacity ≤ larger) :
    net.Admissible larger firings :=
  fun before isPrefix => (admissible before isPrefix).mono le

theorem admissible_nil_iff {capacity : Edge → WithTop ℤ} :
    net.Admissible capacity [] ↔ net.Within capacity fun _ => 0 := by
  simp [Admissible, List.prefix_nil]

theorem admissible_concat_iff {capacity : Edge → WithTop ℤ} {firings : List Node} {node : Node} :
    net.Admissible capacity (firings ++ [node]) ↔
      net.Admissible capacity firings ∧ net.Within capacity (bump (counts firings) node) := by
  constructor
  · intro admissible
    refine ⟨admissible.of_prefix (List.prefix_append _ _), ?_⟩
    simpa using admissible.within
  · rintro ⟨admissible, last⟩ before isPrefix
    rcases List.prefix_concat_iff.mp isPrefix with rfl | earlier
    · simpa using last
    · exact admissible before earlier

/-- A firing only touches the edges of the node that fires. -/
theorem level_bump_of_ne {x : Node → ℕ} {node : Node} {e : Edge} (notSrc : net.src e ≠ node)
    (notDst : net.dst e ≠ node) : net.level (bump x node) e = net.level x e :=
  level_congr (bump_of_ne x notSrc) (bump_of_ne x notDst)

/-- Persistence: a firing possible after the counts `y` stays possible after larger
counts `x` in which the same node was fired equally often. -/
theorem within_bump_of_le {capacity : Edge → WithTop ℤ} (noLoop : ∀ e, net.src e ≠ net.dst e)
    {x y : Node → ℕ} {node : Node} (le : y ≤ x) (same : y node = x node)
    (within : net.Within capacity x) (possible : net.Within capacity (bump y node)) :
    net.Within capacity (bump x node) := by
  intro e
  by_cases isDst : net.dst e = node
  · -- the input edge has lost samples to nobody else and may have gained some
    have notSrc : net.src e ≠ node := fun isSrc => noLoop e (isSrc.trans isDst.symm)
    have gained : net.produced e (y (net.src e)) ≤ net.produced e (x (net.src e)) :=
      net.produced_mono e (le (net.src e))
    have shrinks : net.level (bump x node) e ≤ net.level x e := by
      have more := net.consumed_mono e (Nat.le_succ (x node))
      simp only [level, isDst, bump_self, bump_of_ne x notSrc, Nat.succ_eq_add_one] at more ⊢
      omega
    refine ⟨?_, (WithTop.coe_le_coe.mpr shrinks).trans (within e).2⟩
    have nonneg := (possible e).1
    simp only [level, isDst, bump_self, bump_of_ne x notSrc, bump_of_ne y notSrc, same]
      at nonneg ⊢
    omega
  · by_cases isSrc : net.src e = node
    · -- the output edge has gained samples from nobody else and may have lost some
      have lost : net.consumed e (y (net.dst e)) ≤ net.consumed e (x (net.dst e)) :=
        net.consumed_mono e (le (net.dst e))
      have smaller : net.level (bump x node) e ≤ net.level (bump y node) e := by
        simp only [level, isSrc, bump_self, bump_of_ne x isDst, bump_of_ne y isDst, same]
        omega
      refine ⟨?_, (WithTop.coe_le_coe.mpr smaller).trans (possible e).2⟩
      have nonneg := (within e).1
      have more := net.produced_mono e (Nat.le_succ (x node))
      simp only [level, isSrc, bump_self, bump_of_ne x isDst, Nat.succ_eq_add_one]
        at nonneg more ⊢
      omega
    · rw [level_bump_of_ne isSrc isDst]
      exact within e

/-- Exchange property: as long as the counts of an admissible firing sequence are not
reached, some node which still has to be fired can be fired. -/
theorem exists_within_bump (net : Net Node Edge) {capacity : Edge → WithTop ℤ}
    (noLoop : ∀ e, net.src e ≠ net.dst e) {firings : List Node}
    (admissible : net.Admissible capacity firings) {x : Node → ℕ}
    (within : net.Within capacity x) (le : x ≤ counts firings) (ne : x ≠ counts firings) :
    ∃ node, x node < counts firings node ∧ net.Within capacity (bump x node) := by
  have excess : ¬counts firings ≤ x := fun ge => ne (le_antisymm le ge)
  obtain ⟨before, node, isPrefix, smaller, same⟩ := exists_first_excess excess
  refine ⟨node, ?_, ?_⟩
  · obtain ⟨rest, rfl⟩ := isPrefix
    rw [counts_append, counts_concat, Pi.add_apply, bump_self, same]
    omega
  · have possible : net.Within capacity (bump (counts before) node) := by
      simpa using (admissible _ isPrefix)
    exact within_bump_of_le noLoop smaller same within possible

end Net

end Dataflow
