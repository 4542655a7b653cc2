import CmsisStream.Dataflow.Balance
import CmsisStream.Scheduler.RepetitionVector
import Mathlib.Algebra.BigOperators.Field

/-!
# The smallest solution of the balance equations

The rows of the topology matrix are the balance equations of the edges.  On a
connected graph their solutions are determined by the value at one node, so the
null space has at most one basis vector, and this vector is positive.  Removing
the denominators and the common factor gives the smallest positive integer
solution.
-/

namespace CmsisStream.Scheduler

open Dataflow

/-- The basis of the null space given by the reduced row echelon form: each vector has a one at
its free coordinate, where the others have a zero, and they generate the null space. -/
structure ReducedBasis {rows columns : ℕ} (m : Fin rows → Fin columns → ℤ)
    (vectors : List (Fin columns → ℚ)) : Prop where
  kernel : ∀ vector ∈ vectors, ∀ row, ∑ column, (m row column : ℚ) * vector column = 0
  free : ∃ free : Fin vectors.length → Fin columns,
    (∀ i j, vectors.get i (free j) = if i = j then 1 else 0) ∧
    ∀ x : Fin columns → ℚ, (∀ row, ∑ column, (m row column : ℚ) * x column = 0) →
      ∀ column, x column = ∑ i, x (free i) * vectors.get i column

namespace Graph

variable {g : Graph}

theorem totalProduced_pos (e : Fin g.nbEdges) : 0 < g.totalProduced e := by
  rcases g.src_cyclePeriod_dvd e with ⟨factor, eq⟩
  have period := NbSamples.cyclePeriod_pos (g.edge e).src.positive
  have positive := g.cyclePeriod_pos (g.edge e).srcOwner
  rw [eq] at positive
  rw [totalProduced, eq, Nat.mul_left_comm, Nat.mul_div_cancel_left _ period]
  exact Nat.mul_pos (g.edge e).src.positive (Nat.pos_of_mul_pos_left positive)

theorem totalConsumed_pos (e : Fin g.nbEdges) : 0 < g.totalConsumed e := by
  rcases g.dst_cyclePeriod_dvd e with ⟨factor, eq⟩
  have period := NbSamples.cyclePeriod_pos (g.edge e).dst.positive
  have positive := g.cyclePeriod_pos (g.edge e).dstOwner
  rw [eq] at positive
  rw [totalConsumed, eq, Nat.mul_left_comm, Nat.mul_div_cancel_left _ period]
  exact Nat.mul_pos (g.edge e).dst.positive (Nat.pos_of_mul_pos_left positive)

/-- The rates of full cycles. -/
def rateNet (g : Graph) : RateNet (Fin g.nbNodes) (Fin g.nbEdges) where
  src e := (g.edge e).srcOwner
  dst e := (g.edge e).dstOwner
  produced := g.totalProduced
  consumed := g.totalConsumed
  produced_pos := totalProduced_pos
  consumed_pos := totalConsumed_pos

/-- The balance equations of the edges. -/
abbrev BalanceEquations (g : Graph) (x : Fin g.nbNodes → ℚ) : Prop :=
  g.rateNet.Balances x

/-- The walk of `nx.is_connected` only visits nodes joined to the first one. -/
theorem joined_of_mem_expand (n : ℕ) {start : List (Fin g.nbNodes)} {node : Fin g.nbNodes}
    (mem : node ∈ g.expand^[n] start) :
    ∃ first ∈ start, Relation.EqvGen g.rateNet.Joined first node := by
  induction n generalizing node with
  | zero => exact ⟨node, mem, Relation.EqvGen.refl node⟩
  | succ n ih =>
      rw [Function.iterate_succ_apply'] at mem
      unfold expand at mem
      simp only [List.mem_filter, List.mem_finRange, true_and, decide_eq_true_eq] at mem
      rcases mem with seen | ⟨e, ⟨isSrc, seen⟩ | ⟨isDst, seen⟩⟩
      · exact ih seen
      · rcases ih seen with ⟨first, firstMem, path⟩
        refine ⟨first, firstMem, path.trans _ _ _ (Relation.EqvGen.symm _ _ ?_)⟩
        exact Relation.EqvGen.rel _ _ ⟨e, isSrc, rfl⟩
      · rcases ih seen with ⟨first, firstMem, path⟩
        exact ⟨first, firstMem, path.trans _ _ _ (Relation.EqvGen.rel _ _ ⟨e, rfl, isDst⟩)⟩

theorem connected_of_isConnected (isConnected : g.isConnected = true) :
    g.rateNet.Connected := by
  unfold Graph.isConnected at isConnected
  rw [decide_eq_true_eq] at isConnected
  have nodup : ∀ n, (g.expand^[n] ((List.finRange g.nbNodes).take 1)).Nodup := by
    intro n
    cases n with
    | zero => exact (List.nodup_finRange _).sublist (List.take_sublist _ _)
    | succ n =>
        rw [Function.iterate_succ_apply']
        exact (List.nodup_finRange _).filter _
  have everyNode : ∀ node, node ∈ g.expand^[g.nbNodes] ((List.finRange g.nbNodes).take 1) := by
    intro node
    have all := Finset.eq_univ_of_card (List.toFinset _)
      ((List.toFinset_card_of_nodup (nodup _)).trans
        (isConnected.trans (Fintype.card_fin g.nbNodes).symm))
    rw [← List.mem_toFinset, all]
    exact Finset.mem_univ node
  have fromFirst : ∀ node, ∃ first ∈ (List.finRange g.nbNodes).take 1,
      Relation.EqvGen g.rateNet.Joined first node := fun node =>
    joined_of_mem_expand _ (everyNode node)
  intro a b
  rcases fromFirst a with ⟨first, mem, path⟩
  rcases fromFirst b with ⟨first', mem', path'⟩
  have same : ∀ l : List (Fin g.nbNodes), first ∈ l.take 1 → first' ∈ l.take 1 →
      first = first' := by
    intro l isFirst isFirst'
    cases l with
    | nil => simp at isFirst
    | cons head l => simp_all
  obtain rfl := same _ mem mem'
  exact (path.symm _ _).trans _ _ _ path'

/-- A row of the topology matrix is the balance equation of its edge. -/
theorem topologyMatrix_row {e : Fin g.nbEdges}
    (ends : (g.edge e).srcOwner ≠ (g.edge e).dstOwner) (x : Fin g.nbNodes → ℚ) :
    ∑ node, (g.topologyMatrix e node : ℚ) * x node =
      x (g.edge e).srcOwner * g.totalProduced e - x (g.edge e).dstOwner * g.totalConsumed e := by
  have others : ∀ node ∈ Finset.univ,
      node ∉ ({(g.edge e).srcOwner, (g.edge e).dstOwner} : Finset (Fin g.nbNodes)) →
        (g.topologyMatrix e node : ℚ) * x node = 0 := by
    intro node _ notEnd
    simp only [Finset.mem_insert, Finset.mem_singleton, not_or] at notEnd
    simp [topologyMatrix, notEnd.1, notEnd.2]
  rw [← Finset.sum_subset (Finset.subset_univ _) others, Finset.sum_pair ends]
  simp only [topologyMatrix, if_neg ends, if_true]
  push_cast
  ring

/-- The row of an edge between a node and itself only has the samples consumed. -/
theorem topologyMatrix_row_of_loop (x : Fin g.nbNodes → ℚ) {e : Fin g.nbEdges}
    (loop : (g.edge e).srcOwner = (g.edge e).dstOwner) :
    ∑ node, (g.topologyMatrix e node : ℚ) * x node =
      -(x (g.edge e).dstOwner * g.totalConsumed e) := by
  rw [Finset.sum_eq_single (g.edge e).dstOwner]
  · simp only [topologyMatrix, if_true]
    push_cast
    ring
  · intro node _ notDst
    rw [topologyMatrix, if_neg notDst, if_neg (loop ▸ notDst), Int.cast_zero, zero_mul]
  · intro notMem
    exact absurd (Finset.mem_univ _) notMem

/-- A vector of the null space which is zero at one node is zero. -/
theorem eq_zero_of_topologyMatrix (connected : g.rateNet.Connected) {x : Fin g.nbNodes → ℚ}
    (inKernel : ∀ e, ∑ node, (g.topologyMatrix e node : ℚ) * x node = 0) {first : Fin g.nbNodes}
    (zero : x first = 0) (node : Fin g.nbNodes) : x node = 0 := by
  apply connected.forall_of_edges (P := fun node => x node = 0) _ zero
  intro e
  by_cases loop : (g.edge e).srcOwner = (g.edge e).dstOwner
  · exact iff_of_eq (congrArg (x · = 0) loop)
  · have produced : (g.totalProduced e : ℚ) ≠ 0 := by exact_mod_cast (totalProduced_pos e).ne'
    have consumed : (g.totalConsumed e : ℚ) ≠ 0 := by exact_mod_cast (totalConsumed_pos e).ne'
    have row := inKernel e
    rw [topologyMatrix_row loop] at row
    change x (g.edge e).srcOwner = 0 ↔ x (g.edge e).dstOwner = 0
    constructor
    · intro isZero
      simpa [isZero, consumed] using row
    · intro isZero
      simpa [isZero, produced] using row

end Graph

section Kernel

variable {g : Graph} {nullspace : Nullspace}

theorem balanceEquations_iff (noLoop : g.NoLoop) (x : Fin g.nbNodes → ℚ) :
    g.BalanceEquations x ↔ ∀ e, ∑ node, (g.topologyMatrix e node : ℚ) * x node = 0 := by
  apply forall_congr'
  intro e
  rw [Graph.topologyMatrix_row (noLoop e), sub_eq_zero]
  rfl

/-- The null space of the topology matrix has at most one basis vector. -/
theorem length_le_of_reducedBasis {vectors : List (Fin g.nbNodes → ℚ)}
    (basis : ReducedBasis g.topologyMatrix vectors) (connected : g.rateNet.Connected) :
    vectors.length ≤ 1 := by
  rcases basis.free with ⟨free, isFree, -⟩
  by_contra several
  have two : 1 < vectors.length := not_le.mp several
  have one : 0 < vectors.length := Nat.zero_lt_of_lt two
  have zero : vectors.get ⟨0, one⟩ (free ⟨1, two⟩) = 0 := by
    rw [isFree, if_neg (by simp)]
  have everywhere := Graph.eq_zero_of_topologyMatrix connected
    (basis.kernel _ (List.get_mem _ _)) zero (free ⟨0, one⟩)
  rw [isFree, if_pos rfl] at everywhere
  exact one_ne_zero everywhere

/-- What `nullVector` solves: either the null space is trivial, or it has one basis vector, with
a one. -/
theorem nullVector_cases
    (basis : ReducedBasis g.topologyMatrix (nullspace _ _ g.topologyMatrix))
    (connected : g.rateNet.Connected) :
    (nullVector nullspace g.topologyMatrix = .error .notSchedulable ∧
      ∀ x : Fin g.nbNodes → ℚ, (∀ e, ∑ node, (g.topologyMatrix e node : ℚ) * x node = 0) →
        ∀ node, x node = 0) ∨
    ∃ (result : Fin g.nbNodes → ℚ) (free : Fin g.nbNodes), result free = 1 ∧
      (∀ e, ∑ node, (g.topologyMatrix e node : ℚ) * result node = 0) ∧
      nullVector nullspace g.topologyMatrix =
        int64Array fun node => intValues result node / gcdOfValues result := by
  unfold nullVector
  generalize nullspace _ _ g.topologyMatrix = vectors at basis
  rcases basis.free with ⟨free, isFree, generate⟩
  have atMost := length_le_of_reducedBasis basis connected
  match vectors with
  | [] =>
      left
      refine ⟨rfl, ?_⟩
      intro x inKernel node
      rw [generate x inKernel node]
      exact Finset.sum_eq_zero fun i _ => absurd i.isLt (Nat.not_lt_zero _)
  | [result] =>
      right
      refine ⟨result, free ⟨0, Nat.one_pos⟩, ?_,
        basis.kernel result (List.mem_singleton_self _), rfl⟩
      exact isFree ⟨0, Nat.one_pos⟩ ⟨0, Nat.one_pos⟩
  | _ :: _ :: _ =>
      simp at atMost

/-- A graph with an edge between a node and itself is not schedulable. -/
theorem noLoop_of_nullVector
    (basis : ReducedBasis g.topologyMatrix (nullspace _ _ g.topologyMatrix))
    (isConnected : g.isConnected = true) {q : Fin g.nbNodes → ℤ}
    (solved : nullVector nullspace g.topologyMatrix = .ok q) :
    g.NoLoop := by
  have connected := Graph.connected_of_isConnected isConnected
  intro e loop
  rcases nullVector_cases basis connected with ⟨failed, -⟩ | ⟨result, free, one, inKernel, -⟩
  · rw [failed] at solved
    exact absurd solved (by simp)
  · have row := inKernel e
    rw [Graph.topologyMatrix_row_of_loop _ loop, neg_eq_zero, mul_eq_zero] at row
    have consumed : (g.totalConsumed e : ℚ) ≠ 0 := by
      exact_mod_cast (Graph.totalConsumed_pos e).ne'
    have zero := Graph.eq_zero_of_topologyMatrix connected inKernel (row.resolve_right consumed)
      free
    rw [one] at zero
    exact one_ne_zero zero

end Kernel

/-! ### The integer vector -/

section Integer

variable {columns : ℕ} {result : Fin columns → ℚ}

theorem ppcm_pos (result : Fin columns → ℚ) : 0 < ppcm result := by
  unfold ppcm
  generalize List.finRange columns = l
  induction l with
  | nil => exact Nat.one_pos
  | cons j l ih => exact Nat.lcm_pos (result j).den_pos ih

theorem intValues_pos {j : Fin columns} (positive : 0 < result j) : 0 < intValues result j := by
  have scale : (0 : ℚ) < ppcm result := by exact_mod_cast ppcm_pos result
  have cast := mul_pos positive scale
  rw [← intValues_cast] at cast
  exact_mod_cast cast

theorem gcdOfValues_pos {j : Fin columns} (positive : 0 < result j) :
    0 < gcdOfValues result := by
  apply Nat.pos_of_ne_zero
  intro zero
  have divides := gcdOfValues_dvd result j
  rw [zero, Int.natCast_zero, zero_dvd_iff] at divides
  exact (intValues_pos positive).ne' divides

/-- The vector of `nullVector` is the basis vector, scaled by a positive number. -/
theorem nullVector_cast (result : Fin columns → ℚ) (j : Fin columns) :
    ((intValues result j / gcdOfValues result : ℤ) : ℚ) * gcdOfValues result =
      result j * ppcm result := by
  rw [← intValues_cast]
  exact_mod_cast Int.ediv_mul_cancel (gcdOfValues_dvd result j)

end Integer

/-- The values computed for a connected graph are positive. -/
theorem nullVector_pos {g : Graph} {nullspace : Nullspace}
    (basis : ReducedBasis g.topologyMatrix (nullspace g.nbEdges g.nbNodes g.topologyMatrix))
    (isConnected : g.isConnected = true) (noLoop : g.NoLoop) {q : Fin g.nbNodes → ℤ}
    (solved : nullVector nullspace g.topologyMatrix = .ok q) (node : Fin g.nbNodes) :
    0 < q node := by
  have connected := Graph.connected_of_isConnected isConnected
  rcases nullVector_cases basis connected with ⟨failed, -⟩ | ⟨vector, free, one, inKernel, isVector⟩
  · rw [solved] at failed
    cases failed
  · have balances := (balanceEquations_iff noLoop vector).mpr inKernel
    have atFree : 0 < vector free := by
      rw [one]
      exact one_pos
    have factor : (0 : ℚ) < gcdOfValues vector := by exact_mod_cast gcdOfValues_pos atFree
    have scale : (0 : ℚ) < ppcm vector := by exact_mod_cast ppcm_pos vector
    have cast := mul_pos (balances.pos connected atFree node) scale
    rw [← nullVector_cast] at cast
    rw [int64Array_ok (isVector.symm.trans solved)]
    exact_mod_cast pos_of_mul_pos_left cast factor.le

/-- The null space for a source and a sink, given how often the source is executed for one
execution of the sink. -/
def pairNullspace (ratio : ℚ) : Nullspace := fun _ columns _ =>
  [fun column : Fin columns => if column.val = 0 then ratio else 1]

theorem pairNullspace_reducedBasis {m : Fin 1 → Fin 2 → ℤ} {ratio : ℚ} (nonzero : m 0 0 ≠ 0)
    (isRatio : (m 0 0 : ℚ) * ratio + m 0 1 = 0) :
    ReducedBasis m (pairNullspace ratio 1 2 m) := by
  refine ⟨?_, fun _ => (1 : Fin 2), ?_, ?_⟩
  · intro vector mem row
    obtain rfl := List.mem_singleton.mp mem
    obtain rfl : row = 0 := Subsingleton.elim _ _
    rw [Fin.sum_univ_two]
    simpa using isRatio
  · intro i j
    have single : i = j := Subsingleton.elim (α := Fin 1) i j
    rw [if_pos single]
    match i with
    | ⟨0, _⟩ => rfl
  · intro x inKernel column
    have equation := inKernel 0
    rw [Fin.sum_univ_two] at equation
    have first : x 0 = x 1 * ratio := by
      have scaled : (m 0 0 : ℚ) * (x 0 - x 1 * ratio) = 0 := by
        linear_combination equation - x 1 * isRatio
      exact sub_eq_zero.mp ((mul_eq_zero.mp scaled).resolve_left (by exact_mod_cast nonzero))
    refine Eq.trans ?_ (Fin.sum_univ_one _).symm
    change x column = x 1 * (if column.val = 0 then ratio else 1)
    match column with
    | 0 => exact first
    | 1 => exact (mul_one (x 1)).symm

end CmsisStream.Scheduler
