import CmsisStream.Scheduler.Graph
import Mathlib.Algebra.BigOperators.Ring.Finset
import Mathlib.Algebra.Order.Ring.Rat
import Mathlib.Data.Int.GCD
import Mathlib.Data.Rat.Lemmas
import Mathlib.Tactic.FieldSimp
import Mathlib.Tactic.Linarith

/-!
# Topology matrix and repetition vector

`topologyMatrix` gives, for each edge, the samples produced and consumed by one
full cycle of each node, and `nullVector` the number of cycles of each node in
one period of the schedule.  The null space itself is computed by a computer
algebra package: it is a parameter here, of which only soundness is used.
-/

namespace CmsisStream.Scheduler

/-- The exceptions which end the computation of a schedule. -/
inductive SchedError where
  | graphIsNotConnected
  | notSchedulable
  /-- The `OverflowError` raised for an integer which does not fit in an array of 64-bit
  integers. -/
  | overflowError
  | deadlock
  /-- `CannotReuseCustomBufferMoreThanOnce` -/
  | cannotReuseCustomBuffer (name : String)
  /-- `FIFOWithCustomBufferMustBeUsedAsArray`, with the FIFO number. -/
  | customBufferMustBeArray (fifo : ℕ)
  /-- The `ValueError` raised by the truth value of an array of several elements. -/
  | ambiguousTruthValue
  /-- The loop of the model was stopped before the loop of the source ends. -/
  | outOfFuel
deriving DecidableEq, Repr

/-- The basis of the null space of a matrix, as `Matrix.nullspace` returns it. -/
abbrev Nullspace := (rows columns : ℕ) →
  (Fin rows → Fin columns → ℤ) → List (Fin columns → ℚ)

/-- The vectors returned by the null space routine are in the null space. -/
def Nullspace.Sound (nullspace : Nullspace) : Prop :=
  ∀ (rows columns : ℕ) (m : Fin rows → Fin columns → ℤ),
    ∀ vector ∈ nullspace rows columns m, ∀ row, ∑ column, (m row column : ℚ) * vector column = 0

namespace Graph

variable (g : Graph)

/-- The nodes at distance at most one of the given ones. -/
def expand (seen : List (Fin g.nbNodes)) : List (Fin g.nbNodes) :=
  (List.finRange g.nbNodes).filter fun node =>
    node ∈ seen ∨ ∃ e, ((g.edge e).srcOwner = node ∧ (g.edge e).dstOwner ∈ seen) ∨
      ((g.edge e).dstOwner = node ∧ (g.edge e).srcOwner ∈ seen)

/-- `nx.is_connected`: a walk from the first node visits all of them. -/
def isConnected : Bool :=
  (g.expand^[g.nbNodes] ((List.finRange g.nbNodes).take 1)).length = g.nbNodes

/-- Produced on the edge by the execution of one cycle of its source. -/
def totalProduced (e : Fin g.nbEdges) : ℕ :=
  (g.edge e).src.nbSamples.cycleTotal * g.cyclePeriod (g.edge e).srcOwner /
    (g.edge e).src.nbSamples.cyclePeriod

/-- Consumed on the edge by the execution of one cycle of its destination. -/
def totalConsumed (e : Fin g.nbEdges) : ℕ :=
  (g.edge e).dst.nbSamples.cycleTotal * g.cyclePeriod (g.edge e).dstOwner /
    (g.edge e).dst.nbSamples.cyclePeriod

/-- `Graph.topologyMatrix`; the entry of the destination is written last. -/
def topologyMatrix : Fin g.nbEdges → Fin g.nbNodes → ℤ := fun e node =>
  if node = (g.edge e).dstOwner then -(g.totalConsumed e : ℤ)
  else if node = (g.edge e).srcOwner then g.totalProduced e
  else 0

/-- How many samples whole cycles of the source produce. -/
theorem transferred_src_add_mul (e : Fin g.nbEdges) (k cycles : ℕ) :
    (g.edge e).src.nbSamples.transferred (k + cycles * g.cyclePeriod (g.edge e).srcOwner) =
      (g.edge e).src.nbSamples.transferred k + cycles * g.totalProduced e := by
  obtain ⟨factor, eq⟩ := g.src_cyclePeriod_dvd e
  have positive := NbSamples.cyclePeriod_pos (g.edge e).src.positive
  have total : g.totalProduced e = (g.edge e).src.nbSamples.cycleTotal * factor := by
    rw [totalProduced, eq, Nat.mul_left_comm, Nat.mul_div_cancel_left _ positive]
  rw [eq, total, Nat.mul_left_comm, Nat.mul_comm _ (cycles * factor),
    NbSamples.transferred_add_mul]
  ring

/-- How many samples whole cycles of the destination consume. -/
theorem transferred_dst_add_mul (e : Fin g.nbEdges) (k cycles : ℕ) :
    (g.edge e).dst.nbSamples.transferred (k + cycles * g.cyclePeriod (g.edge e).dstOwner) =
      (g.edge e).dst.nbSamples.transferred k + cycles * g.totalConsumed e := by
  obtain ⟨factor, eq⟩ := g.dst_cyclePeriod_dvd e
  have positive := NbSamples.cyclePeriod_pos (g.edge e).dst.positive
  have total : g.totalConsumed e = (g.edge e).dst.nbSamples.cycleTotal * factor := by
    rw [totalConsumed, eq, Nat.mul_left_comm, Nat.mul_div_cancel_left _ positive]
  rw [eq, total, Nat.mul_left_comm, Nat.mul_comm _ (cycles * factor),
    NbSamples.transferred_add_mul]
  ring

end Graph

section NullVector

variable {rows columns : ℕ}

/-- The least common multiple of the denominators. -/
def ppcm (result : Fin columns → ℚ) : ℕ :=
  (List.finRange columns).foldr (fun j acc => Nat.lcm (result j).den acc) 1

/-- The vector with its denominators removed. -/
def intValues (result : Fin columns → ℚ) (j : Fin columns) : ℤ :=
  (result j * ppcm result).num

/-- The greatest common divisor of the integer values. -/
def gcdOfValues (result : Fin columns → ℚ) : ℕ :=
  (List.finRange columns).foldr (fun j acc => Nat.gcd (intValues result j).natAbs acc) 0

/-- The values fit in an array of 64-bit integers. -/
def FitsInt64 (values : Fin columns → ℤ) : Prop :=
  ∀ j, -2 ^ 63 ≤ values j ∧ values j < 2 ^ 63

instance (values : Fin columns → ℤ) : Decidable (FitsInt64 values) :=
  inferInstanceAs (Decidable (∀ _, _ ∧ _))

/-- `np.array(values,dtype=int)` -/
def int64Array (values : Fin columns → ℤ) : Except SchedError (Fin columns → ℤ) :=
  if FitsInt64 values then .ok values else .error .overflowError

theorem int64Array_ok {values array : Fin columns → ℤ} (ok : int64Array values = .ok array) :
    array = values := by
  rw [int64Array] at ok
  split at ok
  · exact (Except.ok.inj ok).symm
  · cases ok

/-- `Graph.nullVector` -/
def nullVector (nullspace : Nullspace) (m : Fin rows → Fin columns → ℤ) :
    Except SchedError (Fin columns → ℤ) :=
  match nullspace rows columns m with
  | [result] => int64Array fun j => intValues result j / gcdOfValues result
  | _ => .error .notSchedulable

theorem den_dvd_ppcm (result : Fin columns → ℚ) (j : Fin columns) :
    (result j).den ∣ ppcm result := by
  have general : ∀ l : List (Fin columns), j ∈ l →
      (result j).den ∣ l.foldr (fun j acc => Nat.lcm (result j).den acc) 1 := by
    intro l mem
    induction l with
    | nil => simp at mem
    | cons first l ih =>
        rcases List.mem_cons.mp mem with rfl | rest
        · exact Nat.dvd_lcm_left _ _
        · exact (ih rest).trans (Nat.dvd_lcm_right _ _)
  exact general _ (List.mem_finRange j)

theorem gcdOfValues_dvd (result : Fin columns → ℚ) (j : Fin columns) :
    (gcdOfValues result : ℤ) ∣ intValues result j := by
  have general : ∀ l : List (Fin columns), j ∈ l →
      l.foldr (fun j acc => Nat.gcd (intValues result j).natAbs acc) 0 ∣
        (intValues result j).natAbs := by
    intro l mem
    induction l with
    | nil => simp at mem
    | cons first l ih =>
        rcases List.mem_cons.mp mem with rfl | rest
        · exact Nat.gcd_dvd_left _ _
        · exact (Nat.gcd_dvd_right _ _).trans (ih rest)
  exact Int.natCast_dvd.mpr (general _ (List.mem_finRange j))

theorem intValues_cast (result : Fin columns → ℚ) (j : Fin columns) :
    (intValues result j : ℚ) = result j * ppcm result := by
  obtain ⟨factor, eq⟩ := den_dvd_ppcm result j
  have integral : result j * ppcm result = ((result j).num * factor : ℤ) := by
    rw [eq]
    push_cast
    rw [← mul_assoc, Rat.mul_den_eq_num]
  rw [intValues, integral]
  rfl

/-- The vector returned by `nullVector` solves the balance equations. -/
theorem nullVector_balanced {nullspace : Nullspace} {m : Fin rows → Fin columns → ℤ}
    (kernel : ∀ vector ∈ nullspace rows columns m, ∀ row,
      ∑ column, (m row column : ℚ) * vector column = 0) {q : Fin columns → ℤ}
    (computed : nullVector nullspace m = .ok q) (row : Fin rows) :
    ∑ column, m row column * q column = 0 := by
  unfold nullVector at computed
  split at computed
  · rename_i result eq
    obtain rfl := int64Array_ok computed
    have inKernel := kernel result (by rw [eq]; exact List.mem_singleton_self _) row
    have scaled : (∑ column, m row column *
        (intValues result column / gcdOfValues result)) * (gcdOfValues result : ℤ) = 0 := by
      rw [Finset.sum_mul]
      have exactDivision : ∀ column ∈ Finset.univ,
          m row column * (intValues result column / gcdOfValues result) * gcdOfValues result =
            m row column * intValues result column := by
        intro column _
        rw [mul_assoc, Int.ediv_mul_cancel (gcdOfValues_dvd result column)]
      rw [Finset.sum_congr rfl exactDivision]
      have asRational : ((∑ column, m row column * intValues result column : ℤ) : ℚ) =
          ppcm result * ∑ column, (m row column : ℚ) * result column := by
        push_cast
        rw [Finset.mul_sum]
        refine Finset.sum_congr rfl fun column _ => ?_
        rw [intValues_cast]
        ring
      rw [inKernel, mul_zero] at asRational
      exact_mod_cast asRational
    rcases mul_eq_zero.mp scaled with solved | gcdZero
    · exact solved
    · simp [gcdZero]
  · simp at computed

end NullVector

namespace Graph

variable {g : Graph}

/-- The balance equation of an edge, read off its row of the topology matrix. -/
theorem balance_of_topologyMatrix (noLoop : g.NoLoop) {q : Fin g.nbNodes → ℤ}
    (balanced : ∀ e, ∑ node, g.topologyMatrix e node * q node = 0) (e : Fin g.nbEdges) :
    q (g.edge e).srcOwner * g.totalProduced e = q (g.edge e).dstOwner * g.totalConsumed e := by
  have row := balanced e
  have others : ∀ node ∈ Finset.univ,
      node ∉ ({(g.edge e).srcOwner, (g.edge e).dstOwner} : Finset (Fin g.nbNodes)) →
        g.topologyMatrix e node * q node = 0 := by
    intro node _ notEnd
    simp only [Finset.mem_insert, Finset.mem_singleton, not_or] at notEnd
    simp [topologyMatrix, notEnd.1, notEnd.2]
  rw [← Finset.sum_subset (Finset.subset_univ _) others, Finset.sum_pair (noLoop e)] at row
  simp only [topologyMatrix, if_neg (noLoop e), if_true] at row
  linarith

/-- The number of firings of each node in one period. -/
def repetitions (g : Graph) (q : Fin g.nbNodes → ℤ) (node : Fin g.nbNodes) : ℕ :=
  (q node).toNat * g.cyclePeriod node

/-- A nonnegative solution of the balance equations is a period of the net. -/
theorem balanced_repetitions (noLoop : g.NoLoop) {q : Fin g.nbNodes → ℤ}
    (nonneg : ∀ node, 0 ≤ q node)
    (balanced : ∀ e, ∑ node, g.topologyMatrix e node * q node = 0) :
    g.net.Balanced (g.repetitions q) := by
  intro x e
  have equation := balance_of_topologyMatrix noLoop balanced e
  have produced := g.transferred_src_add_mul e (x (g.edge e).srcOwner)
    (q (g.edge e).srcOwner).toNat
  have consumed := g.transferred_dst_add_mul e (x (g.edge e).dstOwner)
    (q (g.edge e).dstOwner).toNat
  simp only [Dataflow.Net.level, net, repetitions, Pi.add_apply] at *
  rw [produced, consumed]
  push_cast
  rw [Int.toNat_of_nonneg (nonneg _), Int.toNat_of_nonneg (nonneg _), equation]
  ring

end Graph

end CmsisStream.Scheduler
