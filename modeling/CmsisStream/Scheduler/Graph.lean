import CmsisStream.Dataflow.Periodic
import Mathlib.Algebra.BigOperators.Fin
import Mathlib.Algebra.Order.Group.Int
import Mathlib.Data.Fin.Basic
import Mathlib.Data.List.FinRange
import Mathlib.Data.Nat.GCD.Basic

/-!
# The dataflow graph seen by the synchronous scheduler

The graph is taken after the insertion of the `Duplicate` nodes: an output feeds
exactly one input, so an edge of `_sortedEdges` is given by its two IOs.  Nodes
and edges are numbered by their position in `_sortedNodes` and `_sortedEdges`.

An IO of the source carries the number of samples per execution, which is an
integer for static scheduling and a list for cyclo-static scheduling, and the
current position in that list.  The positions are part of the scheduler's state
and not of the graph.
-/

namespace CmsisStream.Scheduler

/-- The `nbSamples` of an IO: static, or one value for each iteration of a cycle. -/
inductive NbSamples where
  | int (n : ℕ)
  | list (l : List ℕ)
deriving DecidableEq, Repr

namespace NbSamples

/-- `IO.cycleValue` at a position of the cycle. -/
def cycleValue : NbSamples → ℕ → ℕ
  | .int n, _ => n
  | .list l, position => l.getD position 0

/-- `IO.cyclePeriod` -/
def cyclePeriod : NbSamples → ℕ
  | .int _ => 1
  | .list l => l.length

/-- `IO.cycleTotal` -/
def cycleTotal : NbSamples → ℕ
  | .int n => n
  | .list l => l.sum

/-- `IO.cycleMax` -/
def cycleMax : NbSamples → ℕ
  | .int n => n
  | .list l => l.foldr max 0

/-- `IO.advanceCycle`, as a function of the position. -/
def advanceCycle : NbSamples → ℕ → ℕ
  | .int _, position => position
  | .list l, position => if position + 1 = l.length then 0 else position + 1

theorem cyclePeriod_pos {nbSamples : NbSamples} (positive : 0 < nbSamples.cycleTotal) :
    0 < nbSamples.cyclePeriod := by
  cases nbSamples with
  | int n => exact Nat.one_pos
  | list l =>
      cases l with
      | nil => simp [cycleTotal] at positive
      | cons => simp [cyclePeriod]

/-- Samples transferred by the first `k` executions. -/
def transferred (nbSamples : NbSamples) (k : ℕ) : ℕ :=
  Dataflow.cyclicTotal nbSamples.cycleValue nbSamples.cyclePeriod k

theorem transferred_succ (nbSamples : NbSamples) (k : ℕ) :
    nbSamples.transferred (k + 1) =
      nbSamples.transferred k + nbSamples.cycleValue (k % nbSamples.cyclePeriod) :=
  Dataflow.cyclicTotal_succ _ _ _

theorem transferred_mono (nbSamples : NbSamples) : Monotone nbSamples.transferred :=
  Dataflow.cyclicTotal_mono _ _

theorem transferred_cyclePeriod (nbSamples : NbSamples) :
    nbSamples.transferred nbSamples.cyclePeriod = nbSamples.cycleTotal := by
  cases nbSamples with
  | int n => simp [transferred, Dataflow.cyclicTotal, cyclePeriod, cycleTotal, cycleValue]
  | list l =>
      have eachValue : ∀ m ∈ Finset.range l.length, l.getD (m % l.length) 0 = l.getD m 0 := by
        intro m mMem
        rw [Nat.mod_eq_of_lt (Finset.mem_range.mp mMem)]
      simp only [transferred, Dataflow.cyclicTotal, cyclePeriod, cycleTotal, cycleValue]
      rw [Finset.sum_congr rfl eachValue, Finset.sum_range, ← Fin.sum_univ_getElem]
      exact Finset.sum_congr rfl fun m _ => by simp

theorem transferred_add_mul (nbSamples : NbSamples) (k cycles : ℕ) :
    nbSamples.transferred (k + cycles * nbSamples.cyclePeriod) =
      nbSamples.transferred k + cycles * nbSamples.cycleTotal := by
  rw [transferred, Dataflow.cyclicTotal_add_mul, ← transferred_cyclePeriod]
  rfl

/-- The position after `k` executions is `k` modulo the period. -/
theorem advanceCycle_mod {nbSamples : NbSamples} (positive : 0 < nbSamples.cyclePeriod) (k : ℕ) :
    nbSamples.advanceCycle (k % nbSamples.cyclePeriod) = (k + 1) % nbSamples.cyclePeriod := by
  cases nbSamples with
  | int n => simp [advanceCycle, cyclePeriod, Nat.mod_one]
  | list l =>
      change (if k % l.length + 1 = l.length then 0 else k % l.length + 1) = (k + 1) % l.length
      by_cases last : k % l.length + 1 = l.length
      · rw [if_pos last, (Dataflow.succ_mod_div_of_last k last).1]
      · rw [if_neg last, (Dataflow.succ_mod_div_of_not_last (n := l.length) k positive last).1]

end NbSamples

/-- `IO`, an input or output of a streaming node; a full cycle transfers some samples. -/
structure IOPort where
  nbSamples : NbSamples
  positive : 0 < nbSamples.cycleTotal

/-- `BufferConstraint`.  Two constraints are compared by identity in the source, which is
what `object` stands for. -/
structure BufferConstraint where
  object : ℕ
  name : Option String
  mustBeArray : Bool
  assignedByNode : Bool
  canBeShared : Bool
deriving DecidableEq, Repr

/-- An edge `(src, dst)` of `_sortedEdges` between two IOs, with what the graph records
about it in `_delays` and `_FIFOCustomBuffer`.  `bytes` is the size of a sample of the
source's type. -/
structure Edge (nbNodes : ℕ) where
  srcOwner : Fin nbNodes
  dstOwner : Fin nbNodes
  src : IOPort
  dst : IOPort
  delay : ℕ
  bytes : ℕ
  customBuffer : Option BufferConstraint

/-- The graph after `insertDuplicates`, when no input was connected twice: each input has one
edge, so the ends of the edges are different IOs.  Inputs connected to constant nodes have no
edge and only count for the cycle period of their node.  A `Duplicate` has one input and its
outputs have the rate and type of this input. -/
structure Graph where
  nbNodes : ℕ
  nbEdges : ℕ
  edge : Fin nbEdges → Edge nbNodes
  constantInputs : Fin nbNodes → List IOPort
  /-- The edge of the input `i` when the node is a `Duplicate`. -/
  duplicateInput : Fin nbNodes → Option (Fin nbEdges)
  duplicateInput_iff : ∀ node input, duplicateInput node = some input →
    ∀ e, (edge e).dstOwner = node ↔ e = input
  duplicateOutput : ∀ node input, duplicateInput node = some input →
    ∀ e, (edge e).srcOwner = node →
      (edge e).src.nbSamples = (edge input).dst.nbSamples ∧ (edge e).bytes = (edge input).bytes

namespace Graph

variable (g : Graph)

/-- The cycle periods of the IOs of a node. -/
def ioPeriods (node : Fin g.nbNodes) : List ℕ :=
  ((List.finRange g.nbEdges).filter fun e => (g.edge e).dstOwner = node).map
      (fun e => (g.edge e).dst.nbSamples.cyclePeriod) ++
    (g.constantInputs node).map (fun io => io.nbSamples.cyclePeriod) ++
    ((List.finRange g.nbEdges).filter fun e => (g.edge e).srcOwner = node).map
      (fun e => (g.edge e).src.nbSamples.cyclePeriod)

/-- `BaseNode.computeCyclePeriod` -/
def cyclePeriod (node : Fin g.nbNodes) : ℕ :=
  (g.ioPeriods node).foldr Nat.lcm 1

/-- No edge joins a node to itself. -/
def NoLoop : Prop :=
  ∀ e, (g.edge e).srcOwner ≠ (g.edge e).dstOwner

/-- The counting net of the graph. -/
def net : Dataflow.Net (Fin g.nbNodes) (Fin g.nbEdges) where
  src e := (g.edge e).srcOwner
  dst e := (g.edge e).dstOwner
  initial e := (g.edge e).delay
  produced e := (g.edge e).src.nbSamples.transferred
  consumed e := (g.edge e).dst.nbSamples.transferred
  produced_mono e := (g.edge e).src.nbSamples.transferred_mono
  consumed_mono e := (g.edge e).dst.nbSamples.transferred_mono

variable {g}

theorem foldr_lcm_pos {l : List ℕ} (positive : ∀ period ∈ l, 0 < period) :
    0 < l.foldr Nat.lcm 1 := by
  induction l with
  | nil => exact Nat.one_pos
  | cons period l ih =>
      exact Nat.lcm_pos (positive period (by simp))
        (ih fun other otherMem => positive other (List.mem_cons_of_mem _ otherMem))

theorem dvd_foldr_lcm {l : List ℕ} {period : ℕ} (mem : period ∈ l) :
    period ∣ l.foldr Nat.lcm 1 := by
  induction l with
  | nil => simp at mem
  | cons first l ih =>
      rcases List.mem_cons.mp mem with rfl | rest
      · exact Nat.dvd_lcm_left _ _
      · exact (ih rest).trans (Nat.dvd_lcm_right _ _)

theorem cyclePeriod_pos (node : Fin g.nbNodes) : 0 < g.cyclePeriod node := by
  apply foldr_lcm_pos
  intro period periodMem
  simp only [ioPeriods, List.mem_append, List.mem_map] at periodMem
  rcases periodMem with (⟨e, -, rfl⟩ | ⟨io, -, rfl⟩) | ⟨e, -, rfl⟩
  · exact NbSamples.cyclePeriod_pos (g.edge e).dst.positive
  · exact NbSamples.cyclePeriod_pos io.positive
  · exact NbSamples.cyclePeriod_pos (g.edge e).src.positive

theorem src_cyclePeriod_dvd (e : Fin g.nbEdges) :
    (g.edge e).src.nbSamples.cyclePeriod ∣ g.cyclePeriod (g.edge e).srcOwner := by
  apply dvd_foldr_lcm
  apply List.mem_append_right
  exact List.mem_map.mpr ⟨e, by simp, rfl⟩

theorem dst_cyclePeriod_dvd (e : Fin g.nbEdges) :
    (g.edge e).dst.nbSamples.cyclePeriod ∣ g.cyclePeriod (g.edge e).dstOwner := by
  apply dvd_foldr_lcm
  apply List.mem_append_left
  apply List.mem_append_left
  exact List.mem_map.mpr ⟨e, by simp, rfl⟩

end Graph

end CmsisStream.Scheduler
