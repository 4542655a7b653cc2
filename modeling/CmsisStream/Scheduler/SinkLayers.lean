import CmsisStream.Scheduler.Graph
import Mathlib.Data.Fintype.EquivFin
import Mathlib.Data.List.Perm.Basic
import Mathlib.Order.WellFounded
import Mathlib.Tactic.Ring

/-!
# Topological layers starting from the sinks

With sink prioritization the nodes are arranged in layers: the sinks, then the
nodes whose outputs all go to sinks, and so on.  The source counts down, for
each node, the outputs which do not yet go to a removed node.  There are layers
exactly when the graph has no directed cycle, and they contain every node once.
-/

namespace CmsisStream.Scheduler

namespace Graph

variable (g : Graph)

/-- `nbOutputsForTopologicalSort` at the beginning. -/
def nbOutputs (node : Fin g.nbNodes) : ℤ :=
  (List.finRange g.nbEdges).countP fun e => (g.edge e).srcOwner = node

/-- How many inputs of the removed nodes come from a node. -/
def nbInputsFrom (removed : List (Fin g.nbNodes)) (node : Fin g.nbNodes) : ℤ :=
  (List.finRange g.nbEdges).countP fun e =>
    (g.edge e).srcOwner = node ∧ removed.contains (g.edge e).dstOwner

/-- The loop of `computeSinkTopologicalSortOfNodes`, with the nodes remaining, the output
counts and the layers found so far. -/
def sinkLayersLoop : ℕ → List (Fin g.nbNodes) → (Fin g.nbNodes → ℤ) →
    List (List (Fin g.nbNodes)) → List (List (Fin g.nbNodes))
  | _, [], _, layers => layers
  | 0, _ :: _, _, _ => []
  | fuel + 1, first :: rest, outputs, layers =>
      let remaining := first :: rest
      let toremove := remaining.filter fun node => outputs node = 0
      -- there are some loops
      if toremove = [] then []
      else sinkLayersLoop fuel (remaining.diff toremove)
        (fun node => outputs node - g.nbInputsFrom toremove node) (layers ++ [toremove])

/-- `Graph.computeSinkTopologicalSortOfNodes`; an iteration removes at least one node. -/
def computeSinkTopologicalSortOfNodes : List (List (Fin g.nbNodes)) :=
  g.sinkLayersLoop g.nbNodes (List.finRange g.nbNodes) g.nbOutputs []

/-- Some edge goes from the first node to the second. -/
def Feeds (source target : Fin g.nbNodes) : Prop :=
  ∃ e, (g.edge e).srcOwner = source ∧ (g.edge e).dstOwner = target

/-- The graph has no directed cycle. -/
def Acyclic : Prop :=
  ∀ node, ¬Relation.TransGen g.Feeds node node

theorem Acyclic.noLoop {g : Graph} (acyclic : g.Acyclic) : g.NoLoop :=
  fun e same => acyclic _ (Relation.TransGen.single ⟨e, same, rfl⟩)

/-- What holds at each iteration: no node was lost, and the counts are those of the
outputs which go to a remaining node. -/
structure LayersInvariant (remaining : List (Fin g.nbNodes)) (outputs : Fin g.nbNodes → ℤ)
    (layers : List (List (Fin g.nbNodes))) : Prop where
  perm : (layers.flatten ++ remaining).Perm (List.finRange g.nbNodes)
  outputs_eq : ∀ node, outputs node = g.nbInputsFrom remaining node

variable {g}

theorem nbInputsFrom_append (first second : List (Fin g.nbNodes))
    (disjoint : first.Disjoint second) (node : Fin g.nbNodes) :
    g.nbInputsFrom (first ++ second) node =
      g.nbInputsFrom first node + g.nbInputsFrom second node := by
  simp only [nbInputsFrom, List.contains_iff_mem]
  norm_cast
  induction List.finRange g.nbEdges with
  | nil => rfl
  | cons e edges ih =>
      have notBoth : (g.edge e).dstOwner ∈ first → (g.edge e).dstOwner ∉ second :=
        fun inFirst => disjoint inFirst
      simp only [List.countP_cons, List.mem_append]
      by_cases isSrc : (g.edge e).srcOwner = node <;>
        by_cases inFirst : (g.edge e).dstOwner ∈ first <;>
        by_cases inSecond : (g.edge e).dstOwner ∈ second <;>
        simp_all <;> omega

theorem nbInputsFrom_perm {first second : List (Fin g.nbNodes)} (perm : first.Perm second)
    (node : Fin g.nbNodes) : g.nbInputsFrom first node = g.nbInputsFrom second node := by
  simp only [nbInputsFrom, List.contains_iff_mem, perm.mem_iff]

theorem nbInputsFrom_eq_zero_iff {nodes : List (Fin g.nbNodes)} {node : Fin g.nbNodes} :
    g.nbInputsFrom nodes node = 0 ↔ ∀ target, g.Feeds node target → target ∉ nodes := by
  simp only [nbInputsFrom, List.contains_iff_mem, Nat.cast_eq_zero, List.countP_eq_zero,
    List.mem_finRange,
    decide_eq_true_eq, forall_const, not_and, Feeds]
  constructor
  · rintro none target ⟨e, isSrc, rfl⟩
    exact none e isSrc
  · intro none e isSrc
    exact none _ ⟨e, isSrc, rfl⟩

theorem filter_perm_diff {α : Type} [DecidableEq α] (nodes : List α) (p : α → Bool) :
    (nodes.filter p ++ nodes.diff (nodes.filter p)).Perm nodes :=
  List.subperm_append_diff_self_of_count_le fun node _ =>
    List.Sublist.count_le node List.filter_sublist

theorem initial_layersInvariant :
    g.LayersInvariant (List.finRange g.nbNodes) g.nbOutputs [] := by
  refine ⟨List.Perm.refl _, ?_⟩
  intro node
  simp [nbOutputs, nbInputsFrom]

/-- Removing a layer keeps the invariant. -/
theorem LayersInvariant.remove {remaining : List (Fin g.nbNodes)}
    {outputs : Fin g.nbNodes → ℤ} {layers : List (List (Fin g.nbNodes))}
    (invariant : g.LayersInvariant remaining outputs layers) (p : Fin g.nbNodes → Bool) :
    g.LayersInvariant (remaining.diff (remaining.filter p))
      (fun node => outputs node - g.nbInputsFrom (remaining.filter p) node)
      (layers ++ [remaining.filter p]) := by
  have split := filter_perm_diff remaining p
  have nodup : remaining.Nodup :=
    (List.nodup_append.mp (invariant.perm.nodup_iff.mpr (List.nodup_finRange _))).2.1
  have disjoint := (List.nodup_append'.mp (split.nodup_iff.mpr nodup)).2.2
  refine ⟨?_, ?_⟩
  · have regroup : (layers ++ [remaining.filter p]).flatten ++
        remaining.diff (remaining.filter p) =
        layers.flatten ++ (remaining.filter p ++ remaining.diff (remaining.filter p)) := by
      simp
    rw [regroup]
    exact (split.append_left _).trans invariant.perm
  · intro node
    rw [invariant.outputs_eq, ← nbInputsFrom_perm split, nbInputsFrom_append _ _ disjoint]
    ring

/-- A layer is made of the remaining nodes which feed no remaining node. -/
theorem LayersInvariant.mem_filter_iff {remaining : List (Fin g.nbNodes)}
    {outputs : Fin g.nbNodes → ℤ} {layers : List (List (Fin g.nbNodes))}
    (invariant : g.LayersInvariant remaining outputs layers) {node : Fin g.nbNodes} :
    node ∈ (remaining.filter fun node => outputs node = 0) ↔
      node ∈ remaining ∧ ∀ target, g.Feeds node target → target ∉ remaining := by
  rw [List.mem_filter, decide_eq_true_eq, invariant.outputs_eq, nbInputsFrom_eq_zero_iff]

/-- The nodes on a cycle always remain. -/
theorem onCycle_mem_diff {remaining : List (Fin g.nbNodes)} {outputs : Fin g.nbNodes → ℤ}
    {layers : List (List (Fin g.nbNodes))}
    (invariant : g.LayersInvariant remaining outputs layers)
    (cyclesRemain : ∀ node, Relation.TransGen g.Feeds node node → node ∈ remaining) :
    ∀ node, Relation.TransGen g.Feeds node node →
      node ∈ remaining.diff (remaining.filter fun node => outputs node = 0) := by
  intro node cycle
  have split := filter_perm_diff remaining fun node => outputs node = 0
  have mem := cyclesRemain node cycle
  rcases List.mem_append.mp (split.mem_iff.mpr mem) with removed | kept
  · -- the successor of the node on the cycle is itself on a cycle
    obtain ⟨-, noTarget⟩ := invariant.mem_filter_iff.mp removed
    obtain ⟨next, feeds, back⟩ := Relation.TransGen.head'_iff.mp cycle
    have nextCycle : Relation.TransGen g.Feeds next next :=
      Relation.TransGen.tail' back feeds
    exact absurd (cyclesRemain next nextCycle) (noTarget next feeds)
  · exact kept

/-- Without cycles some remaining node feeds no remaining node. -/
theorem LayersInvariant.exists_sink {remaining : List (Fin g.nbNodes)}
    {outputs : Fin g.nbNodes → ℤ} {layers : List (List (Fin g.nbNodes))}
    (invariant : g.LayersInvariant remaining outputs layers) (acyclic : g.Acyclic)
    (nonempty : remaining ≠ []) : (remaining.filter fun node => outputs node = 0) ≠ [] := by
  let below : Fin g.nbNodes → Fin g.nbNodes → Prop :=
    fun target node => Relation.TransGen g.Feeds node target
  have : IsTrans _ below := ⟨fun _ _ _ first second => second.trans first⟩
  have : Std.Irrefl below := ⟨acyclic⟩
  have wellFounded : WellFounded below := Finite.wellFounded_of_trans_of_irrefl below
  obtain ⟨first, firstMem⟩ := List.exists_mem_of_ne_nil _ nonempty
  obtain ⟨node, mem, least⟩ := wellFounded.has_min {node | node ∈ remaining} ⟨first, firstMem⟩
  apply List.ne_nil_of_mem (a := node)
  rw [invariant.mem_filter_iff]
  refine ⟨mem, ?_⟩
  intro target feeds targetMem
  exact least target targetMem (Relation.TransGen.single feeds)

/-- The layers of a graph without cycle. -/
theorem sinkLayersLoop_spec {fuel : ℕ} {remaining : List (Fin g.nbNodes)}
    {outputs : Fin g.nbNodes → ℤ} {layers : List (List (Fin g.nbNodes))}
    (invariant : g.LayersInvariant remaining outputs layers)
    (found : g.sinkLayersLoop fuel remaining outputs layers ≠ []) :
    (g.sinkLayersLoop fuel remaining outputs layers).flatten.Perm (List.finRange g.nbNodes) := by
  induction fuel generalizing remaining outputs layers with
  | zero =>
      cases remaining with
      | nil => simpa [sinkLayersLoop] using invariant.perm
      | cons first rest => simp [sinkLayersLoop] at found
  | succ fuel ih =>
      cases remaining with
      | nil => simpa [sinkLayersLoop] using invariant.perm
      | cons first rest =>
          simp only [sinkLayersLoop] at found ⊢
          split_ifs at found ⊢ with loops
          · exact absurd rfl found
          · exact ih (invariant.remove _) found

theorem sinkLayersLoop_acyclic {fuel : ℕ} {remaining : List (Fin g.nbNodes)}
    {outputs : Fin g.nbNodes → ℤ} {layers : List (List (Fin g.nbNodes))}
    (invariant : g.LayersInvariant remaining outputs layers)
    (cyclesRemain : ∀ node, Relation.TransGen g.Feeds node node → node ∈ remaining)
    (found : g.sinkLayersLoop fuel remaining outputs layers ≠ []) : g.Acyclic := by
  induction fuel generalizing remaining outputs layers with
  | zero =>
      cases remaining with
      | nil => exact fun node cycle => absurd (cyclesRemain node cycle) List.not_mem_nil
      | cons first rest => simp [sinkLayersLoop] at found
  | succ fuel ih =>
      cases remaining with
      | nil => exact fun node cycle => absurd (cyclesRemain node cycle) List.not_mem_nil
      | cons first rest =>
          simp only [sinkLayersLoop] at found
          split_ifs at found with loops
          · exact absurd rfl found
          · exact ih (invariant.remove _) (onCycle_mem_diff invariant cyclesRemain) found

theorem sinkLayersLoop_ne_nil {fuel : ℕ} {remaining : List (Fin g.nbNodes)}
    {outputs : Fin g.nbNodes → ℤ} {layers : List (List (Fin g.nbNodes))}
    (invariant : g.LayersInvariant remaining outputs layers) (acyclic : g.Acyclic)
    (enough : remaining.length ≤ fuel) (something : layers ≠ [] ∨ remaining ≠ []) :
    g.sinkLayersLoop fuel remaining outputs layers ≠ [] := by
  induction fuel generalizing remaining outputs layers with
  | zero =>
      have empty : remaining = [] := List.length_eq_zero_iff.mp (Nat.le_zero.mp enough)
      subst empty
      simpa [sinkLayersLoop] using something
  | succ fuel ih =>
      cases remaining with
      | nil => simpa [sinkLayersLoop] using something
      | cons first rest =>
          have sink := invariant.exists_sink acyclic (List.cons_ne_nil _ _)
          simp only [sinkLayersLoop, if_neg sink]
          apply ih (invariant.remove _) _ (Or.inl (by simp))
          have split :=
            (filter_perm_diff (first :: rest) fun node => outputs node = 0).length_eq
          have removed := List.length_pos_iff.mpr sink
          rw [List.length_append] at split
          omega

/-- The layers contain every node exactly once. -/
theorem computeSinkTopologicalSortOfNodes_perm
    (found : g.computeSinkTopologicalSortOfNodes ≠ []) :
    g.computeSinkTopologicalSortOfNodes.flatten.Perm (List.finRange g.nbNodes) :=
  sinkLayersLoop_spec initial_layersInvariant found

/-- Layers are found exactly for the graphs without directed cycle. -/
theorem computeSinkTopologicalSortOfNodes_ne_nil_iff (nonempty : 0 < g.nbNodes) :
    g.computeSinkTopologicalSortOfNodes ≠ [] ↔ g.Acyclic := by
  constructor
  · exact sinkLayersLoop_acyclic initial_layersInvariant fun node _ => List.mem_finRange node
  · intro acyclic
    refine sinkLayersLoop_ne_nil initial_layersInvariant acyclic (by simp) (Or.inr ?_)
    exact List.ne_nil_of_mem (List.mem_finRange ⟨0, nonempty⟩)

end Graph

end CmsisStream.Scheduler
