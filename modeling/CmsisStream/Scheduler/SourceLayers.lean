import CmsisStream.Scheduler.MatrixColumn
import CmsisStream.Scheduler.SinkLayers
import Mathlib.Order.WellFoundedSet

/-!
# Topological layers starting from the sources

The fully asynchronous mode arranges the nodes in layers: those without inputs, then those whose
inputs come from the layers before, and so on.  The inputs are counted by their `fifo` fields at
the beginning, where weak edges are not counted.  Then a count goes down for every edge whose
source is removed, be it weak or not, and also when the input has kept another edge.
-/

namespace CmsisStream.Scheduler

/-- The graph after `insertDuplicates`, with the `weak` options of its edges. -/
structure AsyncGraph extends PortGraph where
  /-- `_FIFOWeak` -/
  weak : Fin nbEdges → Bool

/-- A node is in a layer and another one in an earlier layer. -/
def Earlier {V : Type} (layers : List (List V)) (first second : V) : Prop :=
  ∃ before layer after, layers = before ++ layer :: after ∧
    first ∈ before.flatten ∧ second ∈ layer

theorem earlier_append {V : Type} {layers more : List (List V)} {first second : V}
    (earlier : Earlier layers first second) : Earlier (layers ++ more) first second := by
  rcases earlier with ⟨before, layer, after, rfl, inBefore, inLayer⟩
  exact ⟨before, layer, after ++ more, by simp, inBefore, inLayer⟩

theorem Earlier.map {V W : Type} (f : V → W) {layers : List (List V)} {first second : V}
    (earlier : Earlier layers first second) :
    Earlier (layers.map (List.map f)) (f first) (f second) := by
  rcases earlier with ⟨before, layer, after, rfl, inBefore, inLayer⟩
  refine ⟨before.map (List.map f), layer.map f, after.map (List.map f), by simp, ?_,
    List.mem_map_of_mem inLayer⟩
  rw [← List.map_flatten]
  exact List.mem_map_of_mem inBefore

theorem Earlier.of_map {V W : Type} {f : V → W} (injective : Function.Injective f)
    {layers : List (List V)} {first second : V}
    (earlier : Earlier (layers.map (List.map f)) (f first) (f second)) :
    Earlier layers first second := by
  rcases earlier with ⟨before, layer, after, eq, inBefore, inLayer⟩
  rcases List.map_eq_append_iff.mp eq with ⟨before', rest, rfl, rfl, eq'⟩
  rcases List.map_eq_cons_iff.mp eq' with ⟨layer', after', rfl, rfl, rfl⟩
  rw [← List.map_flatten, List.mem_map_of_injective injective] at inBefore
  rw [List.mem_map_of_injective injective] at inLayer
  exact ⟨before', layer', after', rfl, inBefore, inLayer⟩

namespace AsyncGraph

variable (g : AsyncGraph)

/-- An input of a constant node, or whose edge is weak. -/
def ignoredInput (io : Fin g.nbPorts) : Bool :=
  match g.fifo io with
  | none => true
  | some e => g.weak e

/-- `nbInputsForTopologicalSort` at the beginning, as `topologyMatrix` computes it. -/
def nbInputsForTopologicalSort (node : Fin g.nbNodes) : ℤ :=
  (g.inputs node).length - (g.inputs node).countP g.ignoredInput

/-- The node at the end of the edge of an output. -/
def outputNode (io : Fin g.nbPorts) : Option (Fin g.nbNodes) :=
  (g.fifo io).map fun e => g.owner (g.dst e)

/-- How many outputs of the removed nodes go to a node. -/
def nbOutputsTo (removed : List (Fin g.nbNodes)) (node : Fin g.nbNodes) : ℤ :=
  (removed.flatMap g.outputs).countP fun io => g.outputNode io = some node

/-- The loop of `computeSourceTopologicalSortOfNodes`, with the nodes remaining, the input counts
and the layers found so far. -/
def sourceLayersLoop : ℕ → List (Fin g.nbNodes) → (Fin g.nbNodes → ℤ) →
    List (List (Fin g.nbNodes)) → List (List (Fin g.nbNodes))
  | _, [], _, layers => layers
  | 0, _ :: _, _, _ => []
  | fuel + 1, first :: rest, inputs, layers =>
      let remaining := first :: rest
      let toremove := remaining.filter fun node => inputs node = 0
      -- there are some loops
      if toremove = [] then []
      else sourceLayersLoop fuel (remaining.diff toremove)
        (fun node => inputs node - g.nbOutputsTo toremove node) (layers ++ [toremove])

/-- `Graph.computeSourceTopologicalSortOfNodes`; an iteration removes at least one node. -/
def computeSourceTopologicalSortOfNodes : List (List (Fin g.nbNodes)) :=
  g.sourceLayersLoop g.nbNodes (List.finRange g.nbNodes) g.nbInputsForTopologicalSort []

/-- Some edge which is not weak goes from the first node to the second. -/
def Feeds (source target : Fin g.nbNodes) : Prop :=
  ∃ e, ¬ g.weak e ∧ g.owner (g.src e) = source ∧ g.owner (g.dst e) = target

/-- The edges which are not weak form no directed cycle. -/
def Acyclic : Prop := ∀ node, ¬ Relation.TransGen g.Feeds node node

/-- The paths of edges which are not weak and end at a node have less edges than a number. -/
def Below : ℕ → Fin g.nbNodes → Prop
  | 0, _ => False
  | depth + 1, node => ∀ source, g.Feeds source node → Below depth source

/-- Every node is in the schedule once, after those which feed it. -/
structure Ordered (layers : List (List (Fin g.nbNodes))) : Prop where
  perm : layers.flatten.Perm (List.finRange g.nbNodes)
  earlier : ∀ source target, g.Feeds source target → Earlier layers source target

/-! ### Counting edges -/

/-- The number of edges with a property. -/
def nbEdgesWith (p : Fin g.nbEdges → Prop) [DecidablePred p] : ℕ :=
  (List.finRange g.nbEdges).countP p

variable {g}

theorem nbEdgesWith_eq_add {p q r : Fin g.nbEdges → Prop} [DecidablePred p] [DecidablePred q]
    [DecidablePred r] (split : ∀ e, (p e ↔ q e ∨ r e) ∧ ¬ (q e ∧ r e)) :
    g.nbEdgesWith p = g.nbEdgesWith q + g.nbEdgesWith r := by
  unfold nbEdgesWith
  induction List.finRange g.nbEdges with
  | nil => rfl
  | cons e edges ih =>
      have first := split e
      simp only [List.countP_cons, decide_eq_true_eq, ih]
      by_cases isQ : q e <;> by_cases isR : r e <;> simp_all <;> omega

theorem nbEdgesWith_eq_zero_iff {p : Fin g.nbEdges → Prop} [DecidablePred p] :
    g.nbEdgesWith p = 0 ↔ ∀ e, ¬ p e := by
  simp [nbEdgesWith, List.countP_eq_zero]

/-- A count over IOs which stand each for one edge is a count over these edges. -/
theorem countP_eq_nbEdgesWith {ios : List (Fin g.nbPorts)} (nodup : ios.Nodup)
    {p : Fin g.nbPorts → Bool} {q : Fin g.nbEdges → Prop} [DecidablePred q]
    (io : Fin g.nbEdges → Fin g.nbPorts) (injective : ∀ e e', q e → q e' → io e = io e' → e = e')
    (counted : ∀ x, x ∈ ios ∧ p x ↔ ∃ e, q e ∧ io e = x) : ios.countP p = g.nbEdgesWith q := by
  have perm : (ios.filter p).Perm (((List.finRange g.nbEdges).filter q).map io) := by
    rw [List.perm_ext_iff_of_nodup (nodup.filter _)]
    · intro x
      rw [List.mem_filter, counted]
      simp
    · refine List.Nodup.map_on ?_ ((List.nodup_finRange _).filter _)
      intro e mem e' mem' same
      exact injective e e' (by simpa using mem) (by simpa using mem') same
  rw [List.countP_eq_length_filter, perm.length_eq, List.length_map, nbEdgesWith,
    List.countP_eq_length_filter]

/-- The input at the end of the edge has not kept another edge. -/
def Kept (g : AsyncGraph) (e : Fin g.nbEdges) : Prop := g.fifo (g.dst e) = some e

instance (e : Fin g.nbEdges) : Decidable (g.Kept e) := inferInstanceAs (Decidable (_ = _))

theorem inputs_nodup (node : Fin g.nbNodes) : (g.inputs node).Nodup :=
  ((List.nodup_finRange _).filter _).filter _

theorem outputs_nodup (node : Fin g.nbNodes) : (g.outputs node).Nodup :=
  ((List.nodup_finRange _).filter _).filter _

/-- An output goes to a node by its edge. -/
theorem nbOutputsTo_eq {removed : List (Fin g.nbNodes)} (nodup : removed.Nodup)
    (node : Fin g.nbNodes) :
    g.nbOutputsTo removed node =
      g.nbEdgesWith fun e => g.owner (g.dst e) = node ∧ g.owner (g.src e) ∈ removed := by
  have outputs : (removed.flatMap g.outputs).Nodup := by
    refine List.nodup_flatMap.mpr ⟨fun source _ => outputs_nodup source, ?_⟩
    refine nodup.imp ?_
    intro source other differ x mem mem'
    exact differ ((PortGraph.mem_outputs.mp mem).1.symm.trans (PortGraph.mem_outputs.mp mem').1)
  rw [nbOutputsTo]
  refine congrArg Nat.cast (countP_eq_nbEdgesWith outputs g.src ?_ ?_)
  · intro e e' _ _ same
    have kept := g.fifo_src e
    rw [same, g.fifo_src] at kept
    exact (Option.some.inj kept).symm
  · intro x
    rw [List.mem_flatMap, decide_eq_true_eq, outputNode, Option.map_eq_some_iff]
    constructor
    · rintro ⟨⟨source, sourceMem, mem⟩, e, fifo, isDst⟩
      rw [PortGraph.mem_outputs] at mem
      rcases g.fifo_end x e fifo with rfl | rfl
      · exact ⟨e, ⟨isDst, mem.1 ▸ sourceMem⟩, rfl⟩
      · rw [g.dst_isInput] at mem
        cases mem.2
    · rintro ⟨e, ⟨isDst, isSrc⟩, rfl⟩
      exact ⟨⟨_, isSrc, PortGraph.mem_outputs.mpr ⟨rfl, g.src_isOutput e⟩⟩, e, g.fifo_src e,
        isDst⟩

/-! ### The counts in the loop -/

/-- What holds at each iteration: no node was lost, and the count of a node went down for each
edge from a removed node. -/
structure SourceInvariant (g : AsyncGraph) (remaining : List (Fin g.nbNodes))
    (inputs : Fin g.nbNodes → ℤ) (layers : List (List (Fin g.nbNodes))) : Prop where
  perm : (layers.flatten ++ remaining).Perm (List.finRange g.nbNodes)
  inputs_eq : ∀ node, inputs node =
    g.nbEdgesWith (fun e => g.owner (g.dst e) = node ∧ ¬ g.weak e ∧ g.Kept e) -
      g.nbEdgesWith (fun e => g.owner (g.dst e) = node ∧ g.owner (g.src e) ∈ layers.flatten)

theorem Below.mono {depth depth' : ℕ} (le : depth ≤ depth') {node : Fin g.nbNodes}
    (below : g.Below depth node) : g.Below depth' node := by
  induction depth generalizing depth' node with
  | zero => exact below.elim
  | succ depth ih =>
      obtain ⟨depth', rfl⟩ : ∃ d, depth' = d + 1 := ⟨depth' - 1, by omega⟩
      exact fun source feeds => ih (Nat.le_of_succ_le_succ le) (below source feeds)

section

variable {depth : ℕ} {remaining : List (Fin g.nbNodes)} {inputs : Fin g.nbNodes → ℤ}
  {layers : List (List (Fin g.nbNodes))} {node : Fin g.nbNodes}

theorem SourceInvariant.nodup (invariant : g.SourceInvariant remaining inputs layers) :
    (layers.flatten ++ remaining).Nodup :=
  invariant.perm.nodup_iff.mpr (List.nodup_finRange _)

/-- Removing a layer keeps the invariant. -/
theorem SourceInvariant.remove (invariant : g.SourceInvariant remaining inputs layers)
    (p : Fin g.nbNodes → Bool) :
    g.SourceInvariant (remaining.diff (remaining.filter p))
      (fun node => inputs node - g.nbOutputsTo (remaining.filter p) node)
      (layers ++ [remaining.filter p]) := by
  have split := Graph.filter_perm_diff remaining p
  have disjoint := (List.nodup_append'.mp invariant.nodup).2.2
  have flatten : (layers ++ [remaining.filter p]).flatten =
      layers.flatten ++ remaining.filter p := by simp
  refine ⟨?_, fun node => ?_⟩
  · rw [flatten, List.append_assoc]
    exact (split.append_left _).trans invariant.perm
  · have removed := nbEdgesWith_eq_add (g := g)
      (p := fun e => g.owner (g.dst e) = node ∧
        g.owner (g.src e) ∈ (layers ++ [remaining.filter p]).flatten)
      (q := fun e => g.owner (g.dst e) = node ∧ g.owner (g.src e) ∈ layers.flatten)
      (r := fun e => g.owner (g.dst e) = node ∧ g.owner (g.src e) ∈ remaining.filter p)
      fun e => by
        have both : g.owner (g.src e) ∈ layers.flatten →
            g.owner (g.src e) ∉ remaining.filter p :=
          fun inLayers inLayer => disjoint inLayers (List.mem_of_mem_filter inLayer)
        rw [flatten, List.mem_append]
        tauto
    have nodup := (List.nodup_append'.mp invariant.nodup).2.1.filter p
    rw [invariant.inputs_eq, nbOutputsTo_eq nodup, removed]
    push_cast
    ring

theorem SourceInvariant.not_mem_flatten (invariant : g.SourceInvariant remaining inputs layers)
    (mem : node ∈ remaining) : node ∉ layers.flatten := fun inLayers =>
  (List.nodup_append'.mp invariant.nodup).2.2 inLayers mem

theorem SourceInvariant.removed_or_remains (invariant : g.SourceInvariant remaining inputs layers)
    (node : Fin g.nbNodes) : node ∈ layers.flatten ∨ node ∈ remaining :=
  List.mem_append.mp (invariant.perm.mem_iff.mpr (List.mem_finRange node))

theorem SourceInvariant.mem_diff (invariant : g.SourceInvariant remaining inputs layers)
    (p : Fin g.nbNodes → Bool) :
    node ∈ remaining.diff (remaining.filter p) ↔ node ∈ remaining ∧ node ∉ remaining.filter p :=
  List.Nodup.mem_sdiff_iff (List.nodup_append'.mp invariant.nodup).2.1

end

/-! ### When no input keeps another edge and no weak edge is counted down too early -/

/-- The inputs keep the edges which are not weak. -/
def KeepsEdges (g : AsyncGraph) : Prop := ∀ e, ¬ g.weak e → g.Kept e

/-- A removed node has no weak edge to a remaining one. -/
def NoEarlyWeak (g : AsyncGraph) (remaining : List (Fin g.nbNodes))
    (layers : List (List (Fin g.nbNodes))) : Prop :=
  ∀ e, g.weak e → g.owner (g.dst e) ∈ remaining → g.owner (g.src e) ∉ layers.flatten

/-- The removed nodes are those with shorter paths than the number of layers. -/
def RemovedBelow (g : AsyncGraph) (depth : ℕ) (remaining : List (Fin g.nbNodes)) : Prop :=
  ∀ node, node ∈ remaining ↔ ¬ g.Below depth node

section

variable {depth : ℕ} {remaining : List (Fin g.nbNodes)} {inputs : Fin g.nbNodes → ℤ}
  {layers : List (List (Fin g.nbNodes))} {node : Fin g.nbNodes}

/-- The count of a remaining node is that of its edges from remaining nodes which are not weak. -/
theorem SourceInvariant.inputs_eq_remaining
    (invariant : g.SourceInvariant remaining inputs layers) (keeps : g.KeepsEdges)
    (noEarly : g.NoEarlyWeak remaining layers) (mem : node ∈ remaining) :
    inputs node = g.nbEdgesWith fun e =>
      g.owner (g.dst e) = node ∧ ¬ g.weak e ∧ g.owner (g.src e) ∈ remaining := by
  have split := nbEdgesWith_eq_add (g := g)
    (p := fun e => g.owner (g.dst e) = node ∧ ¬ g.weak e ∧ g.Kept e)
    (q := fun e => g.owner (g.dst e) = node ∧ g.owner (g.src e) ∈ layers.flatten)
    (r := fun e => g.owner (g.dst e) = node ∧ ¬ g.weak e ∧ g.owner (g.src e) ∈ remaining)
    fun e => by
      have kept := keeps e
      have early := noEarly e
      have either := invariant.removed_or_remains (g.owner (g.src e))
      have notBoth : g.owner (g.src e) ∈ remaining → g.owner (g.src e) ∉ layers.flatten :=
        invariant.not_mem_flatten
      by_cases isDst : g.owner (g.dst e) = node
      · rw [isDst] at early
        tauto
      · simp [isDst]
  rw [invariant.inputs_eq, split]
  push_cast
  ring

/-- A layer is made of the remaining nodes which no remaining node feeds. -/
theorem SourceInvariant.mem_filter_iff (invariant : g.SourceInvariant remaining inputs layers)
    (keeps : g.KeepsEdges) (noEarly : g.NoEarlyWeak remaining layers) :
    node ∈ (remaining.filter fun node => inputs node = 0) ↔
      node ∈ remaining ∧ ∀ source, g.Feeds source node → source ∉ remaining := by
  rw [List.mem_filter, decide_eq_true_eq]
  refine and_congr_right fun mem => ?_
  rw [invariant.inputs_eq_remaining keeps noEarly mem, Nat.cast_eq_zero, nbEdgesWith_eq_zero_iff]
  constructor
  · rintro noEdge source ⟨e, strong, rfl, isDst⟩ src
    exact noEdge e ⟨isDst, strong, src⟩
  · rintro notFed e ⟨isDst, strong, src⟩
    exact notFed _ ⟨e, strong, rfl, isDst⟩ src

theorem RemovedBelow.remove (removed : g.RemovedBelow depth remaining)
    (invariant : g.SourceInvariant remaining inputs layers) (keeps : g.KeepsEdges)
    (noEarly : g.NoEarlyWeak remaining layers) :
    g.RemovedBelow (depth + 1)
      (remaining.diff (remaining.filter fun node => inputs node = 0)) := by
  intro node
  rw [invariant.mem_diff, invariant.mem_filter_iff keeps noEarly, removed node]
  constructor
  · rintro ⟨remains, notLayer⟩ below
    apply notLayer
    exact ⟨remains, fun source feeds mem => (removed source).mp mem (below source feeds)⟩
  · intro notBelow
    refine ⟨fun below => notBelow (below.mono (Nat.le_succ _)), fun layer => notBelow ?_⟩
    intro source feeds
    by_contra above
    exact layer.2 source feeds ((removed source).mpr above)

/-- The nodes of the layers found so far come after those which feed them. -/
def OrderedLayers (g : AsyncGraph) (layers : List (List (Fin g.nbNodes))) : Prop :=
  ∀ source target, g.Feeds source target → target ∈ layers.flatten → Earlier layers source target

theorem SourceInvariant.ordered (invariant : g.SourceInvariant [] inputs layers)
    (ordered : g.OrderedLayers layers) : g.Ordered layers := by
  have perm := invariant.perm
  rw [List.append_nil] at perm
  refine ⟨perm, fun source target feeds => ordered source target feeds ?_⟩
  exact perm.mem_iff.mpr (List.mem_finRange target)

theorem OrderedLayers.remove (ordered : g.OrderedLayers layers)
    (invariant : g.SourceInvariant remaining inputs layers) (keeps : g.KeepsEdges)
    (noEarly : g.NoEarlyWeak remaining layers) :
    g.OrderedLayers (layers ++ [remaining.filter fun node => inputs node = 0]) := by
  intro source target feeds mem
  rw [List.flatten_append, List.flatten_singleton, List.mem_append] at mem
  rcases mem with old | new
  · exact earlier_append (ordered source target feeds old)
  · have gone := ((invariant.mem_filter_iff keeps noEarly).mp new).2 source feeds
    exact ⟨layers, _, [], rfl, (invariant.removed_or_remains source).resolve_right gone, new⟩

end

end AsyncGraph

end CmsisStream.Scheduler
