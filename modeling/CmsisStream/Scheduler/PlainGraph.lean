import CmsisStream.Scheduler.GreedyLoop
import CmsisStream.Scheduler.MatrixColumn

/-!
# Graphs whose inputs keep their edge

When every output has an edge and every input has at most one, the edges say
everything about the IOs, and the synchronous scheduler can work on the edges
alone.  The cycle periods, the topology matrix and the simulated executions read
on the IOs are then those read on the edges.
-/

namespace CmsisStream.Scheduler

open Dataflow

/-- The IOs and edges of a graph in which each output has an edge and each edge is kept by its
input, with what the scheduler reads about an edge and about a `Duplicate`. -/
structure PlainGraph extends PortGraph where
  delay : Fin nbEdges → ℕ
  bytes : Fin nbEdges → ℕ
  customBuffer : Fin nbEdges → Option BufferConstraint
  duplicateInput : Fin nbNodes → Option (Fin nbEdges)
  positive : ∀ io, 0 < (nbSamples io).cycleTotal
  src_of_isOutput : ∀ io, isOutput io = true → ∃ e, src e = io
  fifo_dst : ∀ e, fifo (dst e) = some e
  duplicateInput_iff : ∀ node input, duplicateInput node = some input →
    ∀ e, owner (dst e) = node ↔ e = input
  duplicateOutput : ∀ node input, duplicateInput node = some input →
    ∀ e, owner (src e) = node →
      nbSamples (src e) = nbSamples (dst input) ∧ bytes e = bytes input

namespace PlainGraph

variable (g : PlainGraph)

/-- An IO and its number of samples. -/
def port (io : Fin g.nbPorts) : IOPort := ⟨g.nbSamples io, g.positive io⟩

/-- The edges, with the IOs at their ends; an input without edge belongs to a constant node. -/
abbrev graph : Graph where
  nbNodes := g.nbNodes
  nbEdges := g.nbEdges
  edge e :=
    { srcOwner := g.owner (g.src e)
      dstOwner := g.owner (g.dst e)
      src := g.port (g.src e)
      dst := g.port (g.dst e)
      delay := g.delay e
      bytes := g.bytes e
      customBuffer := g.customBuffer e }
  constantInputs node := ((g.inputs node).filter fun io => (g.fifo io).isNone).map g.port
  duplicateInput := g.duplicateInput
  duplicateInput_iff := g.duplicateInput_iff
  duplicateOutput := g.duplicateOutput

/-- The delays, at the beginning of the cycles. -/
def start : g.CycleState where
  b e := g.delay e
  position _ := 0

/-- Some nodes are fired one after the other. -/
def fireAll (nodes : List (Fin g.nbNodes)) : g.CycleState :=
  nodes.foldl (fun s node => g.fire node s) g.start

variable {g} {node : Fin g.nbNodes}

theorem src_injective : Function.Injective g.src := by
  intro e e' same
  have kept := g.fifo_src e'
  rw [← same, g.fifo_src] at kept
  exact Option.some.inj kept

theorem dst_injective : Function.Injective g.dst := by
  intro e e' same
  have kept := g.fifo_dst e'
  rw [← same, g.fifo_dst] at kept
  exact Option.some.inj kept

theorem ports_nodup (node : Fin g.nbNodes) : (g.ports node).Nodup :=
  (List.nodup_finRange _).filter _

/-! ### The IOs of a node, read on the edges -/

/-- The outputs of a node are the sources of its edges. -/
theorem outputs_perm (node : Fin g.nbNodes) : (g.outputs node).Perm
    (((List.finRange g.nbEdges).filter fun e => g.owner (g.src e) = node).map g.src) := by
  have nodup : (g.outputs node).Nodup := (ports_nodup node).filter _
  refine (List.perm_ext_iff_of_nodup nodup
    (((List.nodup_finRange _).filter _).map src_injective)).mpr ?_
  intro io
  rw [PortGraph.mem_outputs]
  constructor
  · rintro ⟨isOwner, isOutput⟩
    rcases g.src_of_isOutput io isOutput with ⟨e, rfl⟩
    exact List.mem_map_of_mem (by simp [isOwner])
  · intro mem
    rcases List.mem_map.mp mem with ⟨e, eMem, rfl⟩
    exact ⟨by simpa using eMem, g.src_isOutput e⟩

/-- The inputs of a node with an edge are the destinations of its edges. -/
theorem inputs_perm (node : Fin g.nbNodes) :
    ((g.inputs node).filter fun io => !(g.fifo io).isNone).Perm
      (((List.finRange g.nbEdges).filter fun e => g.owner (g.dst e) = node).map g.dst) := by
  have nodup : (g.inputs node).Nodup := (ports_nodup node).filter _
  refine (List.perm_ext_iff_of_nodup (nodup.filter _)
    (((List.nodup_finRange _).filter _).map dst_injective)).mpr ?_
  intro io
  rw [List.mem_filter, PortGraph.mem_inputs]
  constructor
  · rintro ⟨⟨isOwner, isInput⟩, kept⟩
    cases isEdge : g.fifo io with
    | none => simp [isEdge] at kept
    | some e =>
        rcases g.fifo_end io e isEdge with rfl | rfl
        · rw [g.src_isOutput] at isInput
          cases isInput
        · exact List.mem_map_of_mem (by simp [isOwner])
  · intro mem
    rcases List.mem_map.mp mem with ⟨e, eMem, rfl⟩
    exact ⟨⟨by simpa using eMem, g.dst_isInput e⟩, by simp [g.fifo_dst]⟩

/-- The periods of the IOs of a node are those read on its edges and constant inputs. -/
theorem ioPeriods_perm (node : Fin g.nbNodes) :
    ((g.ports node).map fun io => (g.nbSamples io).cyclePeriod).Perm (g.graph.ioPeriods node) := by
  have split : (g.ports node).Perm (g.inputs node ++ g.outputs node) := by
    have halves := List.filter_append_perm g.isOutput (g.ports node)
    exact (List.perm_append_comm.trans halves).symm
  have inputs : (g.inputs node).Perm
      (((List.finRange g.nbEdges).filter fun e => g.owner (g.dst e) = node).map g.dst ++
        (g.inputs node).filter fun io => (g.fifo io).isNone) := by
    have halves := List.filter_append_perm (fun io => (g.fifo io).isNone) (g.inputs node)
    exact halves.symm.trans (List.perm_append_comm.trans ((inputs_perm node).append_right _))
  have perm := (split.trans (inputs.append (outputs_perm node))).map
    fun io => (g.nbSamples io).cyclePeriod
  simpa only [List.map_append, List.map_map, Graph.ioPeriods, graph, port, Function.comp_def]
    using perm

theorem cyclePeriod_graph (node : Fin g.nbNodes) :
    g.graph.cyclePeriod node = g.cyclePeriod node := by
  refine ((ioPeriods_perm node).foldr_eq' ?_ 1).symm
  intro x _ y _ z
  rw [← Nat.lcm_assoc, Nat.lcm_comm y x, Nat.lcm_assoc]

/-- The matrix read on the IOs is the one read on the edges. -/
theorem topologyMatrix_graph (e : Fin g.nbEdges) (node : Fin g.nbNodes) :
    g.graph.topologyMatrix e node = g.topologyMatrix e node := by
  have produced : g.graph.totalProduced e = g.totalOf (g.src e) := by
    rw [Graph.totalProduced, cyclePeriod_graph]
    rfl
  have consumed : g.graph.totalConsumed e = g.totalOf (g.dst e) := by
    rw [Graph.totalConsumed, cyclePeriod_graph]
    rfl
  rw [PortGraph.topologyMatrix_apply, Graph.topologyMatrix, produced, consumed]
  simp only [eq_comm (a := node)]

/-! ### Executions -/

/-- The samples of the edges and the positions of the IOs which the scheduler keeps by edge. -/
structure Represents (t : g.CycleState) (s : SchedState g.graph) : Prop where
  b : ∀ e, s.b e = t.b e
  srcPosition : ∀ e, s.srcPosition e = t.position (g.src e)
  dstPosition : ∀ e, s.dstPosition e = t.position (g.dst e)

theorem Represents.evolutionVectorForNode {t : g.CycleState} {s : SchedState g.graph}
    (represents : Represents t s) (node : Fin g.nbNodes) (e : Fin g.nbEdges) :
    s.evolutionVectorForNode node e = g.evolutionVectorForNode t.position node e := by
  rw [PortGraph.evolutionVectorForNode_apply, ← represents.srcPosition, ← represents.dstPosition,
    g.fifo_dst]
  simp only [and_true]
  rfl

/-- One execution of a node. -/
theorem Represents.execute {t : g.CycleState} {s : SchedState g.graph}
    (represents : Represents t s) (analyze : Bool) (node : Fin g.nbNodes) :
    Represents (g.fire node t) (s.execute analyze node) where
  b e := by
    rw [SchedState.execute_b, SchedState.newB, represents.evolutionVectorForNode, represents.b]
    rfl
  srcPosition e := by
    change (if g.owner (g.src e) = node then _ else s.srcPosition e) =
      g.advanceCycles t.position node (g.src e)
    rw [represents.srcPosition, PortGraph.advanceCycles, g.fifo_src]
    simp only [Option.isSome_some, and_true]
    rfl
  dstPosition e := by
    change (if g.owner (g.dst e) = node then _ else s.dstPosition e) =
      g.advanceCycles t.position node (g.dst e)
    rw [represents.dstPosition, PortGraph.advanceCycles, g.fifo_dst]
    simp only [Option.isSome_some, and_true]
    rfl

/-- A run of the scheduler is a run on the IOs. -/
theorem represents_fireAll (q : Fin g.nbNodes → ℤ) (nodes : List (Fin g.nbNodes)) :
    Represents (g.fireAll nodes)
      (nodes.foldl (SchedState.execute false) (initialState g.graph q)) := by
  induction nodes using List.reverseRecOn with
  | nil => exact ⟨fun _ => rfl, fun _ => rfl, fun _ => rfl⟩
  | append_singleton nodes node ih =>
      rw [fireAll, List.foldl_append, List.foldl_append]
      exact ih.execute false node

/-- The samples of an edge after some firings are those of the counting net. -/
theorem fireAll_b (noLoop : g.graph.NoLoop) (nodes : List (Fin g.nbNodes)) (e : Fin g.nbEdges) :
    (g.fireAll nodes).b e = g.graph.net.level (counts nodes) e := by
  have run : ∀ nodes : List (Fin g.nbNodes),
      (nodes.foldl (SchedState.execute false) (initialState g.graph 0)).Tracks 0 ∧
        (nodes.foldl (SchedState.execute false) (initialState g.graph 0)).schedule = nodes := by
    intro nodes
    induction nodes using List.reverseRecOn with
    | nil => exact ⟨initialState_tracks 0, rfl⟩
    | append_singleton nodes node ih =>
        rw [List.foldl_append]
        exact ⟨ih.1.execute false noLoop node, congrArg (· ++ [node]) ih.2⟩
  rcases run nodes with ⟨tracks, schedule⟩
  rw [← (represents_fireAll 0 nodes).b, tracks.b, SchedState.executed, schedule]

/-- The positions of the IOs with an edge follow the firings of their node. -/
theorem fireAll_position (nodes : List (Fin g.nbNodes)) (io : Fin g.nbPorts) :
    (g.fireAll nodes).position io =
      if (g.fifo io).isSome then counts nodes (g.owner io) % (g.nbSamples io).cyclePeriod
      else 0 := by
  induction nodes using List.reverseRecOn with
  | nil => simp [fireAll, start]
  | append_singleton nodes node ih =>
      have step : (g.fireAll (nodes ++ [node])).position io =
          g.advanceCycles (g.fireAll nodes).position node io := by
        rw [fireAll, List.foldl_append]
        rfl
      rw [step, PortGraph.advanceCycles, ih, counts_concat]
      by_cases kept : (g.fifo io).isSome
      · by_cases isOwner : g.owner io = node
        · subst isOwner
          simp only [kept, and_self, if_true, bump_self,
            NbSamples.advanceCycle_mod (g.period_pos io)]
        · simp only [kept, isOwner, false_and, if_false, if_true, bump_of_ne _ isOwner]
      · simp [kept]

/-- After whole cycles which leave the delays on the edges, everything is as at the start. -/
theorem fireAll_eq_start (noLoop : g.graph.NoLoop) {nodes : List (Fin g.nbNodes)}
    (delays : ∀ e, g.graph.net.level (counts nodes) e = g.delay e)
    (cycles : ∀ node, g.cyclePeriod node ∣ counts nodes node) : g.fireAll nodes = g.start := by
  have b : (g.fireAll nodes).b = g.start.b := by
    funext e
    rw [fireAll_b noLoop, delays]
    rfl
  have position : (g.fireAll nodes).position = g.start.position := by
    funext io
    have period := (PortGraph.cyclePeriod_dvd io).trans (cycles (g.owner io))
    rw [fireAll_position, Nat.mod_eq_zero_of_dvd period, ite_self]
    rfl
  exact congr (congrArg PortGraph.CycleState.mk b) position

end PlainGraph

end CmsisStream.Scheduler
