import CmsisStream.Scheduler.AcceptedGraph
import CmsisStream.Scheduler.SourceLayers
import Mathlib.Data.List.NodupEquivFin
import Mathlib.Data.List.Sort
import Mathlib.Data.String.Basic

/-!
# The IOs and edges which the schedulers see

After the insertion of the duplicate nodes, the schedulers number the nodes in the order of
their identifiers and the edges in the order of the dictionary.  Every output has one edge, and
an input has kept the last one which was connected to it.
-/

namespace CmsisStream.Scheduler

/-- The position of an element in a list. -/
def indexIn {α : Type} [DecidableEq α] {l : List α} {x : α} (mem : x ∈ l) : Fin l.length :=
  ⟨l.idxOf x, List.idxOf_lt_length_iff.mpr mem⟩

@[simp] theorem get_indexIn {α : Type} [DecidableEq α] {l : List α} {x : α} (mem : x ∈ l) :
    l.get (indexIn mem) = x :=
  List.idxOf_get _

theorem indexIn_eq_iff {α : Type} [DecidableEq α] {l : List α} (nodup : l.Nodup) {x : α}
    (mem : x ∈ l) (i : Fin l.length) : indexIn mem = i ↔ l.get i = x := by
  rw [← nodup.get_inj_iff, get_indexIn, eq_comm]

/-- The nodes with what the schedulers read of them besides; a cycle of an IO is not empty. -/
structure SchedulableNodes (N O I : Type) extends StreamingNodes N O I where
  nodeID : N → String
  inputs : N → List I
  inputs_nodup : ∀ n, (inputs n).Nodup
  mem_inputs : ∀ n input, input ∈ inputs n ↔ inputOwner input = n
  inputSamples : I → NbSamples
  nbSamples_pos : ∀ output, 0 < (nbSamples output).cyclePeriod
  inputSamples_pos : ∀ input, 0 < (inputSamples input).cyclePeriod

/-- An input or an output. -/
inductive GraphPort (O I : Type) where
  | input (b : GraphInput I)
  | output (a : GraphOutput O)
deriving DecidableEq

namespace ConnectedGraph

variable {N O I F : Type}

section Ports

variable (nodes : SchedulableNodes N O I) (h : ConnectedGraph N O I F)

/-- `BaseNode.nodeID` -/
def nodeID : GraphNode N → String
  | .node n => nodes.nodeID n
  | .duplicate d => "dup" ++ toString d

/-- `_sortedNodes` -/
def sortedNodes : List (GraphNode N) :=
  h.nodes.insertionSort fun first second => nodeID nodes first ≤ nodeID nodes second

/-- The inputs of a node, in the order of `_inputs`. -/
def inputsOf : GraphNode N → List (GraphInput I)
  | .node n => (nodes.inputs n).map GraphInput.input
  | .duplicate d => [.duplicate d]

/-- The IOs of a node. -/
def iosOf (node : GraphNode N) : List (GraphPort O I) :=
  (inputsOf nodes node).map .input ++ (h.outputsOf nodes.toStreamingNodes node).map .output

/-- The IOs of the nodes. -/
def ios : List (GraphPort O I) := (h.sortedNodes nodes).flatMap (h.iosOf nodes)

/-- `IO.owner` -/
def ioOwner : GraphPort O I → GraphNode N
  | .input b => inputOwner nodes.toStreamingNodes b
  | .output a => outputOwner nodes.toStreamingNodes a

/-- `IO.nbSamples` -/
def ioSamples : GraphPort O I → NbSamples
  | .input (.input b) => nodes.inputSamples b
  | .output (.output a) => nodes.nbSamples a
  | .input (.duplicate d) | .output (.duplicate d _) =>
      ((h.duplicates[d]?).map Duplicate.inLength).getD (.int 1)

/-- `IO.fifo` -/
def ioFifo : GraphPort O I → IOFifo O I
  | .input b => h.inputFifo b
  | .output a => h.outputFifo a

end Ports

variable [DecidableEq O] [DecidableEq I]

/-- The position of an edge in `_sortedEdges`. -/
def edgeIndex? (h : ConnectedGraph N O I F) (key : EdgeKey O I) : Option (Fin h.edges.length) :=
  (List.finRange h.edges.length).find? fun e => (h.edges.get e).key = key

variable {nodes : SchedulableNodes N O I} {h : ConnectedGraph N O I F}

theorem edgeIndex?_eq_some_iff (keys : (h.edges.map FIFOEdge.key).Nodup) {key : EdgeKey O I}
    {e : Fin h.edges.length} : h.edgeIndex? key = some e ↔ (h.edges.get e).key = key := by
  constructor
  · intro found
    simpa [edgeIndex?] using List.find?_some found
  · intro isKey
    cases found : h.edgeIndex? key with
    | none =>
        have differs := List.find?_eq_none.mp found e (List.mem_finRange e)
        exact absurd isKey (by simpa using differs)
    | some other =>
        have otherKey : (h.edges.get other).key = key := by
          simpa [edgeIndex?] using List.find?_some found
        have sameEdge := List.inj_on_of_nodup_map keys (List.get_mem _ other) (List.get_mem _ e)
          (otherKey.trans isKey.symm)
        exact congrArg some (((List.Nodup.of_map _ keys).get_inj_iff).mp sameEdge)

omit [DecidableEq O] [DecidableEq I] in
theorem mem_sortedNodes {node : GraphNode N} :
    node ∈ h.sortedNodes nodes ↔ node ∈ h.nodes := by
  rw [sortedNodes, List.mem_insertionSort]

omit [DecidableEq O] [DecidableEq I] in
theorem mem_inputsOf {node : GraphNode N} {b : GraphInput I} :
    b ∈ inputsOf nodes node ↔ inputOwner nodes.toStreamingNodes b = node := by
  cases node with
  | node n =>
      cases b with
      | input b => simp [inputsOf, inputOwner, nodes.mem_inputs]
      | duplicate d => simp [inputsOf, inputOwner]
  | duplicate d =>
      cases b with
      | input b => simp [inputsOf, inputOwner]
      | duplicate d' => simp [inputsOf, inputOwner]

omit [DecidableEq O] [DecidableEq I] in
theorem outputOwner_of_mem {node : GraphNode N} {a : GraphOutput O}
    (mem : a ∈ h.outputsOf nodes.toStreamingNodes node) :
    outputOwner nodes.toStreamingNodes a = node := by
  cases node with
  | node n =>
      rcases List.mem_map.mp mem with ⟨a, aMem, rfl⟩
      exact congrArg GraphNode.node ((nodes.mem_outputs n a).mp aMem)
  | duplicate d =>
      simp only [outputsOf] at mem
      split at mem
      · cases mem
      · rcases List.mem_map.mp mem with ⟨i, -, rfl⟩
        rfl

omit [DecidableEq O] [DecidableEq I] in
theorem mem_iosOf {node : GraphNode N} {io : GraphPort O I} (mem : io ∈ h.iosOf nodes node) :
    ioOwner nodes io = node := by
  rcases List.mem_append.mp mem with isInput | isOutput
  · rcases List.mem_map.mp isInput with ⟨b, bMem, rfl⟩
    exact mem_inputsOf.mp bMem
  · rcases List.mem_map.mp isOutput with ⟨a, aMem, rfl⟩
    exact outputOwner_of_mem aMem

omit [DecidableEq O] [DecidableEq I] in
theorem mem_ios {io : GraphPort O I} : io ∈ h.ios nodes ↔
    ioOwner nodes io ∈ h.nodes ∧ io ∈ h.iosOf nodes (ioOwner nodes io) := by
  rw [ios, List.mem_flatMap]
  constructor
  · rintro ⟨node, nodeMem, mem⟩
    rw [mem_iosOf mem]
    exact ⟨mem_sortedNodes.mp nodeMem, mem⟩
  · exact fun ⟨owner, mem⟩ => ⟨_, mem_sortedNodes.mpr owner, mem⟩

omit [DecidableEq O] [DecidableEq I] in
theorem output_mem_iosOf {node : GraphNode N} {a : GraphOutput O} :
    .output a ∈ h.iosOf nodes node ↔ a ∈ h.outputsOf nodes.toStreamingNodes node := by
  simp [iosOf]

omit [DecidableEq O] [DecidableEq I] in
theorem input_mem_iosOf {node : GraphNode N} {b : GraphInput I} :
    .input b ∈ h.iosOf nodes node ↔ b ∈ inputsOf nodes node := by
  simp [iosOf]

omit [DecidableEq O] [DecidableEq I] in
theorem iosOf_nodup (node : GraphNode N) : (h.iosOf nodes node).Nodup := by
  have inputs : (inputsOf nodes node).Nodup := by
    cases node with
    | node n => exact (nodes.inputs_nodup n).map fun _ _ => GraphInput.input.inj
    | duplicate d => exact List.nodup_singleton _
  have outputs : (h.outputsOf nodes.toStreamingNodes node).Nodup := by
    cases node with
    | node n => exact (nodes.outputs_nodup n).map fun _ _ => GraphOutput.output.inj
    | duplicate d =>
        simp only [outputsOf]
        split
        · exact List.nodup_nil
        · exact List.nodup_range.map fun i j same => by cases same; rfl
  refine List.nodup_append'.mpr ⟨inputs.map fun _ _ => GraphPort.input.inj,
    outputs.map fun _ _ => GraphPort.output.inj, ?_⟩
  intro io isInput isOutput
  rcases List.mem_map.mp isInput with ⟨b, -, rfl⟩
  simp at isOutput

omit [DecidableEq O] [DecidableEq I] in
theorem sortedNodes_nodup (nodup : h.nodes.Nodup) : (h.sortedNodes nodes).Nodup :=
  (List.perm_insertionSort _ _).nodup_iff.mpr nodup

omit [DecidableEq O] [DecidableEq I] in
theorem ios_nodup (nodup : h.nodes.Nodup) : (h.ios nodes).Nodup := by
  refine List.nodup_flatMap.mpr ⟨fun node _ => iosOf_nodup node, ?_⟩
  refine (sortedNodes_nodup nodup).imp ?_
  intro node other differ io mem mem'
  exact differ ((mem_iosOf mem).symm.trans (mem_iosOf mem'))

/-- The graph is made of nodes, IOs and edges which belong together: each output has an edge, and
the `fifo` field of an IO is an edge of this IO, or empty for an input of a constant node. -/
structure Resolved (nodes : SchedulableNodes N O I) (h : ConnectedGraph N O I F) : Prop where
  nodesNodup : h.nodes.Nodup
  keys : (h.edges.map FIFOEdge.key).Nodup
  source : ∀ e ∈ h.edges, .output e.src ∈ h.ios nodes
  destination : ∀ e ∈ h.edges, .input e.dst ∈ h.ios nodes
  outputFifo : ∀ e ∈ h.edges, h.outputFifo e.src = .edge e.key
  outputEdge : ∀ a, .output a ∈ h.ios nodes → ∃ e ∈ h.edges, e.src = a
  inputEdge : ∀ b key, h.inputFifo b = .edge key → ∃ e ∈ h.edges, e.dst = b ∧ e.key = key
  inputFifo : ∀ b, .input b ∈ h.ios nodes →
    h.inputFifo b = .list [] ∨ ∃ key, h.inputFifo b = .edge key
  period_pos : ∀ io, 0 < (h.ioSamples nodes io).cyclePeriod

/-- The edge in a `fifo` field. -/
def fifoEdge? (h : ConnectedGraph N O I F) : IOFifo O I → Option (Fin h.edges.length)
  | .edge key => h.edgeIndex? key
  | _ => none

omit [DecidableEq O] [DecidableEq I] in
theorem ioOwner_mem {io : GraphPort O I} (mem : io ∈ h.ios nodes) :
    ioOwner nodes io ∈ h.sortedNodes nodes :=
  mem_sortedNodes.mpr (mem_ios.mp mem).1

namespace Resolved

variable (resolved : Resolved nodes h)

include resolved

/-- The edge in the `fifo` field of an IO is one of its edges. -/
theorem end_of_fifoEdge? {io : GraphPort O I} (mem : io ∈ h.ios nodes) {e : Fin h.edges.length}
    (isEdge : h.fifoEdge? (h.ioFifo io) = some e) :
    io = .output (h.edges.get e).src ∨ io = .input (h.edges.get e).dst := by
  cases fifo : h.ioFifo io with
  | none => simp [fifoEdge?, fifo] at isEdge
  | list edges => simp [fifoEdge?, fifo] at isEdge
  | edge key =>
      rw [fifo, fifoEdge?, edgeIndex?_eq_some_iff resolved.keys] at isEdge
      cases io with
      | output a =>
          rcases resolved.outputEdge a mem with ⟨other, otherMem, rfl⟩
          have same : IOFifo.edge other.key = .edge key :=
            (resolved.outputFifo other otherMem).symm.trans fifo
          rw [← IOFifo.edge.inj same] at isEdge
          exact .inl (congrArg GraphPort.output (congrArg Prod.fst isEdge).symm)
      | input b =>
          rcases resolved.inputEdge b key fifo with ⟨other, otherMem, rfl, keyEq⟩
          rw [← keyEq] at isEdge
          exact .inr (congrArg GraphPort.input (congrArg Prod.snd isEdge).symm)

theorem fifoEdge?_src (e : Fin h.edges.length) :
    h.fifoEdge? (h.outputFifo (h.edges.get e).src) = some e := by
  rw [resolved.outputFifo _ (List.get_mem _ e), fifoEdge?, edgeIndex?_eq_some_iff resolved.keys]

/-- An IO has no edge exactly when its `fifo` field is empty, which is what the source tests. -/
theorem fifoEdge?_eq_none_iff {io : GraphPort O I} (mem : io ∈ h.ios nodes) :
    h.fifoEdge? (h.ioFifo io) = none ↔ h.ioFifo io = .list [] := by
  have found : ∀ e ∈ h.edges, h.fifoEdge? (.edge e.key) ≠ none := by
    intro e eMem
    rcases List.get_of_mem eMem with ⟨i, rfl⟩
    rw [fifoEdge?, (edgeIndex?_eq_some_iff resolved.keys).mpr rfl]
    exact Option.some_ne_none i
  cases io with
  | output a =>
      rcases resolved.outputEdge a mem with ⟨e, eMem, rfl⟩
      have isEdge : h.ioFifo (.output e.src) = .edge e.key := resolved.outputFifo e eMem
      rw [isEdge]
      exact iff_of_false (found e eMem) (by simp)
  | input b =>
      rcases resolved.inputFifo b mem with empty | ⟨key, isEdge⟩
      · exact iff_of_true (by rw [ioFifo, empty]; rfl) empty
      · rcases resolved.inputEdge b key isEdge with ⟨e, eMem, -, rfl⟩
        rw [ioFifo, isEdge]
        exact iff_of_false (found e eMem) (by simp)

end Resolved

variable [DecidableEq N]

/-- The IOs and edges of the graph, with their numbers. -/
def portGraph (h : ConnectedGraph N O I F) (resolved : Resolved nodes h) : PortGraph where
  nbNodes := (h.sortedNodes nodes).length
  nbPorts := (h.ios nodes).length
  nbEdges := h.edges.length
  owner io := indexIn (ioOwner_mem (List.get_mem (h.ios nodes) io))
  isOutput io := match (h.ios nodes).get io with
    | .output _ => true
    | .input _ => false
  nbSamples io := h.ioSamples nodes ((h.ios nodes).get io)
  src e := indexIn (resolved.source _ (List.get_mem _ e))
  dst e := indexIn (resolved.destination _ (List.get_mem _ e))
  fifo io := h.fifoEdge? (h.ioFifo ((h.ios nodes).get io))
  period_pos io := resolved.period_pos _
  src_isOutput e := by rw [get_indexIn]
  dst_isInput e := by rw [get_indexIn]
  fifo_src e := by
    rw [get_indexIn]
    exact resolved.fifoEdge?_src e
  fifo_end io e isEdge := by
    have nodup : (h.ios nodes).Nodup := ios_nodup resolved.nodesNodup
    rw [eq_comm, indexIn_eq_iff nodup, eq_comm (a := io), indexIn_eq_iff nodup]
    exact resolved.end_of_fifoEdge? (List.get_mem _ io) isEdge

theorem portGraph_owner (resolved : Resolved nodes h) (io : Fin (h.ios nodes).length) :
    (h.sortedNodes nodes).get ((h.portGraph resolved).owner io) =
      ioOwner nodes ((h.ios nodes).get io) :=
  get_indexIn (ioOwner_mem (List.get_mem (h.ios nodes) io))

theorem portGraph_src (resolved : Resolved nodes h) (e : Fin h.edges.length) :
    (h.ios nodes).get ((h.portGraph resolved).src e) = .output (h.edges.get e).src :=
  get_indexIn (resolved.source _ (List.get_mem _ e))

theorem portGraph_dst (resolved : Resolved nodes h) (e : Fin h.edges.length) :
    (h.ios nodes).get ((h.portGraph resolved).dst e) = .input (h.edges.get e).dst :=
  get_indexIn (resolved.destination _ (List.get_mem _ e))

/-- The nodes of an edge. -/
theorem portGraph_ends (resolved : Resolved nodes h) (e : Fin h.edges.length) :
    (h.sortedNodes nodes).get ((h.portGraph resolved).owner ((h.portGraph resolved).src e)) =
        outputOwner nodes.toStreamingNodes (h.edges.get e).src ∧
      (h.sortedNodes nodes).get ((h.portGraph resolved).owner ((h.portGraph resolved).dst e)) =
        inputOwner nodes.toStreamingNodes (h.edges.get e).dst := by
  refine ⟨(portGraph_owner resolved _).trans ?_, (portGraph_owner resolved _).trans ?_⟩
  · rw [portGraph_src]
    rfl
  · rw [portGraph_dst]
    rfl

/-- The edge which the input at the end of an edge has kept. -/
theorem portGraph_fifo_dst (resolved : Resolved nodes h) (e : Fin h.edges.length) :
    (h.portGraph resolved).fifo ((h.portGraph resolved).dst e) = some e ↔
      h.inputFifo (h.edges.get e).dst = .edge (h.edges.get e).key := by
  change h.fifoEdge? (h.ioFifo ((h.ios nodes).get ((h.portGraph resolved).dst e))) = some e ↔ _
  rw [portGraph_dst, ioFifo]
  cases fifo : h.inputFifo (h.edges.get e).dst with
  | none => simp [fifoEdge?]
  | list edges => simp [fifoEdge?]
  | edge key =>
      rw [fifoEdge?, edgeIndex?_eq_some_iff resolved.keys, IOFifo.edge.injEq, eq_comm]

/-- The IOs and edges for the fully asynchronous mode. -/
def asyncGraph (h : ConnectedGraph N O I F) (resolved : Resolved nodes h) : AsyncGraph where
  toPortGraph := h.portGraph resolved
  weak e := (h.edges.get e).weak

/-! ### The graph after the pass -/

section Inserted

variable {mode : SchedulingMode} {g : ConnectedGraph N O I F}
  (connected : WellConnected nodes.toStreamingNodes g)
  (inserted : InsertedUpTo nodes.toStreamingNodes mode g (g.userOutputs nodes.toStreamingNodes) h)

include inserted in
omit [DecidableEq N] in
theorem mem_nodes_inserted {node : GraphNode N} :
    node ∈ h.nodes ↔ node ∈ g.nodes ∨ ∃ d < h.duplicates.length, node = .duplicate d := by
  rw [inserted.nodes, List.mem_append]
  simp [eq_comm]

include inserted connected in
omit [DecidableEq N] in
theorem nodup_inserted : h.nodes.Nodup := by
  rw [inserted.nodes]
  refine List.nodup_append'.mpr ⟨connected.nodesNodup,
    List.nodup_range.map fun i j same => GraphNode.duplicate.inj same, ?_⟩
  intro node isOld isNew
  rcases connected.nodesUser node isOld with ⟨n, rfl⟩
  simp at isNew

include inserted in
omit [DecidableEq N] in
/-- The duplicate node of an output. -/
theorem duplicate_of_split {d : ℕ} {a : O}
    (found : ((g.userOutputs nodes.toStreamingNodes).filter g.fanned)[d]? = some a) :
    GraphNode.duplicate d ∈ h.nodes ∧
      h.duplicates[d]? = some (newDuplicate nodes.toStreamingNodes g a) := by
  refine ⟨(mem_nodes_inserted inserted).mpr (.inr ⟨d, ?_, rfl⟩), ?_⟩
  · rw [inserted.nbDuplicates]
    exact (List.getElem?_eq_some_iff.mp found).1
  · rw [inserted.duplicates, List.getElem?_map, found]
    rfl

include inserted connected in
omit [DecidableEq N] in
theorem source_inserted {e : FIFOEdge O I F} (eMem : e ∈ h.edges) :
    .output e.src ∈ h.ios nodes := by
  have userOutput : ∀ a, GraphNode.node (nodes.owner a) ∈ g.nodes →
      GraphPort.output (.output a) ∈ h.ios nodes := by
    intro a owner
    refine mem_ios.mpr ⟨(mem_nodes_inserted inserted).mpr (.inl owner), ?_⟩
    rw [output_mem_iosOf]
    exact List.mem_map_of_mem ((nodes.mem_outputs _ a).mpr rfl)
  rcases inserted.mem_edges.mp eMem with ⟨old, -⟩ | ⟨d, a, found, new⟩
  · rcases connected.source e old with ⟨a, srcEq⟩
    rw [srcEq]
    exact userOutput a (connected.owner_mem old srcEq)
  · rcases mem_dupEdges.mp new with rfl | ⟨i, orig, isLeaving, rfl⟩
    · exact userOutput a (mem_split.mp (List.mem_of_getElem? found)).1
    · rcases duplicate_of_split inserted found with ⟨nodeMem, isDup⟩
      refine mem_ios.mpr ⟨nodeMem, output_mem_iosOf.mpr ?_⟩
      change GraphOutput.duplicate d i ∈
        h.outputsOf nodes.toStreamingNodes (.duplicate d)
      simp only [outputsOf, isDup]
      exact List.mem_map_of_mem
        (List.mem_range.mpr (List.getElem?_eq_some_iff.mp isLeaving).1)

include inserted connected in
omit [DecidableEq N] in
theorem destination_inserted {e : FIFOEdge O I F} (eMem : e ∈ h.edges) :
    .input e.dst ∈ h.ios nodes := by
  have ofOwner : ∀ b, inputOwner nodes.toStreamingNodes b ∈ h.nodes →
      GraphPort.input b ∈ h.ios nodes :=
    fun b owner => mem_ios.mpr ⟨owner, input_mem_iosOf.mpr (mem_inputsOf.mpr rfl)⟩
  rcases inserted.mem_edges.mp eMem with ⟨old, -⟩ | ⟨d, a, found, new⟩
  · exact ofOwner _ ((mem_nodes_inserted inserted).mpr (.inl (connected.owners e old).2))
  · rcases mem_dupEdges.mp new with rfl | ⟨i, orig, isLeaving, rfl⟩
    · exact ofOwner _ (duplicate_of_split inserted found).1
    · have inGraph := (mem_edgesFrom.mp (List.mem_of_getElem? isLeaving)).1
      exact ofOwner _ ((mem_nodes_inserted inserted).mpr (.inl (connected.owners orig inGraph).2))

include inserted connected in
omit [DecidableEq N] in
theorem outputEdge_inserted {a : GraphOutput O} (mem : .output a ∈ h.ios nodes) :
    ∃ e ∈ h.edges, e.src = a := by
  rcases mem_ios.mp mem with ⟨owner, isOutput⟩
  cases a with
  | output a =>
      rcases (mem_nodes_inserted inserted).mp owner with old | ⟨d, -, isDuplicate⟩
      · exact exists_edge_of_output inserted connected old
      · cases isDuplicate
  | duplicate d i =>
      rw [output_mem_iosOf] at isOutput
      change GraphOutput.duplicate d i ∈ h.outputsOf nodes.toStreamingNodes (.duplicate d)
        at isOutput
      simp only [outputsOf] at isOutput
      split at isOutput
      · cases isOutput
      · rename_i dup isDup
        rw [inserted.duplicates, List.getElem?_map, Option.map_eq_some_iff] at isDup
        rcases isDup with ⟨a, found, rfl⟩
        rcases List.mem_map.mp isOutput with ⟨j, less, same⟩
        cases same
        have isLeaving := List.getElem?_eq_getElem (l := g.edgesFrom (.output a))
          (List.mem_range.mp less)
        exact ⟨_, dupOutputEdge_mem inserted found isLeaving, rfl⟩

include inserted connected in
omit [DecidableEq N] in
theorem inputFifo_inserted {b : GraphInput I} (mem : .input b ∈ h.ios nodes) :
    h.inputFifo b = .list [] ∨ ∃ key, h.inputFifo b = .edge key := by
  by_cases isDst : ∃ e ∈ h.edges, e.dst = b
  · rcases isDst with ⟨e, eMem, rfl⟩
    exact .inr (inserted.seenEdge e eMem (src_seen inserted connected eMem))
  · cases b with
    | input b => exact .inl (inserted.noEdge b fun e eMem dstEq => isDst ⟨e, eMem, dstEq⟩)
    | duplicate d =>
        rcases (mem_nodes_inserted inserted).mp (mem_ios.mp mem).1 with old | ⟨d', less, same⟩
        · rcases connected.nodesUser _ old with ⟨n, same⟩
          cases same
        · cases same
          rw [inserted.nbDuplicates] at less
          exact absurd ⟨_, firstEdge_mem inserted (List.getElem?_eq_getElem less), rfl⟩ isDst

include inserted in
omit [DecidableEq N] in
/-- What holds of the samples of the user's IOs holds of those of the duplicate nodes. -/
theorem ioSamples_inserted {P : NbSamples → Prop} (one : P (.int 1))
    (outputs : ∀ a, P (nodes.nbSamples a)) (inputs : ∀ b, P (nodes.inputSamples b))
    (io : GraphPort O I) : P (h.ioSamples nodes io) := by
  have duplicate : ∀ d : ℕ, P (((h.duplicates[d]?).map Duplicate.inLength).getD (.int 1)) := by
    intro d
    cases isDup : h.duplicates[d]? with
    | none => exact one
    | some dup =>
        rw [inserted.duplicates, List.getElem?_map, Option.map_eq_some_iff] at isDup
        rcases isDup with ⟨a, -, rfl⟩
        exact outputs a
  cases io with
  | input b =>
      cases b with
      | input b => exact inputs b
      | duplicate d => exact duplicate d
  | output a =>
      cases a with
      | output a => exact outputs a
      | duplicate d i => exact duplicate d

include inserted connected in
omit [DecidableEq N] in
theorem resolved_inserted : Resolved nodes h where
  nodesNodup := nodup_inserted connected inserted
  keys := inserted.keys
  source := fun _ => source_inserted connected inserted
  destination := fun _ => destination_inserted connected inserted
  outputFifo := fun e eMem => inserted.seen e eMem (src_seen inserted connected eMem)
  outputEdge := fun _ => outputEdge_inserted connected inserted
  inputEdge := inserted.inputEdge
  inputFifo := fun _ => inputFifo_inserted connected inserted
  period_pos := ioSamples_inserted inserted (P := fun nbSamples => 0 < nbSamples.cyclePeriod)
    Nat.one_pos nodes.nbSamples_pos nodes.inputSamples_pos

end Inserted

end ConnectedGraph

end CmsisStream.Scheduler
