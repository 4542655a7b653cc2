import CmsisStream.Scheduler.GraphPorts
import CmsisStream.Scheduler.PlainGraph
import CmsisStream.Scheduler.Schedule

/-!
# From the connections of the user to the schedule

The user connects IOs, the duplicate nodes are inserted, and the schedule is
computed.  When no input is connected twice, the graph after the insertion is the
one on which the synchronous scheduler is defined, and the schedule it computes can
be executed on the IOs of this graph, any number of times, without ever reading
samples which are not there.
-/

namespace CmsisStream.Scheduler

/-- `CGStaticType.bytes`; a shared type has the size of the type it refers to. -/
structure SampleBytes where
  bytes : SampleType → ℕ
  bytes_sharedType : ∀ refType shared, bytes (.sharedType refType shared) = bytes refType

theorem SampleBytes.bytes_share (size : SampleBytes) (theType : SampleType) :
    size.bytes theType.share = size.bytes theType := by
  cases theType with
  | sharedType refType shared =>
      rw [SampleType.share, size.bytes_sharedType, size.bytes_sharedType]
  | _ => rfl

namespace ConnectedGraph

variable {N O I F : Type} [DecidableEq O] [DecidableEq I]

/-- The graph has the IOs and edges which belong together, each input has kept its edge, every
IO transfers some samples in its cycle, and the input of a `Duplicate` gets samples of its type. -/
structure Plain (nodes : SchedulableNodes N O I) (h : ConnectedGraph N O I F) : Prop
    extends Resolved nodes h where
  kept : ∀ e ∈ h.edges, h.inputFifo e.dst = .edge e.key
  positive : ∀ io, 0 < (h.ioSamples nodes io).cycleTotal
  delay_nonneg : ∀ e ∈ h.edges, 0 ≤ e.delayValue
  duplicateType : ∀ e ∈ h.edges, ∀ d, e.dst = .duplicate d →
    h.outputType nodes.toStreamingNodes e.src = h.inputType nodes.toStreamingNodes e.dst

section Graph

variable {nodes : SchedulableNodes N O I} {h : ConnectedGraph N O I F}

/-- `FIFODesc.theType.bytes`, the size of the samples which the source of an edge writes. -/
def edgeBytes (h : ConnectedGraph N O I F) (nodes : SchedulableNodes N O I) (size : SampleBytes)
    (e : FIFOEdge O I F) : ℕ :=
  ((h.outputType nodes.toStreamingNodes e.src).map size.bytes).getD 0

/-- The edge of the input of a `Duplicate`. -/
def duplicateEdge? (h : ConnectedGraph N O I F) : GraphNode N → Option (Fin h.edges.length)
  | .duplicate d => h.fifoEdge? (h.inputFifo (.duplicate d))
  | .node _ => none

namespace Plain

variable (plain : Plain nodes h) {node : GraphNode N} {input : Fin h.edges.length}

include plain

theorem fifoEdge?_dst (e : Fin h.edges.length) :
    h.fifoEdge? (h.inputFifo (h.edges.get e).dst) = some e := by
  rw [plain.kept _ (List.get_mem _ e), fifoEdge?, edgeIndex?_eq_some_iff plain.keys]

/-- The edge of a `Duplicate` goes to its input. -/
theorem dst_duplicateEdge? (nodeMem : node ∈ h.nodes)
    (isInput : h.duplicateEdge? node = some input) :
    ∃ d, node = .duplicate d ∧ (h.edges.get input).dst = .duplicate d := by
  cases node with
  | node n => cases isInput
  | duplicate d =>
      have inGraph : GraphPort.input (.duplicate d) ∈ h.ios nodes :=
        mem_ios.mpr ⟨nodeMem, input_mem_iosOf.mpr (mem_inputsOf.mpr rfl)⟩
      rcases plain.end_of_fifoEdge? inGraph isInput with isSrc | isDst
      · cases isSrc
      · exact ⟨d, rfl, (GraphPort.input.inj isDst).symm⟩

/-- No other edge enters a `Duplicate`. -/
theorem inputOwner_dst_iff (nodeMem : node ∈ h.nodes)
    (isInput : h.duplicateEdge? node = some input) (e : Fin h.edges.length) :
    inputOwner nodes.toStreamingNodes (h.edges.get e).dst = node ↔ e = input := by
  rcases plain.dst_duplicateEdge? nodeMem isInput with ⟨d, rfl, inputDst⟩
  constructor
  · intro owner
    have dst : (h.edges.get e).dst = .duplicate d := by
      cases isDst : (h.edges.get e).dst with
      | input b =>
          rw [isDst] at owner
          cases owner
      | duplicate d' =>
          rw [isDst] at owner
          exact congrArg GraphInput.duplicate (GraphNode.duplicate.inj owner)
    have isEdge := plain.fifoEdge?_dst e
    rw [dst, ← inputDst, plain.fifoEdge?_dst] at isEdge
    exact (Option.some.inj isEdge).symm
  · rintro rfl
    rw [inputDst]
    rfl

/-- The outputs of a `Duplicate` have the rate and the size of its input. -/
theorem duplicateOutput (nodeMem : node ∈ h.nodes)
    (isInput : h.duplicateEdge? node = some input) (e : Fin h.edges.length)
    (owner : outputOwner nodes.toStreamingNodes (h.edges.get e).src = node) (size : SampleBytes) :
    h.ioSamples nodes (.output (h.edges.get e).src) =
        h.ioSamples nodes (.input (h.edges.get input).dst) ∧
      h.edgeBytes nodes size (h.edges.get e) = h.edgeBytes nodes size (h.edges.get input) := by
  rcases plain.dst_duplicateEdge? nodeMem isInput with ⟨d, rfl, inputDst⟩
  have theType := plain.duplicateType _ (List.get_mem _ input) d inputDst
  rw [edgeBytes, edgeBytes, theType, inputDst]
  cases isSrc : (h.edges.get e).src with
  | output a =>
      rw [isSrc] at owner
      cases owner
  | duplicate d' i =>
      rw [isSrc] at owner
      obtain rfl := GraphNode.duplicate.inj owner
      refine ⟨rfl, ?_⟩
      cases isDup : h.duplicates[d']? with
      | none => simp [outputType, inputType, isDup]
      | some dup => simp [outputType, inputType, isDup, size.bytes_share]

end Plain

variable [DecidableEq N]

/-- The IOs and edges, with what the synchronous scheduler reads of them. -/
def plainGraph (h : ConnectedGraph N O I F) (plain : Plain nodes h) (size : SampleBytes) :
    PlainGraph where
  toPortGraph := h.portGraph plain.toResolved
  delay e := (h.edges.get e).delayValue.toNat
  bytes e := h.edgeBytes nodes size (h.edges.get e)
  customBuffer e := (h.edges.get e).customBuffer
  duplicateInput node := h.duplicateEdge? ((h.sortedNodes nodes).get node)
  positive io := plain.positive _
  src_of_isOutput io isOutput := by
    have nodup : (h.ios nodes).Nodup := ios_nodup plain.nodesNodup
    change (match (h.ios nodes).get io with
      | .output _ => true
      | .input _ => false) = true at isOutput
    cases port : (h.ios nodes).get io with
    | input b =>
        rw [port] at isOutput
        cases isOutput
    | output a =>
        rcases plain.outputEdge a (port ▸ List.get_mem _ io) with ⟨e, eMem, rfl⟩
        rcases List.get_of_mem eMem with ⟨i, rfl⟩
        exact ⟨i, (indexIn_eq_iff nodup (plain.source _ eMem) io).mpr port⟩
  fifo_dst e := (portGraph_fifo_dst plain.toResolved e).mpr (plain.kept _ (List.get_mem _ e))
  duplicateInput_iff node input isInput e := by
    have nodup : (h.sortedNodes nodes).Nodup := sortedNodes_nodup plain.nodesNodup
    refine Iff.trans ?_ (plain.inputOwner_dst_iff (mem_sortedNodes.mp (List.get_mem _ node))
      isInput e)
    rw [← (portGraph_ends plain.toResolved e).2]
    exact nodup.get_inj_iff.symm
  duplicateOutput node input isInput e owner := by
    have nodeMem := mem_sortedNodes.mp (List.get_mem (h.sortedNodes nodes) node)
    have src := (portGraph_ends plain.toResolved e).1
    have same := plain.duplicateOutput nodeMem isInput e (src.symm.trans (by rw [owner])) size
    refine ⟨(congrArg (h.ioSamples nodes) (portGraph_src plain.toResolved e)).trans
      (same.1.trans ?_), same.2⟩
    exact congrArg (h.ioSamples nodes) (portGraph_dst plain.toResolved input).symm

/-- The graph of the scheduler. -/
abbrev schedulerGraph (h : ConnectedGraph N O I F) (plain : Plain nodes h) (size : SampleBytes) :
    Graph :=
  (h.plainGraph plain size).graph

end Graph

/-! ### The graphs of the user -/

/-- What the synchronous scheduler expects of a graph of the user: no input has two edges, no
edge joins a node to itself, no delay is negative, and every IO transfers some samples. -/
structure Schedulable (nodes : SchedulableNodes N O I) (g : ConnectedGraph N O I F) : Prop where
  inputs : (g.edges.map FIFOEdge.dst).Nodup
  noLoop : ∀ e ∈ g.edges,
    outputOwner nodes.toStreamingNodes e.src ≠ inputOwner nodes.toStreamingNodes e.dst
  delay_nonneg : ∀ e ∈ g.edges, 0 ≤ e.delayValue
  nbSamples_pos : ∀ output, 0 < (nodes.nbSamples output).cycleTotal
  inputSamples_pos : ∀ input, 0 < (nodes.inputSamples input).cycleTotal

variable [DecidableEq N] {nodes : SchedulableNodes N O I}

section Inserted

variable {mode : SchedulingMode} {g h : ConnectedGraph N O I F}
  (connected : WellConnected nodes.toStreamingNodes g)
  (inserted : InsertedUpTo nodes.toStreamingNodes mode g (g.userOutputs nodes.toStreamingNodes) h)
  (schedulable : Schedulable nodes g)

include connected inserted schedulable in
omit [DecidableEq N] in
/-- No input has two edges after the insertion. -/
theorem edge_unique_inserted {e other : FIFOEdge O I F} (eMem : e ∈ h.edges)
    (otherMem : other ∈ h.edges) (sameDst : other.dst = e.dst) : other = e := by
  cases isDst : e.dst with
  | duplicate d =>
      exact dst_unique inserted connected otherMem eMem (.inl (sameDst.trans isDst)) (.inl isDst)
        sameDst
  | input b =>
      have atMost : (h.edgesInto (.input b)).length ≤ 1 := by
        rw [length_edgesInto, inserted.inputs]
        exact List.nodup_iff_count_le_one.mp schedulable.inputs _
      have mem : e ∈ h.edgesInto (.input b) := List.mem_filter.mpr ⟨eMem, by simp [isDst]⟩
      have mem' : other ∈ h.edgesInto (.input b) :=
        List.mem_filter.mpr ⟨otherMem, by simp [sameDst, isDst]⟩
      match into : h.edgesInto (.input b) with
      | [] =>
          rw [into] at mem
          cases mem
      | [only] =>
          rw [into, List.mem_singleton] at mem mem'
          exact mem'.trans mem.symm
      | _ :: _ :: _ =>
          rw [into, List.length_cons, List.length_cons] at atMost
          omega

include inserted schedulable in
omit [DecidableEq N] in
theorem delay_nonneg_inserted {e : FIFOEdge O I F} (eMem : e ∈ h.edges) : 0 ≤ e.delayValue := by
  rcases inserted.mem_edges.mp eMem with ⟨old, -⟩ | ⟨d, a, -, new⟩
  · exact schedulable.delay_nonneg e old
  · rcases mem_dupEdges.mp new with rfl | ⟨i, orig, isLeaving, rfl⟩
    · exact le_rfl
    · have nonneg := schedulable.delay_nonneg orig
        (mem_edgesFrom.mp (List.mem_of_getElem? isLeaving)).1
      unfold FIFOEdge.delayValue dupOutputEdge
      split_ifs
      · exact nonneg
      · exact le_rfl

include connected inserted schedulable in
omit [DecidableEq N] in
/-- No edge joins a node to itself after the insertion. -/
theorem noLoop_inserted {e : FIFOEdge O I F} (eMem : e ∈ h.edges) :
    outputOwner nodes.toStreamingNodes e.src ≠ inputOwner nodes.toStreamingNodes e.dst := by
  rcases inserted.mem_edges.mp eMem with ⟨old, -⟩ | ⟨d, a, -, new⟩
  · exact schedulable.noLoop e old
  · rcases mem_dupEdges.mp new with rfl | ⟨i, orig, isLeaving, rfl⟩
    · intro same
      cases same
    · rcases connected.destination orig
        (mem_edgesFrom.mp (List.mem_of_getElem? isLeaving)).1 with ⟨b, isInput⟩
      change GraphNode.duplicate d ≠ inputOwner nodes.toStreamingNodes orig.dst
      rw [isInput]
      intro same
      cases same

include connected inserted schedulable in
omit [DecidableEq N] in
theorem plain_inserted : Plain nodes h where
  toResolved := resolved_inserted connected inserted
  kept e eMem := inserted.seenInput e eMem (src_seen inserted connected eMem)
    fun _ otherMem => edge_unique_inserted connected inserted schedulable eMem otherMem
  positive := ioSamples_inserted inserted (P := fun nbSamples => 0 < nbSamples.cycleTotal)
    Nat.one_pos schedulable.nbSamples_pos schedulable.inputSamples_pos
  delay_nonneg _ := delay_nonneg_inserted inserted schedulable
  duplicateType e eMem d isDst := by
    rcases mem_dupEdges_of_duplicate inserted connected eMem (.inl isDst) with ⟨a, found, mem⟩
    rcases mem_dupEdges.mp mem with rfl | ⟨i, orig, isLeaving, rfl⟩
    · change some (nodes.outputType a) = (h.duplicates[d]?).map Duplicate.theType
      rw [(duplicate_of_split inserted found).2]
      rfl
    · exact absurd isDst (connected.dst_ne_duplicate
        (mem_edgesFrom.mp (List.mem_of_getElem? isLeaving)).1 d)

end Inserted

section Pipeline

variable {mode : SchedulingMode} {g h : ConnectedGraph N O I F} {defaultFIFOClass : F}
  {steps : List (BuildStep O I F)}
  (built : BuildStep.build nodes.toStreamingNodes defaultFIFOClass steps = .ok g)
  (ok : g.insertDuplicates nodes.toStreamingNodes mode = .ok h)
  (schedulable : Schedulable nodes g)

include built ok schedulable

/-- The graph after the insertion of the duplicate nodes is one of the scheduler. -/
theorem insertDuplicates_plain : Plain nodes h :=
  have accepted := InsertedUpTo.of_ok built ok
  plain_inserted accepted.1 accepted.2 schedulable

theorem schedulerGraph_noLoop (plain : Plain nodes h) (size : SampleBytes) :
    (h.schedulerGraph plain size).NoLoop := by
  have accepted := InsertedUpTo.of_ok built ok
  intro e same
  apply noLoop_inserted accepted.1 accepted.2 schedulable (List.get_mem h.edges e)
  rw [← (portGraph_ends plain.toResolved e).1, ← (portGraph_ends plain.toResolved e).2]
  exact congrArg (h.sortedNodes nodes).get same

/-- The graph of the user, from its connections to its schedule.  The schedule solves the
equations of the matrix of the IOs.  Executed any number of times on the IOs, it never reads
samples which are not there, never leaves more samples on an edge than the maximum which was
recorded, and ends with the delays on the edges and the IOs at the start of their cycles. -/
theorem connected_schedule (plain : Plain nodes h) (size : SampleBytes) {nullspace : Nullspace}
    (sound : nullspace.Sound) {score : Score (h.schedulerGraph plain size)}
    {coloring : Coloring (h.schedulerGraph plain size)} {config : Configuration}
    {result : Schedule (h.schedulerGraph plain size)}
    (computed : computeSchedule nullspace score coloring config = .ok result) :
    (∀ e, ∑ node, (h.plainGraph plain size).topologyMatrix e node * result.initN node = 0) ∧
    (∀ iterations before,
      before <+: (List.replicate iterations result.schedule).flatten → ∀ e,
        0 ≤ ((h.plainGraph plain size).fireAll before).b e ∧
        ((h.plainGraph plain size).fireAll before).b e ≤ result.bMax e) ∧
    ∀ iterations, (h.plainGraph plain size).fireAll
      (List.replicate iterations result.schedule).flatten = (h.plainGraph plain size).start := by
  have noLoop := schedulerGraph_noLoop built ok schedulable plain size
  obtain ⟨solved, period, -⟩ := computeSchedule_ok noLoop computed
  have balanced := nullVector_balanced (sound _ _ _) solved
  refine ⟨?_, ?_, ?_⟩
  · intro e
    have row := balanced e
    simpa only [PlainGraph.topologyMatrix_graph] using row
  · intro iterations before isPrefix e
    rw [PlainGraph.fireAll_b noLoop]
    obtain ⟨low, high⟩ := period.repeats noLoop balanced iterations before isPrefix e
    exact ⟨low, WithTop.coe_le_coe.mp high⟩
  · intro iterations
    refine PlainGraph.fireAll_eq_start noLoop (period.level_after noLoop balanced iterations) ?_
    intro node
    rw [← PlainGraph.cyclePeriod_graph, Dataflow.Net.counts_flatten_replicate]
    have executed : Dataflow.counts result.schedule node =
        (h.schedulerGraph plain size).repetitions result.initN node :=
      congrFun period.executed node
    rw [Pi.smul_apply, executed, Graph.repetitions, smul_eq_mul]
    exact (Dvd.intro_left _ rfl).mul_left iterations

end Pipeline

end ConnectedGraph

end CmsisStream.Scheduler
