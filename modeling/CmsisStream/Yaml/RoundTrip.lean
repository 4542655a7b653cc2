import CmsisStream.Yaml.EdgeRoundTrip

/-!
# Export and import

A graph which was built by the user and whose nodes, types and classes have names that can be read
comes back from its description: the same nodes, joined by the same edges in the same order.  And a
graph which is imported, from any description, could have been built by the user.
-/

namespace CmsisStream.Yaml

variable {ι : Type} [DecidableEq ι]

/-- The nodes at the ends of the edges, without the constants. -/
def Graph.nodeList (g : Graph ι) : List Node :=
  g.allNodes.filterMap (Sum.elim (fun _ => none) fun i => some (g.node i))

/-- A graph which comes back from its description: no constant is connected, the nodes have
different identifiers and are made again, the types and the classes are found by their names, and
so are the IOs at the ends of the edges. -/
structure Graph.Kept (strToClass : String → Option FIFOClass) (counters : NodeIDs)
    (g : Graph ι) : Prop where
  noConstant : g.constantEdges = []
  types : TypesKept (g.allNodes.flatMap g.types)
  nodes : NodesKept counters g.nodeList
  ids : (g.nodeList.map Node.nodeID).Nodup
  edges : ∀ e ∈ g.edges, e.Kept strToClass
  ends : ∀ e ∈ g.edges, (g.node e.src.node).Separate e.src.isInput e.src.name ∧
    (g.node e.dst.node).Separate e.dst.isInput e.dst.name
  defaultClass : ClassKept strToClass g.defaultFIFOClass

/-- What is read is the graph which was written. -/
structure Graph.SameAs (g : Graph ι) (read : Graph String) : Prop where
  node : ∀ i, Sum.inr i ∈ g.allNodes → read.node (g.node i).nodeID = g.node i
  constantEdges : read.constantEdges = []
  edges : read.edges = g.edges.map g.importedEdge
  defaultFIFOClass : read.defaultFIFOClass = g.defaultFIFOClass
  duplicateNodeClassName : read.duplicateNodeClassName = g.duplicateNodeClassName

section Nodes

variable {strToClass : String → Option FIFOClass} {counters : NodeIDs} {g : Graph ι}

/-- The ends of the edges are in `allNodes`. -/
theorem Graph.mem_allNodes {e : Edge ι} (mem : e ∈ g.edges) :
    Sum.inr e.src.node ∈ g.allNodes ∧ Sum.inr e.dst.node ∈ g.allNodes := by
  have ends : ∀ i, i ∈ ([Sum.inr e.src.node, Sum.inr e.dst.node] : List (Constant ⊕ ι)) →
      i ∈ g.allNodes := by
    intro i isEnd
    refine mem_foldl_addNew.mpr (Or.inr (List.mem_append_right _ ?_))
    exact List.mem_flatMap.mpr ⟨e, mem, isEnd⟩
  exact ⟨ends _ (by simp), ends _ (by simp)⟩

theorem Graph.mem_nodeList {i : ι} (mem : Sum.inr i ∈ g.allNodes) : g.node i ∈ g.nodeList :=
  List.mem_filterMap.mpr ⟨Sum.inr i, mem, rfl⟩

/-- Without constants, all the nodes are nodes of the graph. -/
theorem Graph.isNode_of_mem (noConstant : g.constantEdges = []) {n : Constant ⊕ ι}
    (mem : n ∈ g.allNodes) : ∃ i, n = Sum.inr i := by
  rcases mem_foldl_addNew.mp mem with nothing | isEnd
  · cases nothing
  · rw [endNodes, noConstant, List.flatMap_nil, List.nil_append] at isEnd
    rcases List.mem_flatMap.mp isEnd with ⟨e, -, isEnd⟩
    simp only [List.mem_cons, List.not_mem_nil, or_false] at isEnd
    rcases isEnd with rfl | rfl
    · exact ⟨_, rfl⟩
    · exact ⟨_, rfl⟩

theorem Graph.map_yamlNode (noConstant : g.constantEdges = []) :
    g.allNodes.map g.yamlNode = g.nodeList.map Yaml.yamlNode := by
  have all : ∀ l : List (Constant ⊕ ι), (∀ n ∈ l, ∃ i, n = Sum.inr i) →
      l.map g.yamlNode = (l.filterMap
        (Sum.elim (fun _ => none) fun i => some (g.node i))).map Yaml.yamlNode := by
    intro l isNode
    induction l with
    | nil => rfl
    | cons n l ih =>
        rcases isNode n (by simp) with ⟨i, rfl⟩
        rw [List.map_cons, ih fun other mem => isNode other (List.mem_cons_of_mem _ mem)]
        rfl
  exact all _ fun n mem => g.isNode_of_mem noConstant mem

/-- Two nodes of the graph have different identifiers. -/
theorem Graph.nodeID_injective (ids : (g.nodeList.map Node.nodeID).Nodup) {i j : ι}
    (iMem : Sum.inr i ∈ g.allNodes) (jMem : Sum.inr j ∈ g.allNodes)
    (same : (g.node i).nodeID = (g.node j).nodeID) : i = j := by
  have all : ∀ l : List (Constant ⊕ ι), Sum.inr i ∈ l → Sum.inr j ∈ l →
      ((l.filterMap (Sum.elim (fun _ => none) fun i => some (g.node i))).map
        Node.nodeID).Nodup → i = j := by
    intro l iMem jMem nodup
    induction l with
    | nil => cases iMem
    | cons n l ih =>
        have later : ∀ k, Sum.inr k ∈ l → (g.node k).nodeID ∈
            (l.filterMap (Sum.elim (fun _ => none) fun i => some (g.node i))).map Node.nodeID :=
          fun k mem => List.mem_map_of_mem (List.mem_filterMap.mpr ⟨Sum.inr k, mem, rfl⟩)
        rcases List.mem_cons.mp iMem with rfl | iLater
        · rcases List.mem_cons.mp jMem with eq | jLater
          · exact (Sum.inr.inj eq).symm
          · exact absurd (same ▸ later j jLater) (List.nodup_cons.mp nodup).1
        · rcases List.mem_cons.mp jMem with rfl | jLater
          · exact absurd (same ▸ later i iLater) (List.nodup_cons.mp nodup).1
          · cases n with
            | inl constant => exact ih iLater jLater nodup
            | inr k => exact ih iLater jLater (List.nodup_cons.mp nodup).2
  exact all _ iMem jMem ids

theorem Graph.named_injective (ids : (g.nodeList.map Node.nodeID).Nodup) {a b : EdgeEnd ι}
    (aMem : Sum.inr a.node ∈ g.allNodes) (bMem : Sum.inr b.node ∈ g.allNodes)
    (same : g.named a = g.named b) : a = b := by
  rcases a with ⟨i, isInput, name⟩
  rcases b with ⟨j, isInput', name'⟩
  simp only [named, EdgeEnd.mk.injEq] at same
  rcases same with ⟨sameID, rfl, rfl⟩
  have sameNode : i = j := nodeID_injective ids aMem bMem sameID
  rw [sameNode]

/-- The edges which are connected again are different. -/
theorem Graph.nodup_importedEdge (wellFormed : g.WellFormed)
    (ids : (g.nodeList.map Node.nodeID).Nodup) :
    (g.edges.map fun e => (g.importedEdge e).key).Nodup := by
  have isMap : (g.edges.map fun e => (g.importedEdge e).key) =
      (g.edges.map Edge.key).map fun key => (g.named key.1, g.named key.2) := by
    rw [List.map_map]
    rfl
  rw [isMap]
  refine List.Nodup.map_on ?_ wellFormed.keys
  intro key mem key' mem' same
  rcases List.mem_map.mp mem with ⟨e, eMem, rfl⟩
  rcases List.mem_map.mp mem' with ⟨e', eMem', rfl⟩
  rcases mem_allNodes eMem with ⟨srcMem, dstMem⟩
  rcases mem_allNodes eMem' with ⟨srcMem', dstMem'⟩
  rcases Prod.mk.inj same with ⟨src, dst⟩
  exact Prod.ext (named_injective ids srcMem srcMem' src) (named_injective ids dstMem dstMem' dst)

end Nodes

section Export

variable {strToClass : String → Option FIFOClass} {counters : NodeIDs} {g : Graph ι}

/-- The description of a graph whose classes have names. -/
def Graph.desc (g : Graph ι) : GraphDesc where
  optionsFIFO := Graph.className g.defaultFIFOClass
  optionsDuplicate :=
    if g.duplicateNodeClassName = "Duplicate" then none else some g.duplicateNodeClassName
  customTypes := (g.allNodes.flatMap g.types).foldl createYAMLType []
  nodes := g.allNodes.map g.yamlNode
  edges := g.edges.map g.edgeDesc

theorem exportGraph_eq (joins : ∀ e ∈ g.edges, g.Joins e) (noConstant : g.constantEdges = [])
    (classes : ∀ e ∈ g.edges, ClassKept strToClass e.fifoClass)
    (defaultClass : ClassKept strToClass g.defaultFIFOClass) : exportGraph g = .ok g.desc := by
  have edges : g.edges.mapM (yamlEdge g) = .ok (g.edges.map g.edgeDesc) := by
    have all : ∀ l : List (Edge ι), (∀ e ∈ l, e ∈ g.edges) →
        l.mapM (yamlEdge g) = .ok (l.map g.edgeDesc) := by
      intro l within
      induction l with
      | nil => rfl
      | cons e l ih =>
          have mem := within e (by simp)
          rw [List.mapM_cons, yamlEdge_eq (classes e mem).written, (joins e mem).writtenDesc,
            ih fun other later => within other (List.mem_cons_of_mem _ later)]
          rfl
    exact all g.edges fun _ mem => mem
  have fifo : optionsFIFO g.defaultFIFOClass = .ok (Graph.className g.defaultFIFOClass) := by
    cases isDefault : g.defaultFIFOClass with
    | streamFIFO => rfl
    | user object name => rfl
    | str s =>
        rw [isDefault] at defaultClass
        exact defaultClass.elim
  simp only [exportGraph, edges, fifo, noConstant, List.map_nil, List.nil_append, bind,
    Except.bind, pure, Except.pure]
  rfl

/-- The description is read, and gives the graph which was written. -/
theorem importGraph_desc (wellFormed : g.WellFormed) (kept : g.Kept strToClass counters) :
    ∃ read, importGraph strToClass counters g.desc = .ok read ∧ g.SameAs read := by
  rcases kept.types.read with ⟨cstruct, readTypes, types⟩
  have nodeTypes : ∀ n ∈ g.nodeList, ∀ t ∈ n.types, dataType cstruct t.ctype = .ok t := by
    intro n mem t isType
    rcases List.mem_filterMap.mp mem with ⟨constant | i, iMem, eq⟩
    · cases eq
    · cases eq
      exact types t (List.mem_flatMap.mpr ⟨Sum.inr i, iMem, isType⟩)
  rcases foldlM_importNode kept.nodes nodeTypes kept.ids fun _ => none with ⟨s, readNodes, found, -⟩
  rcases kept.defaultClass.read .streamFIFO with ⟨fifo, readFIFO, sameFIFO⟩
  have sameDefault : fifo.getD .streamFIFO = g.defaultFIFOClass := by
    rw [sameFIFO]
    split_ifs with isStream
    · exact isStream.symm
    · rfl
  have readDuplicate : (g.desc.optionsDuplicate.getD "Duplicate") = g.duplicateNodeClassName := by
    by_cases isDuplicate : g.duplicateNodeClassName = "Duplicate"
    · simp [Graph.desc, isDuplicate]
    · simp [Graph.desc, isDuplicate]
  let start : Graph String := { Graph.empty s.node with
    defaultFIFOClass := fifo.getD .streamFIFO
    duplicateNodeClassName := g.desc.optionsDuplicate.getD "Duplicate" }
  have isNode : ∀ i, Sum.inr i ∈ g.allNodes →
      s.nodes (g.node i).nodeID = some (.node (g.node i)) ∧
        start.node (g.node i).nodeID = g.node i := by
    intro i mem
    have isFound := found (g.node i) (Graph.mem_nodeList mem)
    refine ⟨isFound, ?_⟩
    change s.node (g.node i).nodeID = g.node i
    rw [ImportState.node, isFound]
  have finds : ∀ e ∈ g.edges,
      g.Finds s.nodes start e.src ∧ g.Finds s.nodes start e.dst := by
    intro e mem
    rcases Graph.mem_allNodes mem with ⟨srcMem, dstMem⟩
    rcases kept.ends e mem with ⟨srcSeparate, dstSeparate⟩
    rcases isNode _ srcMem with ⟨srcFound, srcNode⟩
    rcases isNode _ dstMem with ⟨dstFound, dstNode⟩
    exact ⟨⟨srcFound, srcNode, srcSeparate⟩, dstFound, dstNode, dstSeparate⟩
  have keys : (start.edges.map Edge.key ++
      g.edges.map fun e => (g.importedEdge e).key).Nodup := by
    exact Graph.nodup_importedEdge wellFormed kept.ids
  have readEdges := foldlM_importEdge g.edges wellFormed.joins kept.edges finds sameDefault keys
  refine ⟨{ start with edges := start.edges ++ g.edges.map g.importedEdge }, ?_,
    ⟨fun i mem => (isNode i mem).2, rfl, rfl, sameDefault, readDuplicate⟩⟩
  have readNodes' : (g.desc.nodes).foldlM (importNode cstruct) ⟨fun _ => none, counters⟩ =
      .ok s := by
    rw [← readNodes]
    exact congrArg (List.foldlM _ _) (Graph.map_yamlNode kept.noConstant)
  have readTypes' : g.desc.customTypes.foldlM importType [] = .ok cstruct := readTypes
  have readFIFO' : g.desc.optionsFIFO.mapM (getClassName strToClass) = .ok fifo := readFIFO
  simp only [importGraph, readFIFO', readTypes', readNodes', bind, Except.bind]
  exact readEdges

/-! ### The description of the graph which is read -/

theorem foldl_addNew_map {α β : Type} [DecidableEq α] [DecidableEq β] (f : α → β)
    {l new : List α} (injective : ∀ x ∈ l ++ new, ∀ y ∈ l ++ new, f x = f y → x = y) :
    (new.map f).foldl addNew (l.map f) = (new.foldl addNew l).map f := by
  induction new generalizing l with
  | nil => rfl
  | cons x new ih =>
      have isOld : f x ∈ l.map f ↔ x ∈ l := by
        refine ⟨fun mem => ?_, List.mem_map_of_mem⟩
        rcases List.mem_map.mp mem with ⟨y, yMem, same⟩
        have eq := injective y (by simp [yMem]) x (by simp) same
        exact eq ▸ yMem
      have step : addNew (l.map f) (f x) = (addNew l x).map f := by
        simp only [addNew, isOld]
        split_ifs
        · rfl
        · simp
      rw [List.map_cons, List.foldl_cons, step, List.foldl_cons]
      apply ih
      intro y yMem z zMem same
      apply injective y _ z _ same
      · simp only [List.mem_append, mem_addNew, List.mem_cons] at yMem ⊢
        tauto
      · simp only [List.mem_append, mem_addNew, List.mem_cons] at zMem ⊢
        tauto

/-- The identifier of a node of the graph. -/
def Graph.nodeKey (g : Graph ι) : Constant ⊕ ι → Constant ⊕ String :=
  Sum.map id fun i => (g.node i).nodeID

theorem Graph.SameAs.allNodes {read : Graph String} (same : g.SameAs read)
    (kept : g.Kept strToClass counters) : read.allNodes = g.allNodes.map g.nodeKey := by
  have ends : read.endNodes = g.endNodes.map g.nodeKey := by
    simp only [Graph.endNodes, same.constantEdges, kept.noConstant, same.edges, List.flatMap_nil,
      List.nil_append, List.flatMap_map, List.map_flatMap]
    rfl
  rw [Graph.allNodes, ends]
  refine foldl_addNew_map g.nodeKey (l := []) ?_
  intro x xMem y yMem eq
  have xAll : x ∈ g.allNodes := mem_foldl_addNew.mpr (Or.inr xMem)
  have yAll : y ∈ g.allNodes := mem_foldl_addNew.mpr (Or.inr yMem)
  rcases g.isNode_of_mem kept.noConstant xAll with ⟨i, rfl⟩
  rcases g.isNode_of_mem kept.noConstant yAll with ⟨j, rfl⟩
  have sameID : (g.node i).nodeID = (g.node j).nodeID := Sum.inr.inj eq
  rw [Graph.nodeID_injective kept.ids xAll yAll sameID]

/-- The IOs of the graph which is read. -/
theorem Graph.SameAs.io {read : Graph String} (same : g.SameAs read) {e : EdgeEnd ι}
    (mem : Sum.inr e.node ∈ g.allNodes) : read.io (g.named e) = g.io e := by
  rw [Graph.io, Graph.named, same.node e.node mem]
  rfl

/-- The description of an edge which is connected again, whose class is written or the default. -/
theorem Graph.SameAs.edgeDesc {read : Graph String} (same : g.SameAs read) {e : Edge ι}
    (mem : e ∈ g.edges)
    (isDefault : e.fifoClass = .streamFIFO → g.defaultFIFOClass = .streamFIFO) :
    read.edgeDesc (g.importedEdge e) = g.edgeDesc e := by
  rcases Graph.mem_allNodes mem with ⟨srcMem, dstMem⟩
  have sameClass : (g.importedEdge e).fifoClass = e.fifoClass := by
    simp only [Graph.importedEdge]
    split_ifs with isStream
    · exact (isDefault isStream).trans isStream.symm
    · rfl
  have sameScale : (if (g.importedEdge e).fifoScale = 0 ∨ (g.importedEdge e).fifoScale = 1 then
      none else some (g.importedEdge e).fifoScale) =
        if e.fifoScale = 0 ∨ e.fifoScale = 1 then none else some e.fifoScale := by
    simp only [Graph.importedEdge]
    by_cases zero : e.fifoScale = 0
    · simp [zero]
    · simp [zero]
  have srcNode : read.node (g.importedEdge e).src.node = g.node e.src.node := same.node _ srcMem
  have dstNode : read.node (g.importedEdge e).dst.node = g.node e.dst.node := same.node _ dstMem
  simp only [Graph.edgeDesc, sameClass, sameScale, srcNode, dstNode]
  simp [Graph.importedEdge, Graph.named, Option.filter_filter]

theorem Graph.Kept.exportGraph (wellFormed : g.WellFormed) (kept : g.Kept strToClass counters) :
    exportGraph g = .ok g.desc :=
  exportGraph_eq wellFormed.joins kept.noConstant (fun e mem => (kept.edges e mem).fifoClass)
    kept.defaultClass

/-- The graph which is read has the description which was written. -/
theorem Graph.SameAs.exportGraph {read : Graph String} (same : g.SameAs read)
    (wellFormed : g.WellFormed) (kept : g.Kept strToClass counters)
    (isDefault : ∀ e ∈ g.edges, e.fifoClass = .streamFIFO → g.defaultFIFOClass = .streamFIFO) :
    exportGraph read = .ok g.desc := by
  have classes : ∀ e ∈ read.edges, ClassKept strToClass e.fifoClass := by
    rw [same.edges]
    intro e mem
    rcases List.mem_map.mp mem with ⟨old, oldMem, rfl⟩
    simp only [importedEdge]
    split_ifs
    · exact kept.defaultClass
    · exact (kept.edges old oldMem).fifoClass
  have joins : ∀ e ∈ read.edges, read.Joins e := by
    rw [same.edges]
    intro e mem
    rcases List.mem_map.mp mem with ⟨old, oldMem, rfl⟩
    rcases mem_allNodes oldMem with ⟨srcMem, dstMem⟩
    rcases wellFormed.joins old oldMem with ⟨src, dst, isSrc, isDst, types, conflict, recorded⟩
    exact ⟨src, dst, (same.io srcMem).trans isSrc, (same.io dstMem).trans isDst, types, conflict,
      recorded⟩
  have defaultClass : ClassKept strToClass read.defaultFIFOClass := by
    rw [same.defaultFIFOClass]
    exact kept.defaultClass
  have perNode : ∀ n ∈ g.allNodes, read.yamlNode (g.nodeKey n) = g.yamlNode n ∧
      read.types (g.nodeKey n) = g.types n := by
    intro n mem
    rcases g.isNode_of_mem kept.noConstant mem with ⟨i, rfl⟩
    have node := same.node i mem
    exact ⟨congrArg Yaml.yamlNode node, congrArg Node.types node⟩
  have nodes : read.allNodes.map read.yamlNode = g.allNodes.map g.yamlNode := by
    rw [same.allNodes kept, List.map_map]
    exact List.map_congr_left fun n mem => (perNode n mem).1
  have types : read.allNodes.flatMap read.types = g.allNodes.flatMap g.types := by
    rw [same.allNodes kept, List.flatMap_map]
    exact List.flatMap_congr fun n mem => (perNode n mem).2
  have edges : read.edges.map read.edgeDesc = g.edges.map g.edgeDesc := by
    rw [same.edges, List.map_map]
    exact List.map_congr_left fun e mem => same.edgeDesc mem (isDefault e mem)
  rw [exportGraph_eq joins same.constantEdges classes defaultClass]
  simp only [Graph.desc, same.defaultFIFOClass, same.duplicateNodeClassName, nodes, types, edges]

/-- A source of structures with an argument. -/
def pixelSource : Node where
  nodeID := "source"
  kind := .cpp "Source" true
  inputs := .each []
  outputs := .each [⟨"o", .cStructType "pixel" 3, .int 4, none⟩]
  schedArgs := [.argLiteral (.int 7)]

/-- A sink of structures. -/
def pixelSink : Node where
  nodeID := "sink"
  kind := .cpp "Sink" false
  inputs := .each [⟨"i", .cStructType "pixel" 3, .int 2, none⟩]
  outputs := .each []
  schedArgs := []

/-- The edge between them, with a delay and a buffer. -/
def pixelEdge : Edge Bool where
  src := ⟨true, false, "o"⟩
  dst := ⟨false, true, "i"⟩
  fifoClass := .streamFIFO
  fifoScale := 1
  fifoAsyncLength := some 0
  weak := false
  delay := some 8
  customBuffer := some ⟨some "pixels", true, false, true⟩
  inherited := false

def pixelGraph : Graph Bool where
  node isSource := if isSource then pixelSource else pixelSink
  constantEdges := []
  edges := [pixelEdge]
  defaultFIFOClass := .streamFIFO
  duplicateNodeClassName := "Duplicate"

theorem pixelGraph_built : pixelGraph.Built := by
  refine ⟨[.connectWithDelay ⟨true, false, "o"⟩ ⟨false, true, "i"⟩ 8
    ⟨none, 1, some 0, false, some "pixels", true⟩], ?_⟩
  rfl

theorem pixelGraph_kept : pixelGraph.Kept (fun _ => none) fun _ => 1 := by
  have nodes : pixelGraph.nodeList = [pixelSource, pixelSink] := rfl
  have types : (pixelGraph.allNodes.flatMap pixelGraph.types).flatMap SampleType.described =
      [.cStructType "pixel" 3, .cStructType "pixel" 3] := rfl
  have isPixel : ∀ name bytes, SampleType.cStructType name bytes ∈
      [.cStructType "pixel" 3, .cStructType "pixel" 3] → name = "pixel" := by
    intro name bytes mem
    simp only [List.mem_cons, SampleType.cStructType.injEq, List.not_mem_nil, or_false,
      or_self] at mem
    exact mem.1
  refine ⟨rfl, ⟨?_, ?_, ?_, ?_, ?_⟩, ?_, ?_, ?_, ?_, ?_⟩
  · intro name bytes mem t
    rw [isPixel name bytes mem]
    cases t <;> decide
  · rw [types]
    intro name bytes mem
    rw [isPixel name bytes mem]
    decide
  · rw [types]
    simp
  · rw [types]
    simp
  · rw [types]
    simp
  · rw [nodes]
    have noPort : (Ports.each []).Kept := .of_unconstrained (by simp) (by decide)
    have onePort : ∀ name length,
        (Ports.each [⟨name, .cStructType "pixel" 3, length, none⟩]).Kept :=
      fun _ _ => .of_unconstrained (by simp) (List.nodup_singleton _)
    refine ⟨⟨noPort, onePort _ _, ?_, rfl, ?_⟩, ⟨onePort _ _, noPort, ?_, rfl, ?_⟩, trivial⟩
    · rintro io - - other ⟨⟩
    · refine ⟨fun _ => ⟨_, _, rfl⟩, ?_⟩
      rintro ⟨⟩
    · rintro io ⟨⟩
    · refine ⟨?_, fun _ => ⟨_, _, rfl⟩⟩
      rintro ⟨⟩
  · rw [nodes]
    decide
  · intro e mem
    cases List.mem_singleton.mp mem
    refine ⟨trivial, fun _ c isConstraint => ?_⟩
    cases isConstraint
    exact ⟨"pixels", rfl, by decide⟩
  · intro e mem
    cases List.mem_singleton.mp mem
    refine ⟨fun _ => ?_, ?_⟩
    · rintro other ⟨⟩
    · rintro ⟨⟩
  · exact trivial

/-- Export and import.  A graph of the user whose names can be read comes back from its
description. -/
theorem importGraph_exportGraph (built : g.Built) (kept : g.Kept strToClass counters) :
    ∃ desc read, exportGraph g = .ok desc ∧ importGraph strToClass counters desc = .ok read ∧
      g.SameAs read := by
  have wellFormed := built.wellFormed
  rcases importGraph_desc wellFormed kept with ⟨read, isRead, same⟩
  exact ⟨g.desc, read, kept.exportGraph wellFormed, isRead, same⟩

theorem pixelGraph_read : ∃ desc read, exportGraph pixelGraph = .ok desc ∧
    importGraph (fun _ => none) (fun _ => 1) desc = .ok read ∧ pixelGraph.SameAs read :=
  importGraph_exportGraph pixelGraph_built pixelGraph_kept

/-- Import and export.  The description which was read is the one of the graph which it gives, when
no edge has the class `StreamFIFO` in a graph which has another class by default. -/
theorem exportGraph_importGraph (built : g.Built) (kept : g.Kept strToClass counters)
    (isDefault : ∀ e ∈ g.edges, e.fifoClass = .streamFIFO → g.defaultFIFOClass = .streamFIFO) :
    ∃ desc read, exportGraph g = .ok desc ∧ importGraph strToClass counters desc = .ok read ∧
      exportGraph read = .ok desc := by
  have wellFormed := built.wellFormed
  rcases importGraph_desc wellFormed kept with ⟨read, isRead, same⟩
  exact ⟨g.desc, read, kept.exportGraph wellFormed, isRead,
    same.exportGraph wellFormed kept isDefault⟩

theorem pixelGraph_writtenAgain : ∃ desc read, exportGraph pixelGraph = .ok desc ∧
    importGraph (fun _ => none) (fun _ => 1) desc = .ok read ∧ exportGraph read = .ok desc :=
  exportGraph_importGraph pixelGraph_built pixelGraph_kept fun _ _ _ => rfl

end Export

/-! ### Constants -/

theorem foldlM_error {σ α ε : Type} {f : σ → α → Except ε σ} {l : List α} {x : α} (mem : x ∈ l)
    (fails : ∀ s, ∃ error, f s x = .error error) (s : σ) :
    ∃ error, l.foldlM f s = .error error := by
  induction l generalizing s with
  | nil => cases mem
  | cons y l ih =>
      rw [List.foldlM_cons]
      cases first : f s y with
      | error error => exact ⟨error, rfl⟩
      | ok next =>
          rcases List.mem_cons.mp mem with rfl | later
          · rcases fails s with ⟨error, isError⟩
            rw [isError] at first
            cases first
          · exact ih later next

theorem exists_importError_of_constant {strToClass : String → Option FIFOClass}
    {counters : NodeIDs} {g : Graph ι} {constant : Constant} {b : EdgeEnd ι}
    (mem : (constant, b) ∈ g.constantEdges) {desc : GraphDesc}
    (exported : exportGraph g = .ok desc) :
    ∃ error, importGraph strToClass counters desc = .error error := by
  have isNode : yamlConstantNode constant ∈ desc.nodes := by
    simp only [exportGraph, bind, Except.bind, pure, Except.pure] at exported
    split at exported
    · cases exported
    split at exported
    · cases exported
    cases exported
    have inAll : Sum.inl constant ∈ g.allNodes := by
      refine mem_foldl_addNew.mpr (Or.inr (List.mem_append_left _ ?_))
      exact List.mem_flatMap.mpr ⟨(constant, b), mem, by simp⟩
    exact List.mem_map.mpr ⟨_, inAll, rfl⟩
  simp only [importGraph, bind, Except.bind]
  split
  · exact ⟨_, rfl⟩
  split
  · exact ⟨_, rfl⟩
  rename_i cstruct _
  have fails : ∀ s, ∃ error, importNode cstruct s (yamlConstantNode constant) = .error error :=
    fun _ => ⟨_, rfl⟩
  rcases foldlM_error isNode fails ⟨fun _ => none, counters⟩ with ⟨error, isError⟩
  rw [isError]
  exact ⟨error, rfl⟩

/-- A graph with a constant never comes back: the description of a constant has no key
`identified`, which is read for every node. -/
theorem importGraph_constant {strToClass : String → Option FIFOClass} {counters : NodeIDs}
    {g : Graph ι} {constant : Constant} {b : EdgeEnd ι} (mem : (constant, b) ∈ g.constantEdges)
    {desc : GraphDesc} (exported : exportGraph g = .ok desc) :
    ∃ error, importGraph strToClass counters desc = .error error :=
  exists_importError_of_constant mem exported

/-- The graph with a constant connected to its sink. -/
def constantGraph : Graph Bool :=
  { pixelGraph with constantEdges := [(⟨0, "c"⟩, ⟨false, true, "i"⟩)] }

theorem constantGraph_lost : ∃ desc, exportGraph constantGraph = .ok desc ∧
    ∃ error, importGraph (fun _ => none) (fun _ => 1) desc = .error error := by
  have mem : ((⟨0, "c"⟩, ⟨false, true, "i"⟩) : Constant × EdgeEnd Bool) ∈
      constantGraph.constantEdges := List.mem_singleton.mpr rfl
  exact ⟨_, rfl, importGraph_constant mem rfl⟩

/-! ### The graphs which are read -/

section Built

variable {strToClass : String → Option FIFOClass} {nodes : String → Option Imported}

theorem run_node {g next : Graph ι} {step : BuildStep ι} (ok : BuildStep.run g step = .ok next) :
    next.node = g.node := by
  have connect : ∀ {a b : EdgeEnd ι} {options : ConnectOptions} {next : Graph ι},
      g.connect a b options = .ok next → next.node = g.node := by
    intro a b options next ok
    rcases connect_ok ok with ⟨_, _, _, _, _, _, rfl⟩
    rfl
  cases step with
  | connect a b options => exact connect ok
  | connectWithDelay a b delay options =>
      simp only [BuildStep.run, Graph.connectWithDelay, bind, Except.bind, pure, Except.pure] at ok
      split at ok
      · cases ok
      · rename_i connected isConnected
        cases ok
        have sameNode : connected.node = g.node := connect isConnected
        exact sameNode
  | connectConstant a b =>
      cases ok
      unfold Graph.connectConstant
      split_ifs <;> rfl
  | setDefaultFIFOClass fifoClass =>
      cases ok
      rfl
  | setDuplicateNodeClassName name =>
      cases ok
      rfl

theorem raised_ok {α : Type} {result : Except GraphError α} {value : α}
    (ok : raised result = .ok value) : result = .ok value := by
  cases result with
  | error error => cases ok
  | ok other => exact congrArg Except.ok (Except.ok.inj ok)

/-- An edge which is read is connected by the user's functions. -/
theorem importEdge_step {g next : Graph String} {desc : EdgeDesc}
    (ok : importEdge strToClass nodes g desc = .ok next) :
    ∃ step, BuildStep.run g step = .ok next := by
  simp only [importEdge, bind, Except.bind, pure, Except.pure] at ok
  split at ok
  · cases ok
  split at ok
  · cases ok
  split at ok
  · cases ok
  split at ok
  · split at ok
    · cases ok
    split at ok
    · cases ok
    split at ok
    · exact ⟨.connectWithDelay _ _ _ _, raised_ok ok⟩
    · exact ⟨.connect _ _ _, raised_ok ok⟩
  · split at ok
    · cases ok
    rename_i b _
    split at ok
    · cases ok
    · rename_i constant _ _
      exact ⟨.connectConstant constant b, congrArg Except.ok (Except.ok.inj ok)⟩
    · cases ok

theorem foldlM_importEdge_steps {g last : Graph String} {descs : List EdgeDesc}
    (ok : descs.foldlM (importEdge strToClass nodes) g = .ok last) :
    (∃ steps : List (BuildStep String), steps.foldlM BuildStep.run g = .ok last) ∧
      last.node = g.node := by
  induction descs generalizing g with
  | nil =>
      cases ok
      exact ⟨⟨[], rfl⟩, rfl⟩
  | cons desc descs ih =>
      rw [List.foldlM_cons] at ok
      cases first : importEdge strToClass nodes g desc with
      | error error =>
          rw [first] at ok
          cases ok
      | ok next =>
          rw [first] at ok
          rcases importEdge_step first with ⟨step, run⟩
          rcases ih ok with ⟨⟨steps, rest⟩, node⟩
          refine ⟨⟨step :: steps, ?_⟩, node.trans (run_node run)⟩
          rw [List.foldlM_cons, run]
          exact rest

/-- The table of types, the nodes and the edges of a description which is read. -/
theorem importGraph_ok {counters : NodeIDs} {desc : GraphDesc} {read : Graph String}
    (ok : importGraph strToClass counters desc = .ok read) :
    ∃ fifo cstruct s, desc.optionsFIFO.mapM (getClassName strToClass) = .ok fifo ∧
      desc.customTypes.foldlM importType [] = .ok cstruct ∧
      desc.nodes.foldlM (importNode cstruct) ⟨fun _ => none, counters⟩ = .ok s ∧
      desc.edges.foldlM (importEdge strToClass s.nodes)
        { Graph.empty s.node with
          defaultFIFOClass := fifo.getD .streamFIFO
          duplicateNodeClassName := desc.optionsDuplicate.getD "Duplicate" } = .ok read := by
  simp only [importGraph, bind, Except.bind] at ok
  split at ok
  · cases ok
  rename_i fifo isFIFO
  split at ok
  · cases ok
  rename_i cstruct types
  split at ok
  · cases ok
  rename_i s nodes
  exact ⟨fifo, cstruct, s, isFIFO, types, nodes, ok⟩

theorem built_of_importGraph {counters : NodeIDs} {desc : GraphDesc} {read : Graph String}
    (ok : importGraph strToClass counters desc = .ok read) : read.Built := by
  rcases importGraph_ok ok with ⟨fifo, _, s, -, -, -, edges⟩
  rcases foldlM_importEdge_steps edges with ⟨⟨steps, run⟩, node⟩
  have isNode : read.node = s.node := node
  refine ⟨.setDefaultFIFOClass (fifo.getD .streamFIFO) ::
    .setDuplicateNodeClassName (desc.optionsDuplicate.getD "Duplicate") :: steps, ?_⟩
  rw [isNode]
  exact run

end Built

end CmsisStream.Yaml
