import CmsisStream.Yaml.ReadEdges
import CmsisStream.Yaml.ReadNodes

/-!
# Which graphs come back

The import of a description gives the graph which was exported, up to the Python objects which are
its nodes, exactly when its nodes, types, classes and edges are those which the two functions treat
in the same way.
-/

namespace CmsisStream.Yaml

/-! ### Isomorphic graphs -/

/-- An end of an edge, when the nodes are renamed. -/
def EdgeEnd.rename {ι κ : Type} (f : ι → κ) (e : EdgeEnd ι) : EdgeEnd κ :=
  ⟨f e.node, e.isInput, e.name⟩

/-- The same edge when the nodes are renamed.  An edge without delay has the delay zero, as
`getDelay` reads it; a length which is zero is not `None`, of which no maximum is taken. -/
structure Edge.SameAs {ι κ : Type} (f : ι → κ) (e : Edge ι) (e' : Edge κ) : Prop where
  src : e'.src = e.src.rename f
  dst : e'.dst = e.dst.rename f
  fifoClass : e'.fifoClass = e.fifoClass
  fifoScale : e'.fifoScale = e.fifoScale
  fifoAsyncLength : e'.fifoAsyncLength = e.fifoAsyncLength
  weak : e'.weak = e.weak
  delay : e'.delay.getD 0 = e.delay.getD 0
  customBuffer : e'.customBuffer = e.customBuffer
  inherited : e'.inherited = e.inherited

/-- The same graph when the nodes and the constants are renamed. -/
structure Graph.RenamedBy {ι κ : Type} [DecidableEq ι] (f : ι → κ) (c : Constant → Constant)
    (g : Graph ι) (g' : Graph κ) : Prop where
  injective : ∀ i j, .inr i ∈ g.allNodes → .inr j ∈ g.allNodes → f i = f j → i = j
  injectiveConstants : ∀ a b, .inl a ∈ g.allNodes → .inl b ∈ g.allNodes → c a = c b → a = b
  node : ∀ i, .inr i ∈ g.allNodes → g'.node (f i) = g.node i
  constant : ∀ a, .inl a ∈ g.allNodes → (c a).name = a.name
  constantEdges : g'.constantEdges = g.constantEdges.map fun e => (c e.1, e.2.rename f)
  edges : List.Forall₂ (Edge.SameAs f) g.edges g'.edges
  defaultFIFOClass : g'.defaultFIFOClass = g.defaultFIFOClass
  duplicateNodeClassName : g'.duplicateNodeClassName = g.duplicateNodeClassName

/-- The same nodes, with their kinds, names, arguments and IOs, and the same edges, with their
attributes, in the same order. -/
def Graph.Isomorphic {ι κ : Type} [DecidableEq ι] (g : Graph ι) (g' : Graph κ) : Prop :=
  ∃ f c, g.RenamedBy f c g'

variable {ι : Type} [DecidableEq ι]

/-- The import of a description of a graph gives this graph, whose description is the same. -/
def Graph.RoundTrips (strToClass : String → Option FIFOClass) (counters : NodeIDs) (g : Graph ι)
    (desc : GraphDesc) : Prop :=
  ∃ read, importGraph strToClass counters desc = .ok read ∧ g.Isomorphic read ∧
    exportGraph read = .ok desc

/-- The attributes which are not lost: the scale and the length are not zero, and the class
`StreamFIFO` is the default one. -/
structure Edge.AttributesKept (default : FIFOClass) (e : Edge ι) : Prop where
  fifoClass : e.fifoClass = .streamFIFO → default = .streamFIFO
  fifoScale : e.fifoScale ≠ 0
  fifoAsyncLength : e.fifoAsyncLength ≠ some 0

section Comes

variable {strToClass : String → Option FIFOClass} {counters : NodeIDs} {g : Graph ι}

theorem Graph.not_constant_of_mem (noConstant : g.constantEdges = []) (constant : Constant) :
    .inl constant ∉ g.allNodes := by
  intro mem
  rcases g.isNode_of_mem noConstant mem with ⟨i, isNode⟩
  cases isNode

/-- The graph which is read is the same, when no attribute is lost. -/
theorem Graph.SameAs.isomorphic {read : Graph String} (same : g.SameAs read)
    (kept : g.Kept strToClass counters)
    (attributes : ∀ e ∈ g.edges, e.AttributesKept g.defaultFIFOClass) : g.Isomorphic read := by
  have notConstant := g.not_constant_of_mem kept.noConstant
  refine ⟨fun i => (g.node i).nodeID, id, ?_, ?_, same.node, ?_, ?_, ?_, same.defaultFIFOClass,
    same.duplicateNodeClassName⟩
  · exact fun i j iMem jMem eq => nodeID_injective kept.ids iMem jMem eq
  · exact fun a b mem => absurd mem (notConstant a)
  · exact fun a mem => absurd mem (notConstant a)
  · rw [same.constantEdges, kept.noConstant]
    rfl
  · rw [same.edges, List.forall₂_map_right_iff, List.forall₂_same]
    intro e mem
    rcases attributes e mem with ⟨fifoClass, fifoScale, fifoAsyncLength⟩
    refine ⟨rfl, rfl, ?_, if_neg fifoScale, ?_, rfl, ?_, rfl, rfl⟩
    · simp only [importedEdge]
      split_ifs with isStream
      · exact (fifoClass isStream).trans isStream.symm
      · rfl
    · cases length : e.fifoAsyncLength with
      | none => simp [importedEdge, length]
      | some value =>
          have notZero : value ≠ 0 := fun zero => fifoAsyncLength (zero ▸ length)
          simp [importedEdge, length, Option.filter, notZero]
    · cases delay : e.delay with
      | none => simp [importedEdge, delay]
      | some value =>
          by_cases zero : value = 0
          · simp [importedEdge, delay, Option.filter, zero]
          · simp [importedEdge, delay, Option.filter, zero]

/-! ### What a graph which has come back satisfies -/

theorem yamlClass_ok {fifoClass : FIFOClass} {name : Option String}
    (ok : yamlClass fifoClass = .ok name) : name = Graph.className fifoClass := by
  cases fifoClass with
  | streamFIFO => exact (Except.ok.inj ok).symm
  | user object className => exact (Except.ok.inj ok).symm
  | str s =>
      simp only [yamlClass] at ok
      split_ifs at ok
      exact (Except.ok.inj ok).symm

omit [DecidableEq ι] in
/-- The descriptions of edges which are exported. -/
theorem mapM_yamlEdge_ok {edges : List (Edge ι)} {descs : List EdgeDesc}
    (ok : edges.mapM (yamlEdge g) = .ok descs) : descs = edges.map g.writtenDesc := by
  induction edges generalizing descs with
  | nil => exact (Except.ok.inj ok).symm
  | cons e edges ih =>
      simp only [List.mapM_cons, bind, Except.bind, pure, Except.pure] at ok
      cases written : yamlClass e.fifoClass with
      | error error => simp [yamlEdge, written, bind, Except.bind] at ok
      | ok name =>
          rw [yamlClass_ok written] at written
          rw [yamlEdge_eq written] at ok
          simp only at ok
          cases rest : edges.mapM (yamlEdge g) with
          | error error =>
              rw [rest] at ok
              cases ok
          | ok others =>
              rw [rest] at ok
              cases ok
              rw [ih rest, List.map_cons]

/-- The description of a graph without constants which is exported. -/
theorem exportGraph_desc {desc : GraphDesc} (noConstant : g.constantEdges = [])
    (exported : exportGraph g = .ok desc) :
    desc = { g.desc with edges := g.edges.map g.writtenDesc } ∧
      ∀ s, g.defaultFIFOClass ≠ .str s := by
  simp only [exportGraph, bind, Except.bind, pure, Except.pure] at exported
  cases edges : g.edges.mapM (yamlEdge g) with
  | error error =>
      rw [edges] at exported
      cases exported
  | ok descs =>
      rw [edges] at exported
      simp only at exported
      cases isDefault : g.defaultFIFOClass with
      | str s =>
          rw [isDefault] at exported
          cases exported
      | streamFIFO =>
          rw [isDefault] at exported
          cases exported
          refine ⟨?_, by simp⟩
          rw [mapM_yamlEdge_ok edges, noConstant, Graph.desc, isDefault]
          rfl
      | user object name =>
          rw [isDefault] at exported
          cases exported
          refine ⟨?_, by simp⟩
          rw [mapM_yamlEdge_ok edges, noConstant, Graph.desc, isDefault]
          rfl

theorem readClass_ok {default fifoClass : FIFOClass} (notString : ∀ s, default ≠ .str s)
    (read : readClass strToClass default (Graph.className fifoClass) = .ok fifoClass) :
    ClassKept strToClass fifoClass ∧ (fifoClass = .streamFIFO → default = .streamFIFO) := by
  cases fifoClass with
  | streamFIFO => exact ⟨trivial, fun _ => Except.ok.inj read⟩
  | str s => exact absurd (Except.ok.inj read) (notString s)
  | user object name =>
      refine ⟨?_, by simp⟩
      simp only [readClass, Graph.className, Option.mapM_some, getClassName, bind, Except.bind,
        pure, Except.pure] at read
      by_cases isStream : name = "StreamFIFO"
      · simp [isStream] at read
      · rw [if_neg isStream] at read
        cases found : strToClass name with
        | none => simp [found] at read
        | some fifoClass =>
            have same : fifoClass = .user object name := by simpa [found] using read
            exact ⟨isStream, same ▸ found⟩

theorem Node.separate_of_getItem {n : Node} {isInput : Bool} {name : String}
    (found : n.getItem name = some isInput) : n.Separate isInput name := by
  rintro rfl other mem same
  have isSome : (n.findPort true name).isSome = true := by
    rw [findPort, List.find?_isSome]
    exact ⟨other, mem, by simpa using same⟩
  rw [getItem, if_pos isSome] at found
  cases found

/-- Without constants, a node of the graph is at an end of an edge. -/
theorem Graph.end_of_mem (noConstant : g.constantEdges = []) {i : ι}
    (mem : .inr i ∈ g.allNodes) : ∃ e ∈ g.edges, i = e.src.node ∨ i = e.dst.node := by
  rcases mem_foldl_addNew.mp mem with nothing | isEnd
  · cases nothing
  · rw [endNodes, noConstant, List.flatMap_nil, List.nil_append] at isEnd
    rcases List.mem_flatMap.mp isEnd with ⟨e, eMem, isEnd⟩
    simp only [List.mem_cons, Sum.inr.injEq, List.not_mem_nil, or_false] at isEnd
    exact ⟨e, eMem, isEnd⟩

theorem exists_of_forall₂ {α β : Type} {R S : α → β → Prop} {l : List α} {l' : List β}
    (first : List.Forall₂ R l l') (second : List.Forall₂ S l l') :
    ∀ x ∈ l, ∃ y ∈ l', R x y ∧ S x y := by
  induction first with
  | nil => simp
  | cons related _ ih =>
      cases second with
      | cons related' rest =>
          intro x mem
          rcases List.mem_cons.mp mem with rfl | mem
          · exact ⟨_, List.mem_cons_self, related, related'⟩
          · rcases ih rest x mem with ⟨y, yMem, both⟩
            exact ⟨y, List.mem_cons_of_mem _ yMem, both⟩

omit [DecidableEq ι] in
theorem map_key_of_same {κ : Type} {f : ι → κ} {l : List (Edge ι)} {l' : List (Edge κ)}
    (same : List.Forall₂ (Edge.SameAs f) l l') :
    l'.map Edge.key = (l.map Edge.key).map fun key => (key.1.rename f, key.2.rename f) := by
  induction same with
  | nil => rfl
  | cons same _ ih =>
      rw [List.map_cons, ih, Edge.key, same.src, same.dst]
      rfl

/-- The edges of a graph join IOs when those of a graph which is the same do. -/
theorem Graph.RenamedBy.wellFormed {κ : Type} {f : ι → κ} {c : Constant → Constant}
    {read : Graph κ} (renamed : g.RenamedBy f c read) (wellFormed : read.WellFormed) :
    g.WellFormed := by
  refine ⟨?_, fun e mem => ?_⟩
  · have nodup := wellFormed.keys
    rw [map_key_of_same renamed.edges] at nodup
    exact nodup.of_map _
  · rcases exists_of_forall₂ renamed.edges renamed.edges e mem with ⟨e', mem', same, -⟩
    rcases Graph.mem_allNodes mem with ⟨srcMem, dstMem⟩
    rcases wellFormed.joins e' mem' with ⟨src, dst, isSrc, isDst, types, conflict, own, recorded⟩
    rw [same.src, Graph.io, EdgeEnd.rename, renamed.node _ srcMem] at isSrc
    rw [same.dst, Graph.io, EdgeEnd.rename, renamed.node _ dstMem] at isDst
    rw [same.customBuffer, same.inherited] at recorded
    exact ⟨src, dst, isSrc, isDst, types, conflict, own, recorded⟩

/-- What is known of a graph which has been read: its edges, and so its nodes, come from the items
of the description of the same graph. -/
structure Graph.Comes (strToClass : String → Option FIFOClass) (g : Graph ι) (f : ι → String)
    (s : ImportState) : Prop where
  noConstant : g.constantEdges = []
  injective : ∀ i j, .inr i ∈ g.allNodes → .inr j ∈ g.allNodes → f i = f j → i = j
  node : ∀ i, .inr i ∈ g.allNodes → s.node (f i) = g.node i
  edges : ∀ e ∈ g.edges, ∃ e', (g.writtenDesc e).Gives strToClass s.nodes g.defaultFIFOClass e' ∧
    e.SameAs f e'

namespace Graph.Comes

variable {f : ι → String} {s : ImportState}

/-- A node is found under its identifier. -/
theorem name (comes : g.Comes strToClass f s) {i : ι} (mem : .inr i ∈ g.allNodes) :
    f i = (g.node i).nodeID := by
  rcases g.end_of_mem comes.noConstant mem with ⟨e, eMem, isEnd⟩
  rcases comes.edges e eMem with ⟨e', gives, same⟩
  rcases isEnd with rfl | rfl
  · exact (congrArg EdgeEnd.node same.src).symm.trans gives.srcNode
  · exact (congrArg EdgeEnd.node same.dst).symm.trans gives.dstNode

theorem found (comes : g.Comes strToClass f s) {i : ι} (mem : .inr i ∈ g.allNodes) :
    s.nodes (g.node i).nodeID = some (.node (g.node i)) := by
  have isNode : ∃ n, s.nodes (g.node i).nodeID = some (.node n) := by
    rcases g.end_of_mem comes.noConstant mem with ⟨e, eMem, isEnd⟩
    rcases comes.edges e eMem with ⟨e', gives, -⟩
    rcases isEnd with rfl | rfl
    · rcases gives.src with ⟨n, isNode, -⟩
      exact ⟨n, isNode⟩
    · rcases gives.dst with ⟨n, isNode, -⟩
      exact ⟨n, isNode⟩
  rcases isNode with ⟨n, isNode⟩
  have same := comes.node i mem
  rw [comes.name mem, ImportState.node, isNode] at same
  exact same ▸ isNode

/-- Different nodes have different identifiers. -/
theorem ids (comes : g.Comes strToClass f s) : (g.nodeList.map Node.nodeID).Nodup := by
  have used : g.nodeList = (g.allNodes.filterMap Sum.getRight?).map g.node := by
    rw [List.map_filterMap]
    apply List.filterMap_congr
    intro n _
    cases n <;> rfl
  have nodup : (g.allNodes.filterMap Sum.getRight?).Nodup := by
    refine (nodup_foldl_addNew List.nodup_nil).filterMap ?_
    intro n n' i isNode isNode'
    rw [Option.mem_def, Sum.getRight?_eq_some_iff] at isNode isNode'
    exact isNode.trans isNode'.symm
  rw [used, List.map_map]
  refine nodup.map_on fun i iMem j jMem same => ?_
  have isMem : ∀ {i : ι}, i ∈ g.allNodes.filterMap Sum.getRight? → .inr i ∈ g.allNodes := by
    intro i mem
    rcases List.mem_filterMap.mp mem with ⟨n, nMem, isNode⟩
    rw [Sum.getRight?_eq_some_iff] at isNode
    exact isNode ▸ nMem
  refine comes.injective i j (isMem iMem) (isMem jMem) ?_
  rw [comes.name (isMem iMem), comes.name (isMem jMem)]
  exact same

/-- The IOs at the ends of an edge are found by their names. -/
theorem ends (comes : g.Comes strToClass f s) {e : Edge ι} (mem : e ∈ g.edges) :
    (g.node e.src.node).Separate e.src.isInput e.src.name ∧
      (g.node e.dst.node).Separate e.dst.isInput e.dst.name := by
  rcases Graph.mem_allNodes mem with ⟨srcMem, dstMem⟩
  rcases comes.edges e mem with ⟨e', gives, same⟩
  rcases gives.src with ⟨n, isNode, srcItem⟩
  rcases gives.dst with ⟨n', isNode', dstItem⟩
  cases isNode.symm.trans (comes.found srcMem)
  cases isNode'.symm.trans (comes.found dstMem)
  rw [same.src] at srcItem
  rw [same.dst] at dstItem
  exact ⟨Node.separate_of_getItem srcItem, Node.separate_of_getItem dstItem⟩

theorem edge (comes : g.Comes strToClass f s) (notString : ∀ s, g.defaultFIFOClass ≠ .str s)
    {e : Edge ι} (mem : e ∈ g.edges) (joins : g.Joins e) :
    e.Kept strToClass ∧ e.AttributesKept g.defaultFIFOClass := by
  rcases comes.edges e mem with ⟨e', gives, same⟩
  rw [joins.writtenDesc] at gives
  have isClass : readClass strToClass g.defaultFIFOClass (Graph.className e.fifoClass) =
      .ok e.fifoClass :=
    gives.fifoClass.trans (congrArg Except.ok same.fifoClass)
  rcases readClass_ok notString isClass with ⟨classKept, isDefault⟩
  refine ⟨⟨classKept, fun own => .of_written ?_⟩, isDefault, fun zero => ?_, fun zero => ?_⟩
  · have named := gives.named
    rw [Graph.edgeDesc, own] at named
    exact named
  · have scale := same.fifoScale.symm.trans gives.fifoScale
    simp [Graph.edgeDesc, zero] at scale
  · have length := same.fifoAsyncLength.symm.trans gives.fifoAsyncLength
    simp [Graph.edgeDesc, zero, Option.filter] at length

end Graph.Comes

/-- When the edges which are read are those of the graph, each comes from its own item. -/
theorem Graph.RenamedBy.comes {f : ι → String} {c : Constant → Constant} {s : ImportState}
    {start read : Graph String} (renamed : g.RenamedBy f c read) (noConstant : g.constantEdges = [])
    (noEdge : start.edges = []) (isNode : start.node = s.node)
    (isEdges : (g.edges.map g.writtenDesc).foldlM (importEdge strToClass s.nodes) start =
      .ok read) :
    g.Comes strToClass f s ∧ start.defaultFIFOClass = g.defaultFIFOClass := by
  have outputs : ∀ desc ∈ g.edges.map g.writtenDesc, ∃ output, desc.output = some output := by
    intro desc mem
    rcases List.mem_map.mp mem with ⟨e, -, rfl⟩
    exact ⟨_, rfl⟩
  have length : read.edges.length = start.edges.length + (g.edges.map g.writtenDesc).length := by
    rw [noEdge, List.length_map, ← renamed.edges.length_eq, List.length_nil, Nat.zero_add]
  rcases foldlM_importEdge_gives outputs isEdges with ⟨-, gives, isDefault⟩
  rcases gives length with ⟨new, isNew, gives⟩
  rw [renamed.defaultFIFOClass] at isDefault
  rw [noEdge, List.nil_append] at isNew
  rw [← isNew, List.forall₂_map_left_iff, ← isDefault] at gives
  refine ⟨⟨noConstant, renamed.injective, fun i mem => ?_, fun e mem => ?_⟩, isDefault.symm⟩
  · rw [← isNode, ← (foldlM_importEdge_steps isEdges).2]
    exact renamed.node i mem
  · rcases exists_of_forall₂ gives renamed.edges e mem with ⟨e', -, both⟩
    exact ⟨e', both⟩

/-- A graph whose description gives the same graph is one of those which are kept. -/
theorem Graph.kept_of_isomorphic {desc : GraphDesc} {read : Graph String}
    (exported : exportGraph g = .ok desc)
    (isRead : importGraph strToClass counters desc = .ok read) (isomorphic : g.Isomorphic read) :
    g.WellFormed ∧ g.Kept strToClass counters ∧
      ∀ e ∈ g.edges, e.AttributesKept g.defaultFIFOClass := by
  have noConstant : g.constantEdges = [] := by
    cases constants : g.constantEdges with
    | nil => rfl
    | cons e rest =>
        have mem : (e.1, e.2) ∈ g.constantEdges := by simp [constants]
        have fails : ∃ error, importGraph strToClass counters desc = .error error :=
          exists_importError_of_constant mem exported
        rcases fails with ⟨error, isError⟩
        cases isRead.symm.trans isError
  rcases exportGraph_desc noConstant exported with ⟨rfl, notString⟩
  rcases isomorphic with ⟨f, c, renamed⟩
  have wellFormed := renamed.wellFormed (built_of_importGraph isRead).wellFormed
  rcases importGraph_ok isRead with ⟨fifo, cstruct, s, isFIFO, isTypes, isNodes, isEdges⟩
  rcases renamed.comes noConstant rfl rfl isEdges with ⟨comes, isDefault⟩
  have nodesRead : (g.nodeList.map Yaml.yamlNode).foldlM (importNode cstruct)
      ⟨fun _ => none, counters⟩ = .ok s := by
    rw [← Graph.map_yamlNode noConstant]
    exact isNodes
  have found : ∀ n ∈ g.nodeList, s.nodes n.nodeID = some (.node n) := by
    intro n mem
    rcases List.mem_filterMap.mp mem with ⟨constant | i, iMem, eq⟩
    · cases eq
    · cases eq
      exact comes.found iMem
  have nodes := NodesKept.of_import (consistent_of_read isTypes) nodesRead comes.ids found
  have types : TypesKept (g.allNodes.flatMap g.types) := by
    refine .of_read isTypes fun t mem => ?_
    rcases List.mem_flatMap.mp mem with ⟨constant | i, iMem, isType⟩
    · cases isType
    · exact nodes.2 (g.node i) (Graph.mem_nodeList iMem) t isType
  have isClass : readClass strToClass .streamFIFO (Graph.className g.defaultFIFOClass) =
      .ok g.defaultFIFOClass := by
    have classRead : (Graph.className g.defaultFIFOClass).mapM (getClassName strToClass) =
        .ok fifo := isFIFO
    rw [readClass, classRead, ← isDefault]
    rfl
  have edge := fun e mem => comes.edge notString mem (wellFormed.joins e mem)
  exact ⟨wellFormed, ⟨noConstant, types, nodes.1, comes.ids, fun e mem => (edge e mem).1,
    fun e mem => comes.ends mem, (readClass_ok (by simp) isClass).1⟩, fun e mem => (edge e mem).2⟩

/-- Export, import and export.  A graph which is exported comes back from its description, and has
the same description again, exactly when its edges are as `connect` records them, it is kept and no
attribute of its edges is lost. -/
theorem roundTrips_iff {desc : GraphDesc} (exported : exportGraph g = .ok desc) :
    g.RoundTrips strToClass counters desc ↔ g.WellFormed ∧ g.Kept strToClass counters ∧
      ∀ e ∈ g.edges, e.AttributesKept g.defaultFIFOClass := by
  constructor
  · rintro ⟨read, isRead, isomorphic, -⟩
    exact g.kept_of_isomorphic exported isRead isomorphic
  · rintro ⟨wellFormed, kept, attributes⟩
    cases exported.symm.trans (kept.exportGraph wellFormed)
    rcases importGraph_desc wellFormed kept with ⟨read, isRead, same⟩
    exact ⟨read, isRead, same.isomorphic kept attributes,
      same.exportGraph wellFormed kept fun e mem => (attributes e mem).fifoClass⟩

end Comes

/-! ### A graph which comes back -/

/-- The graph of the structures, whose FIFO has a length for the asynchronous mode. -/
def asyncPixelGraph : Graph Bool :=
  { pixelGraph with edges := [{ pixelEdge with fifoAsyncLength := some 64 }] }

theorem asyncPixelGraph_built : asyncPixelGraph.Built := by
  refine ⟨[.connectWithDelay ⟨true, false, "o"⟩ ⟨false, true, "i"⟩ 8
    ⟨none, 1, some 64, false, some "pixels", true⟩], ?_⟩
  rfl

theorem asyncPixelGraph_kept : asyncPixelGraph.Kept (fun _ => none) fun _ => 1 := by
  rcases pixelGraph_kept with ⟨noConstant, types, nodes, ids, edges, ends, defaultClass⟩
  refine ⟨noConstant, types, nodes, ids, ?_, ?_, defaultClass⟩
  · intro e mem
    cases List.mem_singleton.mp mem
    have kept := edges pixelEdge (List.mem_singleton.mpr rfl)
    exact ⟨kept.fifoClass, kept.buffer⟩
  · intro e mem
    cases List.mem_singleton.mp mem
    exact ends pixelEdge (List.mem_singleton.mpr rfl)

theorem asyncPixelGraph_roundTrips : ∃ desc, exportGraph asyncPixelGraph = .ok desc ∧
    asyncPixelGraph.RoundTrips (fun _ => none) (fun _ => 1) desc := by
  have attributes : ∀ e ∈ asyncPixelGraph.edges, e.AttributesKept .streamFIFO := by
    intro e mem
    cases List.mem_singleton.mp mem
    exact ⟨fun _ => rfl, by decide, by decide⟩
  exact ⟨_, rfl, (roundTrips_iff rfl).mpr
    ⟨asyncPixelGraph_built.wellFormed, asyncPixelGraph_kept, attributes⟩⟩

/-! ### A graph which does not come back -/

/-- The nodes of `simpledsp`: a source, a function and a sink. -/
def simpleDSPNode : Option Bool → Node
  | some true =>
      { nodeID := "source"
        kind := .cpp "Source" true
        inputs := .each []
        outputs := .each [⟨"o", .cType .float32_t, .int 5, none⟩]
        schedArgs := [] }
  | none =>
      { nodeID := "arm_offset_f321"
        kind := .binary "arm_offset_f32" [.io "a", .io "b", .io "o", .argLength "o" true]
        inputs := .each [⟨"a", .cType .float32_t, .int 7, none⟩,
          ⟨"b", .cType .float32_t, .int 7, none⟩]
        outputs := .each [⟨"o", .cType .float32_t, .int 7, none⟩]
        schedArgs := [] }
  | some false =>
      { nodeID := "sink"
        kind := .cpp "Sink" true
        inputs := .each [⟨"i", .cType .float32_t, .int 5, none⟩]
        outputs := .each []
        schedArgs := [] }

/-- The connections of `simpledsp`, where the second input of the function is a constant. -/
def simpleDSPSteps : List (BuildStep (Option Bool)) :=
  let default : ConnectOptions := ⟨none, 1, some 0, false, none, true⟩
  [.connect ⟨some true, false, "o"⟩ ⟨none, true, "a"⟩ default,
    .connectConstant ⟨0, "OFFSET_VALUE"⟩ ⟨none, true, "b"⟩,
    .connect ⟨none, false, "o"⟩ ⟨some false, true, "i"⟩ default]

/-- The graph is exported, and its description cannot be read. -/
theorem simpleDSP_lost : ∃ g desc, simpleDSPSteps.foldlM BuildStep.run (.empty simpleDSPNode) =
    .ok g ∧ g.Built ∧ exportGraph g = .ok desc ∧
      ∀ strToClass counters, ¬g.RoundTrips strToClass counters desc := by
  have computed : ∃ g desc, simpleDSPSteps.foldlM BuildStep.run (.empty simpleDSPNode) = .ok g ∧
      g.node = simpleDSPNode ∧ exportGraph g = .ok desc ∧
      (⟨0, "OFFSET_VALUE"⟩, ⟨none, true, "b"⟩) ∈ g.constantEdges :=
    ⟨_, _, rfl, rfl, rfl, List.mem_singleton.mpr rfl⟩
  rcases computed with ⟨g, desc, run, isNode, exported, mem⟩
  refine ⟨g, desc, run, ⟨simpleDSPSteps, isNode ▸ run⟩, exported, ?_⟩
  rintro strToClass counters ⟨read, isRead, -⟩
  have fails : ∃ error, importGraph strToClass counters desc = .error error :=
    exists_importError_of_constant mem exported
  rcases fails with ⟨error, isError⟩
  cases isRead.symm.trans isError

end CmsisStream.Yaml
