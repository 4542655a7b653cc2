import CmsisStream.Yaml.NodeRoundTrip

/-!
# The edges which come back

The edges of a graph join IOs of its nodes, with compatible types and constraints.  So each of them
can be connected again, in the same order, between the IOs with the same names.
-/

namespace CmsisStream.Yaml

variable {ι : Type}

/-! ### The edges of a graph -/

/-- The IOs of an edge, the key of the dictionaries. -/
def Edge.key (e : Edge ι) : EdgeEnd ι × EdgeEnd ι := (e.src, e.dst)

/-- What the graph records for the constraint of an edge. -/
def Edge.Recorded (e : Edge ι) (src dst : IOPort) : Prop :=
  ∃ own : Option (String × Bool),
    (e.customBuffer, e.inherited) = recordedConstraint src.bufferConstraint dst.bufferConstraint
      (own.map fun own => ⟨some own.1, own.2, false, true⟩) (none, false)

/-- An edge joins two IOs of the graph which can be connected. -/
def Graph.Joins (g : Graph ι) (e : Edge ι) : Prop :=
  ∃ src dst, g.io e.src = some src ∧ g.io e.dst = some dst ∧
    src.theType.equals dst.theType = true ∧
    constraintsConflict src.bufferConstraint dst.bufferConstraint = false ∧ e.Recorded src dst

/-- What holds of the graphs of the user. -/
structure Graph.WellFormed (g : Graph ι) : Prop where
  keys : (g.edges.map Edge.key).Nodup
  joins : ∀ e ∈ g.edges, g.Joins e

variable [DecidableEq ι]

/-- A key which is there keeps its place. -/
theorem map_key_setEdge (e : Edge ι) (edges : List (Edge ι)) :
    (setEdge e edges).map Edge.key =
      if e.key ∈ edges.map Edge.key then edges.map Edge.key else edges.map Edge.key ++ [e.key] := by
  have isKey : (edges.any fun other => (other.src, other.dst) = (e.src, e.dst)) = true ↔
      e.key ∈ edges.map Edge.key := by
    simp [Edge.key]
  unfold setEdge
  by_cases mem : e.key ∈ edges.map Edge.key
  · rw [if_pos (isKey.mpr mem), if_pos mem, List.map_map]
    apply List.map_congr_left
    intro other _
    simp only [Function.comp_apply]
    split_ifs with same
    · exact same.symm
    · rfl
  · rw [if_neg (mt isKey.mp mem), if_neg mem]
    simp

theorem mem_setEdge {e other : Edge ι} {edges : List (Edge ι)} (mem : other ∈ setEdge e edges) :
    other = e ∨ other ∈ edges := by
  unfold setEdge at mem
  split_ifs at mem
  · rcases List.mem_map.mp mem with ⟨old, oldMem, eq⟩
    split_ifs at eq
    · exact Or.inl eq.symm
    · exact Or.inr (eq ▸ oldMem)
  · rcases List.mem_append.mp mem with old | new
    · exact Or.inr old
    · exact Or.inl (List.mem_singleton.mp new)

/-- A connection which succeeds. -/
theorem connect_ok {g result : Graph ι} {a b : EdgeEnd ι} {options : ConnectOptions}
    (ok : g.connect a b options = .ok result) :
    ∃ src dst, g.io a = some src ∧ g.io b = some dst ∧ src.theType.equals dst.theType = true ∧
      constraintsConflict src.bufferConstraint dst.bufferConstraint = false ∧
      result = { g with
        edges := setEdge (g.connectedEdge a b src dst options
          (g.edges.find? fun e => (e.src, e.dst) = (a, b))) g.edges } := by
  unfold Graph.connect at ok
  split at ok
  · rename_i src dst isSrc isDst
    split_ifs at ok with types conflict
    exact ⟨src, dst, isSrc, isDst, types, by simpa using conflict, (Except.ok.inj ok).symm⟩
  · cases ok

omit [DecidableEq ι] in
/-- What is recorded for a new connection. -/
theorem recorded_connectedEdge {g : Graph ι} {a b : EdgeEnd ι} {src dst : IOPort}
    {options : ConnectOptions} {before : Option (Edge ι)}
    (old : ∀ e, before = some e → e.Recorded src dst) :
    (g.connectedEdge a b src dst options before).Recorded src dst := by
  have own : options.constraint = (options.buffer.map fun name =>
      (name, options.customBufferMustBeArray)).map fun own => ⟨some own.1, own.2, false, true⟩ := by
    rw [ConnectOptions.constraint, Option.map_map]
    rfl
  cases given : options.buffer with
  | some name =>
      refine ⟨some (name, options.customBufferMustBeArray), ?_⟩
      simp only [Graph.connectedEdge, ConnectOptions.constraint, given, Option.map_some]
      cases src.bufferConstraint <;> cases dst.bufferConstraint <;> rfl
  | none =>
      cases before with
      | none =>
          refine ⟨none, ?_⟩
          simp only [Graph.connectedEdge, ConnectOptions.constraint, given, Option.map_none]
          cases src.bufferConstraint <;> cases dst.bufferConstraint <;> rfl
      | some e =>
          rcases old e rfl with ⟨recorded, eq⟩
          refine ⟨recorded, ?_⟩
          simp only [Graph.connectedEdge, ConnectOptions.constraint, given, Option.map_none]
          cases isSrc : src.bufferConstraint <;> cases isDst : dst.bufferConstraint
          · rw [isSrc, isDst] at eq
            exact eq
          all_goals rfl

theorem Graph.WellFormed.connect {g result : Graph ι} {a b : EdgeEnd ι} {options : ConnectOptions}
    (wellFormed : g.WellFormed) (ok : g.connect a b options = .ok result) :
    result.WellFormed := by
  rcases connect_ok ok with ⟨src, dst, isSrc, isDst, types, conflict, rfl⟩
  refine ⟨?_, fun e mem => ?_⟩
  · rw [map_key_setEdge]
    split_ifs with mem
    · exact wellFormed.keys
    · rw [List.nodup_append]
      refine ⟨wellFormed.keys, List.nodup_singleton _, ?_⟩
      intro key keyMem other otherMem same
      rw [List.mem_singleton] at otherMem
      exact mem (otherMem ▸ same ▸ keyMem)
  · rcases mem_setEdge mem with rfl | old
    · refine ⟨src, dst, isSrc, isDst, types, conflict, recorded_connectedEdge ?_⟩
      intro e found
      have isKey : (e.src, e.dst) = (a, b) := by
        simpa using List.find?_some found
      rcases wellFormed.joins e (List.mem_of_find?_eq_some found) with
        ⟨src', dst', isSrc', isDst', -, -, recorded⟩
      cases isKey
      cases isSrc.symm.trans isSrc'
      cases isDst.symm.trans isDst'
      exact recorded
    · exact wellFormed.joins e old

/-- The edges after the delay of an edge is set. -/
def setDelay (a b : EdgeEnd ι) (delay : ℤ) (edges : List (Edge ι)) : List (Edge ι) :=
  edges.map fun e => if (e.src, e.dst) = (a, b) then { e with delay := some delay } else e

theorem map_key_setDelay (a b : EdgeEnd ι) (delay : ℤ) (edges : List (Edge ι)) :
    (setDelay a b delay edges).map Edge.key = edges.map Edge.key := by
  rw [setDelay, List.map_map]
  apply List.map_congr_left
  intro e _
  simp only [Function.comp_apply]
  split_ifs <;> rfl

/-- Only the edge between the two IOs gets the delay. -/
theorem setDelay_eq {a b : EdgeEnd ι} {delay : ℤ} {edges : List (Edge ι)}
    (new : (a, b) ∉ edges.map Edge.key) : setDelay a b delay edges = edges := by
  conv_rhs => rw [← List.map_id edges]
  apply List.map_congr_left
  intro other mem
  have ne : (other.src, other.dst) ≠ (a, b) := fun same =>
    new (List.mem_map.mpr ⟨other, mem, same⟩)
  rw [if_neg ne]
  rfl

theorem Graph.WellFormed.delay {g : Graph ι} (wellFormed : g.WellFormed) (a b : EdgeEnd ι)
    (delay : ℤ) : { g with edges := setDelay a b delay g.edges }.WellFormed := by
  refine ⟨?_, fun e mem => ?_⟩
  · change ((setDelay a b delay g.edges).map Edge.key).Nodup
    rw [map_key_setDelay]
    exact wellFormed.keys
  · rcases List.mem_map.mp mem with ⟨old, oldMem, rfl⟩
    have joins := wellFormed.joins old oldMem
    split_ifs
    · exact joins
    · exact joins

/-- A step of the user keeps the edges well formed, and the nodes. -/
theorem Graph.WellFormed.run {g result : Graph ι} {step : BuildStep ι} (wellFormed : g.WellFormed)
    (ok : BuildStep.run g step = .ok result) : result.WellFormed := by
  cases step with
  | connect a b options => exact wellFormed.connect ok
  | connectWithDelay a b delay options =>
      simp only [BuildStep.run, Graph.connectWithDelay, bind, Except.bind, pure, Except.pure] at ok
      split at ok
      · cases ok
      · rename_i connected isConnected
        cases ok
        exact (wellFormed.connect isConnected).delay a b delay
  | connectConstant a b =>
      cases ok
      unfold Graph.connectConstant
      split_ifs <;> exact ⟨wellFormed.keys, wellFormed.joins⟩
  | setDefaultFIFOClass fifoClass =>
      cases ok
      exact ⟨wellFormed.keys, wellFormed.joins⟩
  | setDuplicateNodeClassName name =>
      cases ok
      exact ⟨wellFormed.keys, wellFormed.joins⟩

/-- The edges of the graphs of the user are well formed. -/
theorem Graph.Built.wellFormed {g : Graph ι} (built : g.Built) : g.WellFormed := by
  rcases built with ⟨steps, ok⟩
  have start : (Graph.empty g.node).WellFormed := ⟨List.nodup_nil, by simp [Graph.empty]⟩
  generalize Graph.empty g.node = first at ok start
  induction steps generalizing first with
  | nil =>
      cases ok
      exact start
  | cons step steps ih =>
      rw [List.foldlM_cons] at ok
      cases next : BuildStep.run first step with
      | error error =>
          rw [next] at ok
          cases ok
      | ok second =>
          rw [next] at ok
          exact ih second ok (start.run next)

/-! ### The description of an edge -/

/-- A class which is found by its name. -/
def ClassKept (strToClass : String → Option FIFOClass) : FIFOClass → Prop
  | .streamFIFO => True
  | .user object name => name ≠ "StreamFIFO" ∧ strToClass name = some (.user object name)
  | .str _ => False

/-- An edge which is connected again; a constraint of its own has a name. -/
structure Edge.Kept (strToClass : String → Option FIFOClass) (e : Edge ι) : Prop where
  fifoClass : ClassKept strToClass e.fifoClass
  buffer : e.inherited = false → ConstraintKept e.customBuffer

namespace Graph

variable (g : Graph ι)

/-- An IO of a node, by the identifier of the node. -/
def named (e : EdgeEnd ι) : EdgeEnd String := ⟨(g.node e.node).nodeID, e.isInput, e.name⟩

/-- The edge which is connected for the description of an edge.  The class `StreamFIFO` is not
written, nor is a scale, a length or a delay of zero; what is missing is a scale of one, and
`None` for the length and the delay. -/
def importedEdge (e : Edge ι) : Edge String where
  src := g.named e.src
  dst := g.named e.dst
  fifoClass := if e.fifoClass = .streamFIFO then g.defaultFIFOClass else e.fifoClass
  fifoScale := if e.fifoScale = 0 then 1 else e.fifoScale
  fifoAsyncLength := e.fifoAsyncLength.filter fun length => length ≠ 0
  weak := e.weak
  delay := e.delay.filter fun delay => delay ≠ 0
  customBuffer := e.customBuffer
  inherited := e.inherited

/-- The name of a class in a description. -/
def className : FIFOClass → Option String
  | .user _ name => some name
  | _ => none

/-- The description of an edge whose class has a name. -/
def edgeDesc (e : Edge ι) : EdgeDesc where
  srcNode := (g.node e.src.node).nodeID
  output := some e.src.name
  dstNode := (g.node e.dst.node).nodeID
  input := e.dst.name
  fifoClass := className e.fifoClass
  scale := if e.fifoScale = 0 ∨ e.fifoScale = 1 then none else some e.fifoScale
  delay := e.delay.filter fun delay => delay ≠ 0
  asyncLength := e.fifoAsyncLength.filter fun length => length ≠ 0
  weakEdge := if e.weak then some true else none
  bufferConstraint := if e.inherited then none else e.customBuffer.map mkBufferConstraint

end Graph

section Desc

variable {strToClass : String → Option FIFOClass} {g : Graph ι} {e : Edge ι}

theorem ClassKept.written {fifoClass : FIFOClass} (kept : ClassKept strToClass fifoClass) :
    yamlClass fifoClass = .ok (Graph.className fifoClass) := by
  cases fifoClass with
  | streamFIFO => rfl
  | user object name => rfl
  | str s => exact kept.elim

/-- What is written of an edge, whatever was recorded for it: the recorded constraint is left out
when one of the IOs has a constraint. -/
def Graph.writtenDesc (g : Graph ι) (e : Edge ι) : EdgeDesc :=
  { g.edgeDesc e with
    bufferConstraint :=
      if ((g.io e.src).bind IOPort.bufferConstraint).isNone ∧
          ((g.io e.dst).bind IOPort.bufferConstraint).isNone then
        e.customBuffer.map mkBufferConstraint
      else none }

omit [DecidableEq ι] in
/-- The constraint which was recorded is left out when it comes from an IO. -/
theorem Graph.Joins.writtenDesc (joins : g.Joins e) : g.writtenDesc e = g.edgeDesc e := by
  rcases joins with ⟨src, dst, isSrc, isDst, -, -, own, recorded⟩
  have constraint : (if ((g.io e.src).bind IOPort.bufferConstraint).isNone ∧
      ((g.io e.dst).bind IOPort.bufferConstraint).isNone then
        e.customBuffer.map mkBufferConstraint else none) =
      if e.inherited then none else e.customBuffer.map mkBufferConstraint := by
    rw [isSrc, isDst]
    have inherited := congrArg Prod.snd recorded
    have customBuffer := congrArg Prod.fst recorded
    simp only at inherited customBuffer
    rw [inherited, customBuffer]
    cases onSrc : src.bufferConstraint <;> cases onDst : dst.bufferConstraint <;> cases own <;>
      simp [onSrc, onDst, recordedConstraint]
  rw [Graph.writtenDesc, constraint]
  rfl

omit [DecidableEq ι] in
theorem yamlEdge_eq (written : yamlClass e.fifoClass = .ok (Graph.className e.fifoClass)) :
    yamlEdge g e = .ok (g.writtenDesc e) := by
  rw [yamlEdge, written]
  rfl

omit [DecidableEq ι] in
/-- A constraint which does not come from the IOs is the one given for the edge. -/
theorem Edge.Recorded.own {src dst : IOPort} (recorded : e.Recorded src dst)
    (inherited : e.inherited = false) :
    ∃ own : Option (String × Bool),
      e.customBuffer = own.map fun own => ⟨some own.1, own.2, false, true⟩ := by
  rcases recorded with ⟨own, eq⟩
  have isInherited := congrArg Prod.snd eq
  have customBuffer := congrArg Prod.fst eq
  simp only [inherited] at isInherited customBuffer
  rw [customBuffer]
  cases onSrc : src.bufferConstraint <;> cases onDst : dst.bufferConstraint <;> cases own <;>
    simp [onSrc, onDst, recordedConstraint] at isInherited ⊢

/-- A class is found by the name in a description. -/
theorem ClassKept.read {fifoClass : FIFOClass} (kept : ClassKept strToClass fifoClass)
    (missing : FIFOClass) :
    ∃ read, (Graph.className fifoClass).mapM (getClassName strToClass) = .ok read ∧
      read.getD missing = if fifoClass = .streamFIFO then missing else fifoClass := by
  cases fifoClass with
  | streamFIFO => exact ⟨none, rfl, rfl⟩
  | user object name =>
      refine ⟨some (.user object name), ?_, by simp⟩
      simp [Graph.className, getClassName, kept.1, kept.2]
  | str s => exact kept.elim

omit [DecidableEq ι] in
/-- The options which are read from a description. -/
theorem edgeOptions_edgeDesc (kept : e.Kept strToClass) {src dst : IOPort}
    (recorded : e.Recorded src dst) :
    ∃ options, edgeOptions strToClass (g.edgeDesc e) = .ok options ∧
      options.fifoClass.getD g.defaultFIFOClass = (g.importedEdge e).fifoClass ∧
      options.fifoScale = (g.importedEdge e).fifoScale ∧
      options.fifoAsyncLength = (g.importedEdge e).fifoAsyncLength ∧ options.weak = e.weak ∧
      options.constraint = if e.inherited then none else e.customBuffer := by
  have isBuffer : ∃ buffer, (g.edgeDesc e).bufferConstraint.mapM
      (fun constraint => key "name" constraint.name) = .ok buffer ∧
        buffer.map (fun name => (⟨some name,
          ((g.edgeDesc e).bufferConstraint.map BufferDesc.mustBeArray).getD true, false, true⟩ :
            BufferConstraint)) = if e.inherited then none else e.customBuffer := by
    cases inherited : e.inherited with
    | true =>
        refine ⟨none, ?_, rfl⟩
        simp [Graph.edgeDesc, inherited]
        rfl
    | false =>
        have named := kept.buffer inherited
        rcases recorded.own inherited with ⟨own, isOwn⟩
        rw [isOwn] at named
        cases own with
        | none =>
            refine ⟨none, ?_, by simp [isOwn]⟩
            simp [Graph.edgeDesc, inherited, isOwn]
            rfl
        | some own =>
            rcases named _ rfl with ⟨name, isName, notEmpty⟩
            cases isName
            refine ⟨some own.1, ?_, ?_⟩
            · simp [Graph.edgeDesc, inherited, isOwn, mkBufferConstraint, key, Option.filter,
                notEmpty]
            · simp [Graph.edgeDesc, inherited, isOwn, mkBufferConstraint]
  rcases kept.fifoClass.read g.defaultFIFOClass with ⟨fifoClass, readClass, sameClass⟩
  rcases isBuffer with ⟨buffer, readBuffer, sameBuffer⟩
  have sameScale : (g.edgeDesc e).scale.getD 1 = (g.importedEdge e).fifoScale := by
    simp only [Graph.edgeDesc, Graph.importedEdge]
    by_cases zero : e.fifoScale = 0
    · simp [zero]
    · by_cases one : e.fifoScale = 1
      · simp [one]
      · simp [zero, one]
  have sameWeak : (g.edgeDesc e).weakEdge.getD false = e.weak := by
    cases weak : e.weak <;> simp [Graph.edgeDesc, weak]
  have className : (g.edgeDesc e).fifoClass = Graph.className e.fifoClass := rfl
  refine ⟨⟨fifoClass, (g.edgeDesc e).scale.getD 1, (g.edgeDesc e).asyncLength,
    (g.edgeDesc e).weakEdge.getD false, buffer,
    ((g.edgeDesc e).bufferConstraint.map BufferDesc.mustBeArray).getD true⟩, ?_, sameClass,
    sameScale, rfl, sameWeak, sameBuffer⟩
  simp only [edgeOptions, className, readClass, readBuffer, bind, Except.bind, pure, Except.pure]

end Desc

/-! ### Connecting the edges again -/

/-- An IO of an edge is found by the identifier of its node and by its name. -/
structure Graph.Finds (g : Graph ι) (nodes : String → Option Imported) (read : Graph String)
    (e : EdgeEnd ι) : Prop where
  found : nodes (g.node e.node).nodeID = some (.node (g.node e.node))
  node : read.node (g.node e.node).nodeID = g.node e.node
  separate : (g.node e.node).Separate e.isInput e.name

section Connect

variable {strToClass : String → Option FIFOClass} {g : Graph ι} {e : Edge ι}
  {nodes : String → Option Imported} {read : Graph String}

omit [DecidableEq ι] in
theorem endOf_eq {e : EdgeEnd ι} (finds : g.Finds nodes read e) {io : IOPort}
    (found : g.io e = some io) :
    endOf (g.node e.node).nodeID e.name (.node (g.node e.node)) = .ok (g.named e) ∧
      read.io (g.named e) = some io := by
  have mem : ∃ io ∈ ((g.node e.node).ports e.isInput).list, io.name = e.name := by
    rw [← Node.ios_eq]
    exact ⟨io, List.mem_of_find?_eq_some found, by simpa using List.find?_some found⟩
  refine ⟨?_, ?_⟩
  · rw [endOf, Node.getItem_eq finds.separate mem]
    rfl
  · rw [Graph.io, Graph.named, finds.node]
    exact found

omit [DecidableEq ι] in
/-- The constraint recorded for an edge which is connected again. -/
theorem Edge.Recorded.again {src dst : IOPort} (recorded : e.Recorded src dst) :
    recordedConstraint src.bufferConstraint dst.bufferConstraint
      (if e.inherited then none else e.customBuffer) (none, false) =
        (e.customBuffer, e.inherited) := by
  rcases recorded with ⟨own, eq⟩
  have inherited := congrArg Prod.snd eq
  have customBuffer := congrArg Prod.fst eq
  simp only at inherited customBuffer
  rw [inherited, customBuffer]
  cases src.bufferConstraint <;> cases dst.bufferConstraint <;> cases own <;>
    simp [recordedConstraint]

theorem setEdge_new {e : Edge ι} {edges : List (Edge ι)} (new : e.key ∉ edges.map Edge.key) :
    setEdge e edges = edges ++ [e] := by
  have none : ¬(edges.any fun other => (other.src, other.dst) = (e.src, e.dst)) = true := by
    simpa [Edge.key] using new
  rw [setEdge, if_neg none]

omit [DecidableEq ι] in
/-- An edge is connected again, after those which have been connected. -/
theorem importEdge_edgeDesc (joins : g.Joins e) (kept : e.Kept strToClass)
    (findsSrc : g.Finds nodes read e.src) (findsDst : g.Finds nodes read e.dst)
    (default : read.defaultFIFOClass = g.defaultFIFOClass)
    (new : (g.importedEdge e).key ∉ read.edges.map Edge.key) :
    importEdge strToClass nodes read (g.edgeDesc e) =
      .ok { read with edges := read.edges ++ [g.importedEdge e] } := by
  rcases joins with ⟨src, dst, isSrc, isDst, types, conflict, recorded⟩
  rcases endOf_eq findsSrc isSrc with ⟨endSrc, ioSrc⟩
  rcases endOf_eq findsDst isDst with ⟨endDst, ioDst⟩
  rcases edgeOptions_edgeDesc (g := g) kept recorded with
    ⟨options, readOptions, fifoClass, scale, asyncLength, weak, constraint⟩
  have notFound : read.edges.find? (fun other =>
      (other.src, other.dst) = (g.named e.src, g.named e.dst)) = none := by
    rw [List.find?_eq_none]
    intro other mem same
    exact new (List.mem_map.mpr ⟨other, mem, by
      simpa [Edge.key, Graph.importedEdge] using same⟩)
  let plain : Edge String := { g.importedEdge e with delay := none }
  have edge : read.connectedEdge (g.named e.src) (g.named e.dst) src dst options none = plain := by
    simp only [Graph.connectedEdge, Option.bind_none, Option.map_none, Option.getD_none, default,
      fifoClass, scale, asyncLength, weak, constraint, recorded.again]
    rfl
  have connected : read.connect (g.named e.src) (g.named e.dst) options =
      .ok { read with edges := read.edges ++ [plain] } := by
    have isNew : plain.key ∉ read.edges.map Edge.key := new
    simp only [Graph.connect, ioSrc, ioDst, types, conflict, if_true, notFound, edge,
      setEdge_new isNew]
    rfl
  have readSrc : key (g.edgeDesc e).srcNode (nodes (g.edgeDesc e).srcNode) =
      .ok (.node (g.node e.src.node)) := by
    rw [show (g.edgeDesc e).srcNode = (g.node e.src.node).nodeID from rfl, findsSrc.found]
    rfl
  have readDst : key (g.edgeDesc e).dstNode (nodes (g.edgeDesc e).dstNode) =
      .ok (.node (g.node e.dst.node)) := by
    rw [show (g.edgeDesc e).dstNode = (g.node e.dst.node).nodeID from rfl, findsDst.found]
    rfl
  have output : (g.edgeDesc e).output = some e.src.name := rfl
  have delayDesc : (g.edgeDesc e).delay = (g.importedEdge e).delay := rfl
  have srcEnd : endOf (g.edgeDesc e).srcNode e.src.name (.node (g.node e.src.node)) =
      .ok (g.named e.src) := endSrc
  have dstEnd : endOf (g.edgeDesc e).dstNode (g.edgeDesc e).input (.node (g.node e.dst.node)) =
      .ok (g.named e.dst) := endDst
  simp only [importEdge, readSrc, readDst, readOptions, output, srcEnd, dstEnd, delayDesc, bind,
    Except.bind]
  cases delay : (g.importedEdge e).delay with
  | none =>
      have same : plain = g.importedEdge e := by
        simp only [plain, ← delay]
      simp only [connected, raised, same]
  | some value =>
      have others : setDelay (g.named e.src) (g.named e.dst) value read.edges = read.edges :=
        setDelay_eq new
      have last : setDelay (g.named e.src) (g.named e.dst) value [plain] = [g.importedEdge e] := by
        have isKey : (plain.src, plain.dst) = (g.named e.src, g.named e.dst) := rfl
        simp only [setDelay, List.map_cons, List.map_nil, isKey, if_true]
        simp only [plain, ← delay]
      have delayed : read.connectWithDelay (g.named e.src) (g.named e.dst) value options =
          .ok { read with edges := read.edges ++ [g.importedEdge e] } := by
        have all : setDelay (g.named e.src) (g.named e.dst) value (read.edges ++ [plain]) =
            read.edges ++ [g.importedEdge e] := by
          rw [setDelay, List.map_append, ← setDelay, ← setDelay, others, last]
        simp only [Graph.connectWithDelay, connected, bind, Except.bind, pure, Except.pure]
        exact congrArg (fun edges => Except.ok { read with edges := edges }) all
      change raised (read.connectWithDelay (g.named e.src) (g.named e.dst) value options) = _
      rw [delayed]
      rfl

omit [DecidableEq ι] in
/-- The edges are connected again, in their order. -/
theorem foldlM_importEdge (edges : List (Edge ι)) (joins : ∀ e ∈ edges, g.Joins e)
    (kept : ∀ e ∈ edges, e.Kept strToClass)
    (finds : ∀ e ∈ edges, g.Finds nodes read e.src ∧ g.Finds nodes read e.dst)
    (default : read.defaultFIFOClass = g.defaultFIFOClass)
    (keys : (read.edges.map Edge.key ++ edges.map fun e => (g.importedEdge e).key).Nodup) :
    (edges.map g.edgeDesc).foldlM (importEdge strToClass nodes) read =
      .ok { read with edges := read.edges ++ edges.map g.importedEdge } := by
  induction edges generalizing read with
  | nil =>
      simp only [List.map_nil, List.append_nil]
      rfl
  | cons e edges ih =>
      have new : (g.importedEdge e).key ∉ read.edges.map Edge.key := by
        intro mem
        rw [List.nodup_append] at keys
        exact keys.2.2 _ mem _ (by simp) rfl
      rcases finds e (by simp) with ⟨findsSrc, findsDst⟩
      have first := importEdge_edgeDesc (joins e (by simp)) (kept e (by simp)) findsSrc findsDst
        default new
      let next : Graph String := { read with edges := read.edges ++ [g.importedEdge e] }
      have nextFinds : ∀ e ∈ edges, g.Finds nodes next e.src ∧ g.Finds nodes next e.dst := by
        intro other mem
        rcases finds other (List.mem_cons_of_mem _ mem) with ⟨src, dst⟩
        exact ⟨⟨src.found, src.node, src.separate⟩, dst.found, dst.node, dst.separate⟩
      have nextKeys : (next.edges.map Edge.key ++
          edges.map fun e => (g.importedEdge e).key).Nodup := by
        simpa [next] using keys
      have rest := ih (fun other mem => joins other (List.mem_cons_of_mem _ mem))
        (fun other mem => kept other (List.mem_cons_of_mem _ mem)) nextFinds default nextKeys
      rw [List.map_cons, List.foldlM_cons, first]
      refine Eq.trans rest ?_
      simp [next]

end Connect

end CmsisStream.Yaml
