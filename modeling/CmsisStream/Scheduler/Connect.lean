import CmsisStream.Dataflow.Loop
import CmsisStream.Scheduler.Graph
import Mathlib.Data.List.Nodup
import Mathlib.Data.Rat.Defs
import Mathlib.Logic.Function.Basic

/-!
# The graph built by the user

`connect` and `connectWithDelay` build the graph edge by edge.  An edge is a pair
of IOs; the class, scale, length, weak flag, delay and buffer constraint recorded
for this pair in the dictionaries of the graph are the fields of one record here,
in the order of `_edges`.  The `fifo` field of an IO is a list of edges while the
graph is built and a single edge after the insertion of the duplicate nodes.
-/

namespace CmsisStream.Scheduler

/-- `CGStaticType`, the type of the samples of an IO. -/
inductive SampleType where
  | cType (typeid : ℕ)
  | cStructType (name : String)
  | cCustomType (name : String)
  | sharedType (refType : SampleType) (shared : Bool)
  | eventType
deriving DecidableEq, Repr

namespace SampleType

/-- `CGStaticType.__eq__`: the shared status is not compared. -/
def equals : SampleType → SampleType → Bool
  | .cType typeid, .cType other => typeid == other
  | .cStructType name, .cStructType other => name == other
  | .cCustomType name, .cCustomType other => name == other
  | .sharedType refType _, .sharedType other _ => refType.equals other
  | .eventType, .eventType => true
  | _, _ => false

/-- `CGStaticType.share` -/
def share : SampleType → SampleType
  | .sharedType refType _ => .sharedType refType true
  | theType => theType

@[simp] theorem equals_self (theType : SampleType) : theType.equals theType = true := by
  induction theType with
  | sharedType refType shared ih => exact ih
  | _ => simp [equals]

@[simp] theorem share_equals (theType other : SampleType) :
    theType.share.equals other = theType.equals other := by
  cases theType <;> cases other <;> rfl

end SampleType

/-- `BufferConstraint.compatibleWith` -/
def BufferConstraint.compatibleWith (constraint other : BufferConstraint) : Bool :=
  constraint.name == other.name && constraint.mustBeArray == other.mustBeArray

/-- The streaming nodes which the user connects and their IOs.  `outputs` lists the
outputs of a node in the order of `_outputs`. -/
structure StreamingNodes (N O I : Type) where
  owner : O → N
  inputOwner : I → N
  outputs : N → List O
  outputs_nodup : ∀ n, (outputs n).Nodup
  mem_outputs : ∀ n output, output ∈ outputs n ↔ owner output = n
  outputType : O → SampleType
  inputType : I → SampleType
  nbSamples : O → NbSamples
  outputConstraint : O → Option BufferConstraint
  inputConstraint : I → Option BufferConstraint

/-- A node of the user, or the duplicate node with a given number. -/
inductive GraphNode (N : Type) where
  | node (n : N)
  | duplicate (d : ℕ)
deriving DecidableEq, Repr

/-- An output of a node, or an output of a duplicate node with its index. -/
inductive GraphOutput (O : Type) where
  | output (a : O)
  | duplicate (d i : ℕ)
deriving DecidableEq, Repr

/-- An input of a node, or the input `i` of a duplicate node. -/
inductive GraphInput (I : Type) where
  | input (b : I)
  | duplicate (d : ℕ)
deriving DecidableEq, Repr

/-- The arguments of `Duplicate(name,theType,inLength,nb)`; the number in the name is the
position in the list of duplicate nodes. -/
structure Duplicate where
  theType : SampleType
  inLength : NbSamples
  nb : ℕ
deriving DecidableEq, Repr

/-- A key of `_edges` and what the graph records about it. -/
structure FIFOEdge (O I F : Type) where
  src : GraphOutput O
  dst : GraphInput I
  fifoClass : F
  fifoScale : ℚ
  fifoAsyncLength : ℤ
  weak : Bool
  delay : Option ℤ
  customBuffer : Option BufferConstraint
  inherited : Bool
deriving DecidableEq

/-- A pair of IOs, the key of the dictionaries. -/
abbrev EdgeKey (O I : Type) := GraphOutput O × GraphInput I

namespace FIFOEdge

variable {O I F : Type}

/-- The pair of IOs of the edge. -/
def key (e : FIFOEdge O I F) : EdgeKey O I := (e.src, e.dst)

/-- The delay of the edge: no entry in `_delays` is a delay of zero. -/
def delayValue (e : FIFOEdge O I F) : ℤ := e.delay.getD 0

/-- The edge has a buffer constraint which does not come from one of its IOs. -/
def ownConstraint (e : FIFOEdge O I F) : Bool := e.customBuffer.isSome && !e.inherited

end FIFOEdge

/-- The `fifo` field of an IO. -/
inductive IOFifo (O I : Type) where
  | none
  | list (edges : List (EdgeKey O I))
  | edge (key : EdgeKey O I)
deriving DecidableEq, Repr

/-- What building or rewriting a graph can raise. -/
inductive GraphError (O I : Type) where
  | incompatibleIOs (a : GraphOutput O) (b : GraphInput I)
  | bufferConstraintOnIOAreIncompatibles (a : GraphOutput O) (b : GraphInput I)
  | cannotDelayConstantError
  | cantHaveBufferConstraintOnFIFOWhenDuplicateIsInserted (a : GraphOutput O) (b : GraphInput I)
  | attributeError
  | typeError
  | keyError
  | valueError
deriving DecidableEq, Repr

/-- The state of `Graph` which these functions use. -/
structure ConnectedGraph (N O I F : Type) where
  /-- The nodes of `_g`. -/
  nodes : List (GraphNode N)
  edges : List (FIFOEdge O I F)
  constantEdges : List (String × I)
  outputFifo : GraphOutput O → IOFifo O I
  inputFifo : GraphInput I → IOFifo O I
  duplicates : List Duplicate
  defaultFIFOClass : F

/-- The optional arguments of `connect`.  A constraint made from `buffer` is a new object,
whose identity is given with its name. -/
structure ConnectOptions (F : Type) where
  fifoClass : Option F
  fifoScale : ℚ
  fifoAsyncLength : ℤ
  weak : Bool
  buffer : Option (ℕ × String)
  customBufferMustBeArray : Bool

/-- The arguments of `connect` which are left out by the caller. -/
def ConnectOptions.default (F : Type) : ConnectOptions F where
  fifoClass := none
  fifoScale := 1
  fifoAsyncLength := 0
  weak := false
  buffer := none
  customBufferMustBeArray := true

/-- The constraint made from `buffer` and `customBufferMustBeArray`. -/
def ConnectOptions.constraint {F : Type} (options : ConnectOptions F) : Option BufferConstraint :=
  options.buffer.map fun (object, name) =>
    { object, name := some name, mustBeArray := options.customBufferMustBeArray,
      assignedByNode := false, canBeShared := true }

namespace IOFifo

variable {O I : Type}

/-- The new `fifo` field of an IO which is connected. -/
def connected (fifo : IOFifo O I) (key : EdgeKey O I) (dupAllowed : Bool) :
    Except (GraphError O I) (IOFifo O I) :=
  if dupAllowed then
    match fifo with
    | .list edges => .ok (.list (edges ++ [key]))
    | _ => .error .attributeError
  else .ok (.edge key)

end IOFifo

namespace ConnectedGraph

variable {N O I F : Type}

/-- `Graph()` -/
def empty (defaultFIFOClass : F) : ConnectedGraph N O I F where
  nodes := []
  edges := []
  constantEdges := []
  outputFifo := fun _ => .list []
  inputFifo := fun _ => .list []
  duplicates := []
  defaultFIFOClass

variable (ios : StreamingNodes N O I) (g : ConnectedGraph N O I F)

/-- The node of an output. -/
def outputOwner : GraphOutput O → GraphNode N
  | .output a => .node (ios.owner a)
  | .duplicate d _ => .duplicate d

/-- The node of an input. -/
def inputOwner : GraphInput I → GraphNode N
  | .input b => .node (ios.inputOwner b)
  | .duplicate d => .duplicate d

/-- The constraint set on an output; the outputs of a duplicate node have none. -/
def outputConstraint : GraphOutput O → Option BufferConstraint
  | .output a => ios.outputConstraint a
  | .duplicate _ _ => none

/-- The constraint set on an input. -/
def inputConstraint : GraphInput I → Option BufferConstraint
  | .input b => ios.inputConstraint b
  | .duplicate _ => none

/-- The type of an output; the outputs of a duplicate node share the samples. -/
def outputType : GraphOutput O → Option SampleType
  | .output a => some (ios.outputType a)
  | .duplicate d _ => (g.duplicates[d]?).map fun dup => dup.theType.share

/-- The type of an input. -/
def inputType : GraphInput I → Option SampleType
  | .input b => some (ios.inputType b)
  | .duplicate d => (g.duplicates[d]?).map Duplicate.theType

/-- `IO.compatible` -/
def compatible (a : GraphOutput O) (b : GraphInput I) : Bool :=
  match g.outputType ios a, g.inputType ios b with
  | some outputType, some inputType => outputType.equals inputType
  | _, _ => false

/-- Both IOs have a constraint and these are not compatible. -/
def constraintsConflict (a : GraphOutput O) (b : GraphInput I) : Bool :=
  match outputConstraint ios a, inputConstraint ios b with
  | some constraint, some other => !constraint.compatibleWith other
  | _, _ => false

/-- The nodes after `add_edge`: a node is added once. -/
def addNode [DecidableEq N] (n : GraphNode N) (nodes : List (GraphNode N)) : List (GraphNode N) :=
  if n ∈ nodes then nodes else nodes ++ [n]

variable [DecidableEq N] [DecidableEq O] [DecidableEq I]

/-- The constraint and the inherited flag recorded for an edge that is connected, from
those recorded before for this pair of IOs. -/
def recordedConstraint (a : GraphOutput O) (b : GraphInput I) (own : Option BufferConstraint)
    (before : Option BufferConstraint × Bool) : Option BufferConstraint × Bool :=
  match outputConstraint ios a, inputConstraint ios b, own with
  | some constraint, _, _ => (some constraint, true)
  | none, some constraint, _ => (some constraint, true)
  | none, none, some constraint => (some constraint, false)
  | none, none, none => before

/-- The record of an edge that is connected; a pair of IOs connected once more keeps its
delay. -/
def connectedEdge (a : GraphOutput O) (b : GraphInput I) (options : ConnectOptions F)
    (before : Option (FIFOEdge O I F)) : FIFOEdge O I F :=
  let constraint := recordedConstraint ios a b options.constraint
    ((before.bind FIFOEdge.customBuffer), (before.map FIFOEdge.inherited).getD false)
  { src := a
    dst := b
    fifoClass := options.fifoClass.getD g.defaultFIFOClass
    fifoScale := options.fifoScale
    fifoAsyncLength := options.fifoAsyncLength
    weak := options.weak
    delay := before.bind FIFOEdge.delay
    customBuffer := constraint.1
    inherited := constraint.2 }

/-- What is recorded for a pair of IOs. -/
def edge? (key : EdgeKey O I) : Option (FIFOEdge O I F) :=
  g.edges.find? fun e => e.key = key

/-- The edges after an assignment to the dictionaries: a key which is there keeps its
place. -/
def setEdge (e : FIFOEdge O I F) (edges : List (FIFOEdge O I F)) : List (FIFOEdge O I F) :=
  if edges.any (fun other => other.key = e.key) then
    edges.map fun other => if other.key = e.key then e else other
  else edges ++ [e]

/-- `Graph.connect` between two streaming IOs -/
def connect (a : GraphOutput O) (b : GraphInput I) (dupAllowed : Bool)
    (options : ConnectOptions F) :
    Except (GraphError O I) (ConnectedGraph N O I F) :=
  if g.compatible ios a b then
    if constraintsConflict ios a b then .error (.bufferConstraintOnIOAreIncompatibles a b)
    else do
      let outputFifo ← (g.outputFifo a).connected (a, b) dupAllowed
      let inputFifo ← (g.inputFifo b).connected (a, b) dupAllowed
      pure { g with
        nodes := addNode (inputOwner ios b) (addNode (outputOwner ios a) g.nodes)
        outputFifo := Function.update g.outputFifo a outputFifo
        inputFifo := Function.update g.inputFifo b inputFifo
        edges := setEdge (g.connectedEdge ios a b options (g.edge? (a, b))) g.edges }
  else .error (.incompatibleIOs a b)

/-- `Graph.connectWithDelay` between two streaming IOs -/
def connectWithDelay (a : GraphOutput O) (b : GraphInput I) (delay : ℤ) (dupAllowed : Bool)
    (options : ConnectOptions F) : Except (GraphError O I) (ConnectedGraph N O I F) := do
  let g ← g.connect ios a b dupAllowed options
  pure { g with
    edges := g.edges.map fun e => if e.key = (a, b) then { e with delay := some delay } else e }

/-- The graph with one more edge, whose IOs get new `fifo` fields. -/
def appendEdge (e : FIFOEdge O I F) (outputFifo inputFifo : IOFifo O I) :
    ConnectedGraph N O I F :=
  { g with
    nodes := addNode (inputOwner ios e.dst) (addNode (outputOwner ios e.src) g.nodes)
    outputFifo := Function.update g.outputFifo e.src outputFifo
    inputFifo := Function.update g.inputFifo e.dst inputFifo
    edges := g.edges ++ [e] }

/-- The edge recorded for two IOs which were not connected. -/
def newEdge (a : GraphOutput O) (b : GraphInput I) (options : ConnectOptions F) (delay : Option ℤ) :
    FIFOEdge O I F :=
  { g.connectedEdge ios a b options none with delay }

variable {ios g}

omit [DecidableEq N] in
theorem edge?_eq_none {key : EdgeKey O I} (newKey : ∀ e ∈ g.edges, e.key ≠ key) :
    g.edge? key = none := by
  simpa [edge?] using newKey

omit [DecidableEq N] in
theorem setEdge_of_new {e : FIFOEdge O I F} {edges : List (FIFOEdge O I F)}
    (newKey : ∀ other ∈ edges, other.key ≠ e.key) : setEdge e edges = edges ++ [e] := by
  rw [setEdge, if_neg]
  simpa using newKey

/-- Connecting two IOs for the first time appends an edge. -/
theorem connect_new {a : GraphOutput O} {b : GraphInput I} {dupAllowed : Bool}
    {options : ConnectOptions F} (newKey : ∀ e ∈ g.edges, e.key ≠ (a, b)) :
    g.connect ios a b dupAllowed options =
      if g.compatible ios a b then
        if constraintsConflict ios a b then .error (.bufferConstraintOnIOAreIncompatibles a b)
        else do
          let outputFifo ← (g.outputFifo a).connected (a, b) dupAllowed
          let inputFifo ← (g.inputFifo b).connected (a, b) dupAllowed
          pure (g.appendEdge ios (g.newEdge ios a b options none) outputFifo inputFifo)
      else .error (.incompatibleIOs a b) := by
  rw [connect, edge?_eq_none newKey, setEdge_of_new newKey]
  rfl

theorem connectWithDelay_new {a : GraphOutput O} {b : GraphInput I} {delay : ℤ} {dupAllowed : Bool}
    {options : ConnectOptions F} (newKey : ∀ e ∈ g.edges, e.key ≠ (a, b)) :
    g.connectWithDelay ios a b delay dupAllowed options =
      if g.compatible ios a b then
        if constraintsConflict ios a b then .error (.bufferConstraintOnIOAreIncompatibles a b)
        else do
          let outputFifo ← (g.outputFifo a).connected (a, b) dupAllowed
          let inputFifo ← (g.inputFifo b).connected (a, b) dupAllowed
          pure (g.appendEdge ios (g.newEdge ios a b options (some delay)) outputFifo inputFifo)
      else .error (.incompatibleIOs a b) := by
  have keptEdges : g.edges.map (fun e => if e.key = (a, b) then { e with delay := some delay }
      else e) = g.edges :=
    (List.map_congr_left fun e eMem => if_neg (newKey e eMem)).trans (List.map_id _)
  have keyEq : (g.newEdge ios a b options none).key = (a, b) := rfl
  rw [connectWithDelay, connect_new newKey]
  split_ifs with compatible conflict
  · rfl
  · rcases (g.outputFifo a).connected (a, b) dupAllowed with error | outputFifo
    · rfl
    · rcases (g.inputFifo b).connected (a, b) dupAllowed with error | inputFifo
      · rfl
      · change Except.ok _ = Except.ok _
        simp only [appendEdge, List.map_append, keptEdges, List.map_cons, keyEq, if_true,
          List.map_nil]
        rfl
  · rfl

end ConnectedGraph

/-- What the user does with a graph before its schedule is computed. -/
inductive BuildStep (O I F : Type) where
  | connect (a : O) (b : I) (options : ConnectOptions F)
  | connectWithDelay (a : O) (b : I) (delay : ℤ) (options : ConnectOptions F)
  | connectConstant (constant : String) (b : I)
  | connectConstantWithDelay (constant : String) (b : I) (delay : ℤ)
  | setDefaultFIFOClass (fifoClass : F)

namespace BuildStep

variable {N O I F : Type}

/-- The pair of IOs which gets an edge. -/
def key : BuildStep O I F → Option (EdgeKey O I)
  | .connect a b _ => some (.output a, .input b)
  | .connectWithDelay a b _ _ => some (.output a, .input b)
  | _ => none

variable [DecidableEq N] [DecidableEq O] [DecidableEq I]

/-- The effect of a step on the graph. -/
def run (ios : StreamingNodes N O I) (g : ConnectedGraph N O I F) :
    BuildStep O I F → Except (GraphError O I) (ConnectedGraph N O I F)
  | .connect a b options => g.connect ios (.output a) (.input b) true options
  | .connectWithDelay a b delay options =>
      g.connectWithDelay ios (.output a) (.input b) delay true options
  | .connectConstant constant b =>
      .ok { g with
        constantEdges :=
          if (constant, b) ∈ g.constantEdges then g.constantEdges
          else g.constantEdges ++ [(constant, b)] }
  | .connectConstantWithDelay _ _ _ => .error .cannotDelayConstantError
  | .setDefaultFIFOClass fifoClass => .ok { g with defaultFIFOClass := fifoClass }

/-- The graph built by some steps. -/
def build (ios : StreamingNodes N O I) (defaultFIFOClass : F) (steps : List (BuildStep O I F)) :
    Except (GraphError O I) (ConnectedGraph N O I F) :=
  steps.foldlM (BuildStep.run ios) (ConnectedGraph.empty defaultFIFOClass)

end BuildStep

namespace ConnectedGraph

variable {N O I F : Type} [DecidableEq N] [DecidableEq O] [DecidableEq I]

/-- The edges leaving an output. -/
def edgesFrom (g : ConnectedGraph N O I F) (a : GraphOutput O) : List (FIFOEdge O I F) :=
  g.edges.filter fun e => e.src = a

/-- The edges entering an input. -/
def edgesInto (g : ConnectedGraph N O I F) (b : GraphInput I) : List (FIFOEdge O I F) :=
  g.edges.filter fun e => e.dst = b

/-- A graph of the user, who connects no pair of IOs twice. -/
structure WellConnected (ios : StreamingNodes N O I) (g : ConnectedGraph N O I F) : Prop where
  nodesNodup : g.nodes.Nodup
  nodesUser : ∀ node ∈ g.nodes, ∃ n, node = .node n
  source : ∀ e ∈ g.edges, ∃ a, e.src = .output a
  destination : ∀ e ∈ g.edges, ∃ b, e.dst = .input b
  compatible : ∀ e ∈ g.edges, g.compatible ios e.src e.dst = true
  consistent : ∀ e ∈ g.edges, constraintsConflict ios e.src e.dst = false
  constraint : ∀ e ∈ g.edges, ∃ own,
    (e.customBuffer, e.inherited) = recordedConstraint ios e.src e.dst own (none, false)
  owners : ∀ e ∈ g.edges, outputOwner ios e.src ∈ g.nodes ∧ inputOwner ios e.dst ∈ g.nodes
  outputFifo : ∀ a, g.outputFifo a = .list ((g.edgesFrom a).map FIFOEdge.key)
  inputFifo : ∀ b, g.inputFifo b = .list ((g.edgesInto b).map FIFOEdge.key)
  keys : (g.edges.map FIFOEdge.key).Nodup
  duplicates : g.duplicates = []

variable {ios : StreamingNodes N O I} {g : ConnectedGraph N O I F}

omit [DecidableEq O] [DecidableEq I] in
theorem mem_addNode {n m : GraphNode N} {nodes : List (GraphNode N)} :
    m ∈ addNode n nodes ↔ m ∈ nodes ∨ m = n := by
  unfold addNode
  split_ifs with present
  · constructor
    · exact .inl
    · rintro (mem | rfl)
      · exact mem
      · exact present
  · simp

omit [DecidableEq O] [DecidableEq I] in
theorem addNode_of_mem {n : GraphNode N} {nodes : List (GraphNode N)} (present : n ∈ nodes) :
    addNode n nodes = nodes :=
  if_pos present

omit [DecidableEq O] [DecidableEq I] in
theorem nodup_addNode {n : GraphNode N} {nodes : List (GraphNode N)} (nodup : nodes.Nodup) :
    (addNode n nodes).Nodup := by
  unfold addNode
  split_ifs with present
  · exact nodup
  · exact List.nodup_append.mpr ⟨nodup, List.nodup_singleton n, by
      rintro m mMem _ (_ | _) rfl
      · exact present mMem
      · contradiction⟩

/-- The next edge of a graph of the user. -/
theorem WellConnected.appendEdge (connected : WellConnected ios g) {e : FIFOEdge O I F}
    {a : O} {b : I} (srcEq : e.src = .output a) (dstEq : e.dst = .input b)
    (compatible : g.compatible ios e.src e.dst = true)
    (consistent : constraintsConflict ios e.src e.dst = false)
    (constraint : ∃ own,
      (e.customBuffer, e.inherited) = recordedConstraint ios e.src e.dst own (none, false))
    (fresh : e.key ∉ g.edges.map FIFOEdge.key) :
    WellConnected ios (g.appendEdge ios e
      (.list ((g.edgesFrom e.src).map FIFOEdge.key ++ [e.key]))
      (.list ((g.edgesInto e.dst).map FIFOEdge.key ++ [e.key]))) := by
  have everyEdge : ∀ {P : FIFOEdge O I F → Prop}, (∀ other ∈ g.edges, P other) → P e →
      ∀ other ∈ g.edges ++ [e], P other := by
    intro P old new other otherMem
    rcases List.mem_append.mp otherMem with mem | mem
    · exact old other mem
    · rwa [List.mem_singleton.mp mem]
  exact
    { nodesNodup := nodup_addNode (nodup_addNode connected.nodesNodup)
      nodesUser := by
        intro node nodeMem
        rcases mem_addNode.mp nodeMem with mem | rfl
        · rcases mem_addNode.mp mem with old | rfl
          · exact connected.nodesUser node old
          · exact ⟨ios.owner a, by rw [srcEq]; rfl⟩
        · exact ⟨ios.inputOwner b, by rw [dstEq]; rfl⟩
      source := everyEdge connected.source ⟨a, srcEq⟩
      destination := everyEdge connected.destination ⟨b, dstEq⟩
      compatible := everyEdge connected.compatible compatible
      consistent := everyEdge connected.consistent consistent
      constraint := everyEdge connected.constraint constraint
      owners := by
        apply everyEdge
        · intro other otherMem
          have owners := connected.owners other otherMem
          exact ⟨mem_addNode.mpr (.inl (mem_addNode.mpr (.inl owners.1))),
            mem_addNode.mpr (.inl (mem_addNode.mpr (.inl owners.2)))⟩
        · exact ⟨mem_addNode.mpr (.inl (mem_addNode.mpr (.inr rfl))), mem_addNode.mpr (.inr rfl)⟩
      outputFifo := by
        intro other
        change Function.update g.outputFifo e.src _ other = _
        by_cases same : other = e.src
        · subst same
          simp [edgesFrom, ConnectedGraph.appendEdge, List.filter_append]
        · rw [Function.update_of_ne same, connected.outputFifo]
          simp [edgesFrom, ConnectedGraph.appendEdge, List.filter_append, Ne.symm same]
      inputFifo := by
        intro other
        change Function.update g.inputFifo e.dst _ other = _
        by_cases same : other = e.dst
        · subst same
          simp [edgesInto, ConnectedGraph.appendEdge, List.filter_append]
        · rw [Function.update_of_ne same, connected.inputFifo]
          simp [edgesInto, ConnectedGraph.appendEdge, List.filter_append, Ne.symm same]
      keys := by
        change ((g.edges ++ [e]).map FIFOEdge.key).Nodup
        rw [List.map_append]
        exact List.nodup_append.mpr ⟨connected.keys, List.nodup_singleton _, by
          rintro key keyMem _ (_ | _) rfl
          · exact fresh keyMem
          · contradiction⟩
      duplicates := connected.duplicates }

/-- What a connection that is accepted does to a graph of the user. -/
theorem WellConnected.connected (connected : WellConnected ios g) {a : O} {b : I}
    (fresh : (GraphOutput.output a, GraphInput.input b) ∉ g.edges.map FIFOEdge.key)
    {options : ConnectOptions F}
    {delay : Option ℤ} {next : ConnectedGraph N O I F}
    (ok : (if g.compatible ios (.output a) (.input b) then
        if constraintsConflict ios (.output a) (.input b) then
          .error (.bufferConstraintOnIOAreIncompatibles (.output a) (.input b))
        else do
          let outputFifo ← (g.outputFifo (.output a)).connected (.output a, .input b) true
          let inputFifo ← (g.inputFifo (.input b)).connected (.output a, .input b) true
          pure (g.appendEdge ios (g.newEdge ios (.output a) (.input b) options delay)
            outputFifo inputFifo)
      else .error (.incompatibleIOs (.output a) (.input b))) = Except.ok next) :
    WellConnected ios next ∧
      next.edges.map FIFOEdge.key = g.edges.map FIFOEdge.key ++ [(.output a, .input b)] := by
  rw [connected.outputFifo, connected.inputFifo] at ok
  split_ifs at ok with compatible conflict
  obtain rfl := Except.ok.inj ok
  refine ⟨connected.appendEdge rfl rfl compatible (Bool.not_eq_true _ ▸ conflict)
    ⟨options.constraint, rfl⟩ fresh, ?_⟩
  exact List.map_append

/-- The graph built by steps which connect a pair of IOs at most once. -/
theorem WellConnected.of_build {defaultFIFOClass : F} {steps : List (BuildStep O I F)}
    (connectedOnce : (steps.filterMap BuildStep.key).Nodup)
    (built : BuildStep.build ios defaultFIFOClass steps = .ok g) : WellConnected ios g := by
  have run := Dataflow.foldlM_invariant
    (P := fun (done : List (BuildStep O I F)) (h : ConnectedGraph N O I F) =>
      (done.filterMap BuildStep.key).Nodup → WellConnected ios h ∧
        h.edges.map FIFOEdge.key = done.filterMap BuildStep.key)
    (f := BuildStep.run ios) (l := steps) (s := empty defaultFIFOClass) ?_ ?_ built
  · exact (run connectedOnce).1
  · intro done step h next holds stepsTo nodup
    rw [List.filterMap_append] at nodup
    rcases holds (List.nodup_append.mp nodup).1 with ⟨connected, keys⟩
    have fresh : ∀ key, step.key = some key → key ∉ h.edges.map FIFOEdge.key := by
      intro key isKey mem
      rw [keys] at mem
      exact (List.nodup_append.mp nodup).2.2 key mem key (by simp [isKey]) rfl
    have newKey : ∀ key, step.key = some key → ∀ e ∈ h.edges, e.key ≠ key := by
      intro key isKey e eMem same
      exact fresh key isKey (List.mem_map.mpr ⟨e, eMem, same⟩)
    cases step with
    | connect a b options =>
        rw [BuildStep.run, connect_new (newKey _ rfl)] at stepsTo
        have after := connected.connected (fresh _ rfl) stepsTo
        exact ⟨after.1, by rw [after.2, keys]; simp [BuildStep.key]⟩
    | connectWithDelay a b delay options =>
        rw [BuildStep.run, connectWithDelay_new (newKey _ rfl)] at stepsTo
        have after := connected.connected (fresh _ rfl) stepsTo
        exact ⟨after.1, by rw [after.2, keys]; simp [BuildStep.key]⟩
    | connectConstant constant b =>
        obtain rfl := Except.ok.inj stepsTo
        refine ⟨{ connected with }, ?_⟩
        simpa [List.filterMap_cons, BuildStep.key] using keys
    | connectConstantWithDelay constant b delay => simp [BuildStep.run] at stepsTo
    | setDefaultFIFOClass fifoClass =>
        obtain rfl := Except.ok.inj stepsTo
        refine ⟨{ connected with }, ?_⟩
        simpa [List.filterMap_cons, BuildStep.key] using keys
  · intro _
    refine ⟨?_, rfl⟩
    constructor <;> simp [empty, edgesFrom, edgesInto]

end ConnectedGraph

end CmsisStream.Scheduler
