import CmsisStream.Yaml.Graph

/-!
# `export_graph`

The description which is written as YAML.  A dictionary is a record, and a key which may be
left out is an optional field.
-/

namespace CmsisStream.Yaml

open Scheduler (NbSamples)

/-! ### The description -/

/-- The value of `buffer-constraint`. -/
structure BufferDesc where
  name : Option String
  mustBeArray : Bool
  assignedByNode : Bool
  canBeShared : Bool
deriving DecidableEq

/-- An item of `inputs` or `outputs`, whose name is the value of `input` or `output`. -/
structure IODesc where
  name : String
  samples : NbSamples
  type : String
  bufferConstraint : Option BufferDesc
deriving DecidableEq

/-- An item of `descriptions`: the name of an IO, or a dictionary. -/
inductive ManyDesc where
  | plain (name : String)
  | described (name : String) (bufferConstraint : BufferDesc)
deriving DecidableEq

/-- The value of `inputs` or `outputs`: a list, or a dictionary for a list of IOs. -/
inductive PortsDesc where
  | each (ios : List IODesc)
  | many (samples : NbSamples) (type : String) (descriptions : List ManyDesc)
deriving DecidableEq

/-- The key which says what a node is, and its value. -/
inductive KindDesc where
  | kind (typeName : String)
  | unary (name : String)
  | binary (name : String)
  | cFunction (name : String) (args : List Arg)
deriving DecidableEq

structure NodeDesc where
  node : String
  identified : Option Bool
  kind : Option KindDesc
  inputs : Option PortsDesc
  outputs : Option PortsDesc
  args : Option (List SchedArg)

structure EdgeDesc where
  srcNode : String
  output : Option String
  dstNode : String
  input : String
  fifoClass : Option String
  scale : Option ℚ
  delay : Option ℤ
  asyncLength : Option ℤ
  weakEdge : Option Bool
  bufferConstraint : Option BufferDesc
deriving DecidableEq

/-- A value of `custom-types`. -/
structure TypeDesc where
  cname : String
  bytes : Option ℕ
  internal : Option String
  shared : Option Bool
deriving DecidableEq

/-- The value of `graph`, with the two values of `options`. -/
structure GraphDesc where
  optionsFIFO : Option String
  optionsDuplicate : Option String
  customTypes : List (String × TypeDesc)
  nodes : List NodeDesc
  edges : List EdgeDesc

inductive ExportError where
  | fifoClassCannotBeString (s : String)
  | attributeError
deriving DecidableEq

/-! ### Types -/

/-- An entry of `structured_datatypes` is never replaced. -/
def addType (key : String) (desc : TypeDesc) (types : List (String × TypeDesc)) :
    List (String × TypeDesc) :=
  if key ∈ types.map Prod.fst then types else types ++ [(key, desc)]

/-- The effect of `_create_YAML_type` on `structured_datatypes`; it returns `ctype`. -/
def createYAMLType (types : List (String × TypeDesc)) : SampleType → List (String × TypeDesc)
  | .cType _ => types
  | .cStructType name bytes | .cCustomType name bytes =>
      addType name ⟨name, some bytes, none, none⟩ types
  | .sharedType refType shared =>
      addType (SampleType.sharedType refType shared).ctype
        ⟨"Shared", none, some refType.ctype, some shared⟩ (createYAMLType types refType)

/-! ### Nodes -/

/-- `_mkBufferConstraint`: an empty name is left out. -/
def mkBufferConstraint (constraint : BufferConstraint) : BufferDesc where
  name := constraint.name.filter fun name => name ≠ ""
  mustBeArray := constraint.mustBeArray
  assignedByNode := constraint.assignedByNode
  canBeShared := constraint.canBeShared

/-- `_create_YAML_IO` -/
def createYAMLPort (io : IOPort) : IODesc where
  name := io.name
  samples := io.nbSamples
  type := io.theType.ctype
  bufferConstraint := io.bufferConstraint.map mkBufferConstraint

/-- An item of `_create_YAML_OUTPUT_LIST_IO` and of `_create_YAML_INPUT_LIST_IO`. -/
def createManyItem (io : String × Option BufferConstraint) : ManyDesc :=
  match io.2 with
  | none => .plain io.1
  | some constraint => .described io.1 (mkBufferConstraint constraint)

/-- The IOs of one side of a node; an empty list is left out. -/
def createPorts : Ports → Option PortsDesc
  | .each [] => none
  | .each ios => some (.each (ios.map createYAMLPort))
  | .many theType length ios => some (.many length theType.ctype (ios.map createManyItem))

/-- `_YAMLNode.yaml` -/
def yamlNode (n : Node) : NodeDesc where
  node := n.nodeID
  identified := some n.identified
  kind :=
    match n.kind with
    | .cpp typeName _ => some (.kind typeName)
    | .unary _ _ => some (.unary n.nodeName)
    | .binary _ _ => some (.binary n.nodeName)
    | .genericFunction _ argsDesc => some (.cFunction n.nodeName argsDesc)
  inputs := createPorts n.inputs
  outputs := createPorts n.outputs
  args := if n.schedArgs.isEmpty then none else some n.schedArgs

/-- `_YAMLConstantNode.yaml` -/
def yamlConstantNode (constant : Constant) : NodeDesc where
  node := constant.name
  identified := none
  kind := none
  inputs := none
  outputs := none
  args := none

/-- The types of the IOs of one side, in the order in which they are scanned. -/
def Ports.types : Ports → List SampleType
  | each ios => ios.map IOPort.theType
  | many theType _ _ => [theType]

/-- The types scanned by `_YAMLNode.yaml`. -/
def Node.types (n : Node) : List SampleType := n.inputs.types ++ n.outputs.types

/-! ### Edges -/

variable {ι : Type}

/-- The name of a class, which is left out for `StreamFIFO`; the empty string is no class. -/
def yamlClass : FIFOClass → Except ExportError (Option String)
  | .streamFIFO => .ok none
  | .user _ name => .ok (some name)
  | .str s => if s = "" then .ok none else .error (.fifoClassCannotBeString s)

/-- `_YAMLEdge.yaml` -/
def yamlEdge (g : Graph ι) (e : Edge ι) : Except ExportError EdgeDesc := do
  let fifoClass ← yamlClass e.fifoClass
  pure
    { srcNode := (g.node e.src.node).nodeID
      output := some e.src.name
      dstNode := (g.node e.dst.node).nodeID
      input := e.dst.name
      fifoClass
      scale := if e.fifoScale = 0 ∨ e.fifoScale = 1 then none else some e.fifoScale
      delay := e.delay.filter fun delay => delay ≠ 0
      asyncLength := e.fifoAsyncLength.filter fun length => length ≠ 0
      weakEdge := if e.weak then some true else none
      bufferConstraint :=
        if ((g.io e.src).bind IOPort.bufferConstraint).isNone ∧
            ((g.io e.dst).bind IOPort.bufferConstraint).isNone then
          e.customBuffer.map mkBufferConstraint
        else none }

/-- `_YAMLConstantEdge.yaml` -/
def yamlConstantEdge (g : Graph ι) (e : Constant × EdgeEnd ι) : EdgeDesc where
  srcNode := e.1.name
  output := none
  dstNode := (g.node e.2.node).nodeID
  input := e.2.name
  fifoClass := none
  scale := none
  delay := none
  asyncLength := none
  weakEdge := none
  bufferConstraint := none

/-! ### Graphs -/

/-- A new key of a dictionary. -/
def addNew {α : Type} [DecidableEq α] (l : List α) (x : α) : List α :=
  if x ∈ l then l else l ++ [x]

/-- The nodes at the ends of the edges, in the order in which they are met. -/
def Graph.endNodes (g : Graph ι) : List (Constant ⊕ ι) :=
  (g.constantEdges.flatMap fun e => [Sum.inl e.1, Sum.inr e.2.node]) ++
    g.edges.flatMap fun e => [Sum.inr e.src.node, Sum.inr e.dst.node]

/-- The keys of `allNodes`. -/
def Graph.allNodes [DecidableEq ι] (g : Graph ι) : List (Constant ⊕ ι) := g.endNodes.foldl addNew []

/-- The description of a node of `allNodes`. -/
def Graph.yamlNode (g : Graph ι) : Constant ⊕ ι → NodeDesc
  | .inl constant => yamlConstantNode constant
  | .inr i => Yaml.yamlNode (g.node i)

/-- The types scanned for a node of `allNodes`. -/
def Graph.types (g : Graph ι) : Constant ⊕ ι → List SampleType
  | .inl _ => []
  | .inr i => (g.node i).types

/-- `options['FIFO']`, if it is given. -/
def optionsFIFO : FIFOClass → Except ExportError (Option String)
  | .streamFIFO => .ok none
  | .user _ name => .ok (some name)
  | .str _ => .error .attributeError

/-- `export_graph` -/
def exportGraph [DecidableEq ι] (g : Graph ι) : Except ExportError GraphDesc := do
  let edges ← g.edges.mapM (yamlEdge g)
  let fifo ← optionsFIFO g.defaultFIFOClass
  pure
    { optionsFIFO := fifo
      optionsDuplicate :=
        if g.duplicateNodeClassName = "Duplicate" then none else some g.duplicateNodeClassName
      customTypes := (g.allNodes.flatMap g.types).foldl createYAMLType []
      nodes := g.allNodes.map g.yamlNode
      edges := g.constantEdges.map (yamlConstantEdge g) ++ edges }

end CmsisStream.Yaml
