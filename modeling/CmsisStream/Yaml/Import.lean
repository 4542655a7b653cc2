import CmsisStream.Yaml.Export
import Mathlib.Data.List.Infix
import Mathlib.Logic.Function.Basic

/-!
# `import_graph`

A graph is built from a description.  The nodes are found by the value of `node`, so that the
last of two nodes with one name is kept.  The number in the name of a function comes from a
counter of its own, which earlier functions of the same Python process have increased.
-/

namespace CmsisStream.Yaml

open Scheduler (NbSamples)

inductive ImportError where
  | keyError (key : String)
  | typeError
  | indexError
  | attributeError
  | cannotFindClass (className : String)
  /-- An IO gets a type of this name, for which `_dataType` returns nothing. -/
  | noType (name : String)
  | graphError (error : GraphError)
deriving DecidableEq

/-- The value of a key which may be missing. -/
def key {α : Type} (name : String) : Option α → Except ImportError α
  | some value => .ok value
  | none => .error (.keyError name)

/-! ### Types -/

/-- `cstruct` -/
abbrev Structs := List (String × SampleType)

/-- The scalar types, in the order of the tests of `_dataType`. -/
def scalars : List CType :=
  [.float64_t, .double, .float32_t, .float, .float16_t, .q31_t, .q15_t, .q7_t, .uint32_t,
    .uint16_t, .uint8_t, .int32_t, .int16_t, .int8_t]

/-- `_dataType` -/
def dataType (cstruct : Structs) (s : String) : Except ImportError SampleType :=
  match scalars.find? fun t => t.ctype = s with
  | some t => .ok (.cType t)
  | none =>
      match cstruct.lookup s with
      | some t => .ok t
      | none => .error (.noType s)

/-- An entry of `custom-types`. -/
def importType (cstruct : Structs) (entry : String × TypeDesc) : Except ImportError Structs := do
  let desc := entry.2
  if desc.cname = "Shared" then
    let internal ← key "internal" desc.internal
    let shared ← key "shared" desc.shared
    let refType ← key internal (cstruct.lookup internal)
    pure (cstruct ++ [(entry.1, .sharedType refType shared)])
  else
    let size ← key "bytes" desc.bytes
    pure (cstruct ++ [(entry.1, .cStructType desc.cname size)])

/-! ### IOs -/

/-- An assignment to the dictionary of the IOs. -/
def setPort (io : IOPort) (ios : List IOPort) : List IOPort :=
  if ios.any fun other => other.name = io.name then
    ios.map fun other => if other.name = io.name then io else other
  else ios ++ [io]

/-- The dictionary of a node which has its own IOs. -/
def Ports.add (io : IOPort) : Ports → Ports
  | each ios => each (setPort io ios)
  | many theType length ios => many theType length ios

/-- `setBufferConstraint` for the IO with a name. -/
def Ports.setConstraint (name : String) (constraint : BufferConstraint) : Ports → Ports
  | each ios => each (ios.map fun io =>
      if io.name = name then { io with bufferConstraint := some constraint } else io)
  | many theType length ios => many theType length (ios.map fun io =>
      if io.1 = name then (io.1, some constraint) else io)

namespace Node

/-- `addInput` or `addOutput` -/
def addPort (n : Node) (isInput : Bool) (io : IOPort) : Node :=
  if isInput then { n with inputs := n.inputs.add io } else { n with outputs := n.outputs.add io }

/-- `self[name].setBufferConstraint` -/
def setBufferConstraint (n : Node) (name : String) (constraint : BufferConstraint) :
    Except ImportError Node :=
  match n.getItem name with
  | some true => .ok { n with inputs := n.inputs.setConstraint name constraint }
  | some false => .ok { n with outputs := n.outputs.setConstraint name constraint }
  | none => .error .indexError

end Node

/-- `_addBufferConstraint` -/
def addBufferConstraint (desc : Option BufferDesc) (n : Node) (name : String) :
    Except ImportError Node :=
  match desc with
  | none => .ok n
  | some desc => do
      let constraintName ← key "name" desc.name
      n.setBufferConstraint name
        ⟨some constraintName, desc.mustBeArray, desc.assignedByNode, desc.canBeShared⟩

/-- `_processInputs` and `_processOutputs`, for one item -/
def processItem (cstruct : Structs) (isInput : Bool) (n : Node) (desc : IODesc) :
    Except ImportError Node := do
  let theType ← dataType cstruct desc.type
  addBufferConstraint desc.bufferConstraint
    (n.addPort isInput ⟨desc.name, theType, desc.samples, none⟩) desc.name

/-- `s in text`, for two strings -/
def isIn (s text : String) : Bool := decide (s.toList <:+: text.toList)

/-- `_get_many_io_names` -/
def getManyIOName : ManyDesc → Except ImportError String
  | .plain name => if isIn "name" name then .error .typeError else .ok name
  | .described name _ => .ok name

/-- `_addBufferConstraint` for an item of a list of IOs, which may be the name itself -/
def addManyConstraint (n : Node) (desc : ManyDesc) : Except ImportError Node := do
  let name ← getManyIOName desc
  match desc with
  | .plain text => if isIn "buffer-constraint" text then .error .typeError else .ok n
  | .described _ constraint => addBufferConstraint (some constraint) n name

/-- The dictionary after `addManyInput` or `addManyOutput`: a name is there once. -/
def manyNames (names : List String) : List (String × Option BufferConstraint) :=
  (names.foldl addNew []).map fun name => (name, none)

/-- `_processListInput` and `_processListOutput` -/
def processList (cstruct : Structs) (isInput : Bool) (n : Node) (samples : NbSamples)
    (type : String) (descriptions : List ManyDesc) : Except ImportError Node := do
  let theType ← dataType cstruct type
  let names ← descriptions.mapM getManyIOName
  let ports := Ports.many theType samples (manyNames names)
  descriptions.foldlM addManyConstraint
    (if isInput then { n with inputs := ports } else { n with outputs := ports })

/-- Items of a dictionary have none of the keys of an IO. -/
def processEach (cstruct : Structs) (isInput : Bool) (n : Node) :
    PortsDesc → Except ImportError Node
  | .each ios => ios.foldlM (processItem cstruct isInput) n
  | .many _ _ _ => .error .typeError

/-- A list has none of the keys of a dictionary. -/
def processMany (cstruct : Structs) (isInput : Bool) (n : Node) :
    PortsDesc → Except ImportError Node
  | .each _ => .error .typeError
  | .many samples type descriptions => processList cstruct isInput n samples type descriptions

/-- `hasListInput` and `hasListOutput`: no item is, or has, the key of an IO. -/
def PortsDesc.hasList : PortsDesc → Bool
  | each ios => ios.isEmpty
  | many _ _ _ => true

/-- The IOs of one side, as `_identifyNodeKind` finds them. -/
def processPorts (cstruct : Structs) (isInput : Bool) (n : Node) (desc : PortsDesc) :
    Except ImportError Node :=
  if desc.hasList then processMany cstruct isInput n desc
  else processEach cstruct isInput n desc

/-! ### Nodes -/

/-- `GenericFunction.NODEID`, where a function which has not been used has 1. -/
abbrev NodeIDs := String → ℕ

/-- What the constructor of a function does to the counters. -/
def NodeIDs.used (counters : NodeIDs) (funcname : String) : NodeIDs :=
  Function.update counters funcname (counters funcname + 1)

/-- `GenericFunction.__init__` -/
def newFunction (counters : NodeIDs) (funcname : String) (kind : NodeKind) : Node :=
  ⟨funcname ++ toString (counters funcname), kind, .each [], .each [], []⟩

/-- `Unary(funcname,theType,length)` -/
def newUnary (counters : NodeIDs) (funcname : String) (theType : SampleType)
    (length : NbSamples) : Node :=
  { newFunction counters funcname
      (.unary funcname [.io "i", .io "o", .argLength "o" true]) with
    inputs := .each [⟨"i", theType, length, none⟩]
    outputs := .each [⟨"o", theType, length, none⟩] }

/-- `Binary(funcname,theType,length)` -/
def newBinary (counters : NodeIDs) (funcname : String) (theType : SampleType)
    (length : NbSamples) : Node :=
  { newFunction counters funcname
      (.binary funcname [.io "ia", .io "ib", .io "o", .argLength "o" true]) with
    inputs := .each [⟨"ia", theType, length, none⟩, ⟨"ib", theType, length, none⟩]
    outputs := .each [⟨"o", theType, length, none⟩] }

/-- The type and the rate of the first input. -/
def firstInput (cstruct : Structs) : PortsDesc → Except ImportError (SampleType × NbSamples)
  | .each (io :: _) => do
      let theType ← dataType cstruct io.type
      pure (theType, io.samples)
  | .each [] => .error .indexError
  | .many _ _ _ => .error (.keyError "0")

/-- The name which `_mkFunctionNode` gives to the function: the variable `name` is used again for
the arguments. -/
def functionName (name : String) (args : List Arg) : String :=
  args.foldl (fun name arg => match arg with
    | .argLength other _ => other
    | _ => name) name

/-- A class node before its IOs are added. -/
def newClassNode (desc : NodeDesc) (typeName : String) (identified : Bool) : Node :=
  ⟨desc.node, .cpp typeName identified, .each [], .each [], []⟩

/-- A node with inputs and outputs, and the counters. -/
def makeNode (cstruct : Structs) (counters : NodeIDs) (desc : NodeDesc) (identified : Bool)
    (inputs outputs : PortsDesc) : KindDesc → Except ImportError (Node × NodeIDs)
  | .kind typeName => do
      let n ← processPorts cstruct true (newClassNode desc typeName identified) inputs
      let n ← processPorts cstruct false n outputs
      pure (n, counters)
  | .unary name => do
      let (theType, length) ← firstInput cstruct inputs
      pure (newUnary counters name theType length, counters.used name)
  | .binary name => do
      let (theType, length) ← firstInput cstruct inputs
      pure (newBinary counters name theType length, counters.used name)
  | .cFunction name args => do
      let funcname := functionName name args
      let n := newFunction counters funcname (.genericFunction funcname args)
      let n ← processEach cstruct true n inputs
      let n ← processEach cstruct false n outputs
      pure (n, counters.used funcname)

/-- `_YamlSink` or `_YamlSource` -/
def makeEnd (cstruct : Structs) (desc : NodeDesc) (identified isInput : Bool)
    (ports : PortsDesc) : Except ImportError Node :=
  match desc.kind with
  | some (.kind typeName) =>
      processEach cstruct isInput (newClassNode desc typeName identified) ports
  | _ => .error (.keyError "kind")

/-- `addLiteralArg` and `addVariableArg`, for one argument -/
def addArg (args : List SchedArg) : SchedArg → List SchedArg
  | .argLiteral (.list items) => args ++ items.map .argLiteral
  | .argLiteral value => args ++ [.argLiteral value]
  | .varLiteral name =>
      if name = "evtQueue" then .varLiteral name :: args else args ++ [.varLiteral name]

/-- `_processArguments` -/
def processArguments (n : Node) (args : Option (List SchedArg)) : Node :=
  { n with schedArgs := (args.getD []).foldl addArg n.schedArgs }

/-- A value of the dictionary `nodes`. -/
inductive Imported where
  | node (n : Node)
  | constant (constant : Constant)

structure ImportState where
  nodes : String → Option Imported
  counters : NodeIDs

/-- The dictionary with one more node. -/
def ImportState.set (s : ImportState) (name : String) (imported : Imported) (counters : NodeIDs) :
    ImportState where
  nodes := Function.update s.nodes name (some imported)
  counters := counters

/-- An item with inputs and outputs which does not say what the node is: its arguments are added to
an earlier node with this name. -/
def addArguments (s : ImportState) (desc : NodeDesc) : Except ImportError ImportState := do
  match ← key desc.node (s.nodes desc.node) with
  | .node n => pure (s.set desc.node (.node (processArguments n desc.args)) s.counters)
  | .constant _ => if (desc.args.getD []).isEmpty then pure s else .error .attributeError

/-- An item of `nodes`. -/
def importNode (cstruct : Structs) (s : ImportState) (desc : NodeDesc) :
    Except ImportError ImportState := do
  let identified ← key "identified" desc.identified
  match desc.inputs, desc.outputs with
  | some inputs, some outputs =>
      match desc.kind with
      | some kind => do
          let (n, counters) ← makeNode cstruct s.counters desc identified inputs outputs kind
          pure (s.set desc.node (.node (processArguments n desc.args)) counters)
      | none => addArguments s desc
  | some inputs, none =>
      let n ← makeEnd cstruct desc identified true inputs
      pure (s.set desc.node (.node (processArguments n desc.args)) s.counters)
  | none, some outputs =>
      let n ← makeEnd cstruct desc identified false outputs
      pure (s.set desc.node (.node (processArguments n desc.args)) s.counters)
  | none, none => pure (s.set desc.node (.constant ⟨0, desc.node⟩) s.counters)

/-! ### Edges -/

/-- `get_class_name` -/
def getClassName (strToClass : String → Option FIFOClass) (className : String) :
    Except ImportError FIFOClass :=
  if className = "StreamFIFO" then .ok .streamFIFO
  else
    match strToClass className with
    | some fifoClass => .ok fifoClass
    | none => .error (.cannotFindClass className)

/-- `dst[i]` or `src[o]` -/
def endOf (name : String) (io : String) : Imported → Except ImportError (EdgeEnd String)
  | .node n =>
      match n.getItem io with
      | some isInput => .ok ⟨name, isInput, io⟩
      | none => .error .indexError
  | .constant _ => .error .typeError

/-- What `connect` raises ends the import. -/
def raised {α : Type} : Except GraphError α → Except ImportError α
  | .ok value => .ok value
  | .error error => .error (.graphError error)

/-- The arguments for the class and the buffer of an edge; what is missing has the default of
this function, which for `fifoAsyncLength` is `None`. -/
def edgeOptions (strToClass : String → Option FIFOClass) (desc : EdgeDesc) :
    Except ImportError ConnectOptions := do
  let fifoClass ← desc.fifoClass.mapM (getClassName strToClass)
  let buffer ← desc.bufferConstraint.mapM fun constraint => key "name" constraint.name
  pure
    { fifoClass
      fifoScale := desc.scale.getD 1
      fifoAsyncLength := desc.asyncLength
      weak := desc.weakEdge.getD false
      buffer
      customBufferMustBeArray := (desc.bufferConstraint.map BufferDesc.mustBeArray).getD true }

/-- An item of `edges`. -/
def importEdge (strToClass : String → Option FIFOClass) (nodes : String → Option Imported)
    (g : Graph String) (desc : EdgeDesc) : Except ImportError (Graph String) := do
  let src ← key desc.srcNode (nodes desc.srcNode)
  let dst ← key desc.dstNode (nodes desc.dstNode)
  let options ← edgeOptions strToClass desc
  match desc.output with
  | some output =>
      let a ← endOf desc.srcNode output src
      let b ← endOf desc.dstNode desc.input dst
      match desc.delay with
      | some delay => raised (g.connectWithDelay a b delay options)
      | none => raised (g.connect a b options)
  | none =>
      let b ← endOf desc.dstNode desc.input dst
      match src, desc.delay with
      | .constant _, some _ => .error (.graphError .cannotDelayConstantError)
      | .constant constant, none => pure (g.connectConstant constant b)
      | .node _, _ => .error .attributeError

/-! ### Graphs -/

/-- What the graph has for a name which is not the one of a node. -/
def noNode : Node := ⟨"", .cpp "" true, .each [], .each [], []⟩

/-- The nodes of the graph, by their names. -/
def ImportState.node (s : ImportState) (name : String) : Node :=
  match s.nodes name with
  | some (.node n) => n
  | _ => noNode

/-- `import_graph`, with the argument `str_to_class` and the counters of the process -/
def importGraph (strToClass : String → Option FIFOClass) (counters : NodeIDs)
    (desc : GraphDesc) : Except ImportError (Graph String) := do
  let fifo ← desc.optionsFIFO.mapM (getClassName strToClass)
  let cstruct ← desc.customTypes.foldlM importType []
  let s ← desc.nodes.foldlM (importNode cstruct) ⟨fun _ => none, counters⟩
  desc.edges.foldlM (importEdge strToClass s.nodes)
    { Graph.empty s.node with
      defaultFIFOClass := fifo.getD .streamFIFO
      duplicateNodeClassName := desc.optionsDuplicate.getD "Duplicate" }

end CmsisStream.Yaml
