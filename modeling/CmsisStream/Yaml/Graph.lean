import CmsisStream.Scheduler.Graph
import Mathlib.Data.List.Nodup
import Mathlib.Data.Rat.Defs

/-!
# The graph which is exported

The nodes, types and edges as Python objects, with the attributes that the YAML format
describes.  The IOs of a node and their constraints are set before the node is connected.  A
node may have IOs of its own, or a list of IOs which have one type and one length.  There are no
event IOs, no event connections and no selectors: `export_graph` and `import_graph` ignore them.
-/

namespace CmsisStream.Yaml

open Scheduler (NbSamples)

/-- `CType`, by its name in C.  The flag `cmsis_dsp` chooses between the two names of `F64` and
of `F32`, and has no effect for the others. -/
inductive CType where
  | float64_t | double | float32_t | float | float16_t | q31_t | q15_t | q7_t
  | uint32_t | uint16_t | uint8_t | int32_t | int16_t | int8_t
deriving DecidableEq

namespace CType

def ctype : CType → String
  | float64_t => "float64_t"
  | double => "double"
  | float32_t => "float32_t"
  | float => "float"
  | float16_t => "float16_t"
  | q31_t => "q31_t"
  | q15_t => "q15_t"
  | q7_t => "q7_t"
  | uint32_t => "uint32_t"
  | uint16_t => "uint16_t"
  | uint8_t => "uint8_t"
  | int32_t => "int32_t"
  | int16_t => "int16_t"
  | int8_t => "int8_t"

/-- The number of the type, which is what `__eq__` compares. -/
def typeid : CType → ℕ
  | float64_t | double => 1
  | float32_t | float => 2
  | float16_t => 3
  | q31_t => 4
  | q15_t => 5
  | q7_t => 6
  | uint32_t => 7
  | uint16_t => 8
  | uint8_t => 9
  | int32_t => 10
  | int16_t => 11
  | int8_t => 12

end CType

/-- `CGStaticType`, the type of the samples of an IO. -/
inductive SampleType where
  | cType (t : CType)
  | cStructType (name : String) (bytes : ℕ)
  | cCustomType (name : String) (bytes : ℕ)
  | sharedType (refType : SampleType) (shared : Bool)
deriving DecidableEq

namespace SampleType

def ctype : SampleType → String
  | cType t => t.ctype
  | cStructType name _ | cCustomType name _ => name
  | sharedType refType shared =>
      "Shared<" ++ refType.ctype ++ "," ++ (if shared then "true" else "false") ++ ">"

/-- `__eq__`: neither the sizes nor the shared status are compared. -/
def equals : SampleType → SampleType → Bool
  | cType t, cType other => t.typeid == other.typeid
  | cStructType name _, cStructType other _ => name == other
  | cCustomType name _, cCustomType other _ => name == other
  | sharedType refType _, sharedType other _ => refType.equals other
  | _, _ => false

end SampleType

structure BufferConstraint where
  name : Option String
  mustBeArray : Bool
  assignedByNode : Bool
  canBeShared : Bool
deriving DecidableEq

/-- `BufferConstraint.compatibleWith` -/
def BufferConstraint.compatibleWith (constraint other : BufferConstraint) : Bool :=
  constraint.name == other.name && constraint.mustBeArray == other.mustBeArray

/-- `IO` -/
structure IOPort where
  name : String
  theType : SampleType
  nbSamples : NbSamples
  bufferConstraint : Option BufferConstraint
deriving DecidableEq

/-- The dictionary `_inputs` or `_outputs` of a node. -/
inductive Ports where
  /-- Filled by `addInput` or `addOutput`. -/
  | each (ios : List IOPort)
  /-- Filled by `addManyInput` or `addManyOutput`. -/
  | many (theType : SampleType) (length : NbSamples) (ios : List (String × Option BufferConstraint))
deriving DecidableEq

def Ports.list : Ports → List IOPort
  | each ios => ios
  | many theType length ios => ios.map fun io => ⟨io.1, theType, length, io.2⟩

/-- An entry of `_argsDesc`: the name of an IO, the number of an argument, or `ArgLength`. -/
inductive Arg where
  | io (name : String)
  | args (number : ℤ)
  | argLength (name : String) (sample_unit : Bool)
deriving DecidableEq

/-- What an `ArgLiteral` may be. -/
inductive Literal where
  | str (s : String)
  | int (n : ℤ)
  | float (x : ℚ)
  | bool (b : Bool)
  | list (items : List Literal)

inductive SchedArg where
  | argLiteral (value : Literal)
  | varLiteral (name : String)

/-- The class of a node. -/
inductive NodeKind where
  /-- A class node, with the name of its C++ class. -/
  | cpp (typeName : String) (identified : Bool)
  | unary (funcname : String) (argsDesc : List Arg)
  | binary (funcname : String) (argsDesc : List Arg)
  | genericFunction (funcname : String) (argsDesc : List Arg)
deriving DecidableEq

structure Node where
  nodeID : String
  kind : NodeKind
  inputs : Ports
  outputs : Ports
  schedArgs : List SchedArg

namespace Node

/-- The name of a class node is its identifier, and the one of a function is the function. -/
def nodeName (n : Node) : String :=
  match n.kind with
  | .cpp _ _ => n.nodeID
  | .unary funcname _ | .binary funcname _ | .genericFunction funcname _ => funcname

/-- A function is never identified. -/
def identified (n : Node) : Bool :=
  match n.kind with
  | .cpp _ identified => identified
  | _ => false

/-- The IOs of one side. -/
def ios (n : Node) (isInput : Bool) : List IOPort :=
  if isInput then n.inputs.list else n.outputs.list

def findPort (n : Node) (isInput : Bool) (name : String) : Option IOPort :=
  (n.ios isInput).find? fun io => io.name = name

/-- `__getitem__`: the side on which a name is found, inputs first. -/
def getItem (n : Node) (name : String) : Option Bool :=
  if (n.findPort true name).isSome then some true
  else if (n.findPort false name).isSome then some false
  else none

end Node

/-- An IO of a node of the graph. -/
structure EdgeEnd (ι : Type) where
  node : ι
  isInput : Bool
  name : String
deriving DecidableEq

inductive FIFOClass where
  | streamFIFO
  /-- A class of the user, with its `__name__`. -/
  | user (object : ℕ) (name : String)
  /-- A string instead of a class. -/
  | str (s : String)
deriving DecidableEq

/-- A key of `_edges` and what the graph records for it. -/
structure Edge (ι : Type) where
  src : EdgeEnd ι
  dst : EdgeEnd ι
  fifoClass : FIFOClass
  fifoScale : ℚ
  /-- `None` is `none`. -/
  fifoAsyncLength : Option ℤ
  weak : Bool
  delay : Option ℤ
  customBuffer : Option BufferConstraint
  inherited : Bool
deriving DecidableEq

structure Constant where
  object : ℕ
  name : String
deriving DecidableEq

/-- `Graph`.  The nodes are Python objects, so that two nodes may have one name. -/
structure Graph (ι : Type) where
  node : ι → Node
  constantEdges : List (Constant × EdgeEnd ι)
  edges : List (Edge ι)
  defaultFIFOClass : FIFOClass
  duplicateNodeClassName : String

/-! ### Building a graph -/

/-- The optional arguments of `connect`. -/
structure ConnectOptions where
  fifoClass : Option FIFOClass
  fifoScale : ℚ
  fifoAsyncLength : Option ℤ
  weak : Bool
  buffer : Option String
  customBufferMustBeArray : Bool

inductive GraphError where
  | incompatibleIOs
  | bufferConstraintOnIOAreIncompatibles
  | cannotDelayConstantError
  /-- The node has no such IO. -/
  | indexError
deriving DecidableEq

/-- The constraint made from `buffer` and `customBufferMustBeArray`. -/
def ConnectOptions.constraint (options : ConnectOptions) : Option BufferConstraint :=
  options.buffer.map fun name => ⟨some name, options.customBufferMustBeArray, false, true⟩

/-- The constraint and the inherited flag recorded for an edge, from those of its IOs, the one
given for the edge, and those recorded before. -/
def recordedConstraint (src dst own : Option BufferConstraint)
    (before : Option BufferConstraint × Bool) : Option BufferConstraint × Bool :=
  match src, dst, own with
  | some constraint, _, _ => (some constraint, true)
  | none, some constraint, _ => (some constraint, true)
  | none, none, some constraint => (some constraint, false)
  | none, none, none => before

/-- Both IOs have a constraint and these are not compatible. -/
def constraintsConflict (src dst : Option BufferConstraint) : Bool :=
  match src, dst with
  | some constraint, some other => !constraint.compatibleWith other
  | _, _ => false

/-- The edges after an assignment to the dictionaries: a key which is there keeps its place. -/
def setEdge {ι : Type} [DecidableEq ι] (e : Edge ι) (edges : List (Edge ι)) : List (Edge ι) :=
  if edges.any (fun other => (other.src, other.dst) = (e.src, e.dst)) then
    edges.map fun other => if (other.src, other.dst) = (e.src, e.dst) then e else other
  else edges ++ [e]

namespace Graph

variable {ι : Type}

/-- `Graph()`, for the nodes which will be connected. -/
def empty (node : ι → Node) : Graph ι where
  node
  constantEdges := []
  edges := []
  defaultFIFOClass := .streamFIFO
  duplicateNodeClassName := "Duplicate"

/-- The IO at an end of an edge. -/
def io (g : Graph ι) (e : EdgeEnd ι) : Option IOPort := (g.node e.node).findPort e.isInput e.name

variable [DecidableEq ι] (g : Graph ι)

/-- The record of an edge, from what was recorded for the two IOs before. -/
def connectedEdge (a b : EdgeEnd ι) (src dst : IOPort) (options : ConnectOptions)
    (before : Option (Edge ι)) : Edge ι :=
  let constraint := recordedConstraint src.bufferConstraint dst.bufferConstraint
    options.constraint (before.bind Edge.customBuffer, (before.map Edge.inherited).getD false)
  { src := a
    dst := b
    fifoClass := options.fifoClass.getD g.defaultFIFOClass
    fifoScale := options.fifoScale
    fifoAsyncLength := options.fifoAsyncLength
    weak := options.weak
    delay := before.bind Edge.delay
    customBuffer := constraint.1
    inherited := constraint.2 }

/-- `Graph.connect` between two streaming IOs -/
def connect (a b : EdgeEnd ι) (options : ConnectOptions) : Except GraphError (Graph ι) :=
  match g.io a, g.io b with
  | some src, some dst =>
      if src.theType.equals dst.theType then
        if constraintsConflict src.bufferConstraint dst.bufferConstraint then
          .error .bufferConstraintOnIOAreIncompatibles
        else .ok { g with
          edges := setEdge (g.connectedEdge a b src dst options
            (g.edges.find? fun e => (e.src, e.dst) = (a, b))) g.edges }
      else .error .incompatibleIOs
  | _, _ => .error .indexError

/-- `Graph.connectWithDelay` between two streaming IOs -/
def connectWithDelay (a b : EdgeEnd ι) (delay : ℤ) (options : ConnectOptions) :
    Except GraphError (Graph ι) := do
  let g ← g.connect a b options
  pure { g with
    edges := g.edges.map fun e => if (e.src, e.dst) = (a, b) then { e with delay := some delay }
      else e }

/-- `Graph.connect` from a constant -/
def connectConstant (a : Constant) (b : EdgeEnd ι) : Graph ι :=
  if (a, b) ∈ g.constantEdges then g
  else { g with constantEdges := g.constantEdges ++ [(a, b)] }

end Graph

/-- What the user does with a graph. -/
inductive BuildStep (ι : Type) where
  | connect (a b : EdgeEnd ι) (options : ConnectOptions)
  | connectWithDelay (a b : EdgeEnd ι) (delay : ℤ) (options : ConnectOptions)
  | connectConstant (a : Constant) (b : EdgeEnd ι)
  | setDefaultFIFOClass (fifoClass : FIFOClass)
  | setDuplicateNodeClassName (name : String)

variable {ι : Type} [DecidableEq ι]

/-- The effect of a step. -/
def BuildStep.run (g : Graph ι) : BuildStep ι → Except GraphError (Graph ι)
  | .connect a b options => g.connect a b options
  | .connectWithDelay a b delay options => g.connectWithDelay a b delay options
  | .connectConstant a b => .ok (g.connectConstant a b)
  | .setDefaultFIFOClass fifoClass => .ok { g with defaultFIFOClass := fifoClass }
  | .setDuplicateNodeClassName name => .ok { g with duplicateNodeClassName := name }

/-- The graphs of the user. -/
def Graph.Built (g : Graph ι) : Prop :=
  ∃ steps : List (BuildStep ι), steps.foldlM BuildStep.run (Graph.empty g.node) = .ok g

end CmsisStream.Yaml
