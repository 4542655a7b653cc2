import CmsisStream.Scheduler.Connect
import CmsisStream.Yaml.Graph
import Mathlib.Data.List.Dedup
import Mathlib.Data.List.Forall2

/-!
# The graph which is exported and the graph which is scheduled

The same calls of `connect` build the graph which is exported and the one in which the
duplicate nodes are inserted.  The former keeps of the IOs what the YAML format describes,
the latter what the scheduler reads: both accept the same connections, and record the same
edges in the same order.
-/

namespace CmsisStream.Yaml

open Scheduler (ConnectedGraph FIFOEdge GraphInput GraphOutput IOFifo StreamingNodes)

/-! ### The nodes, as the scheduler sees them -/

/-- The type, without its name in C and its size. -/
def SampleType.scheduled : SampleType → Scheduler.SampleType
  | .cType t => .cType t.typeid
  | .cStructType name _ => .cStructType name
  | .cCustomType name _ => .cCustomType name
  | .sharedType refType shared => .sharedType refType.scheduled shared

/-- Types are compared in the same way. -/
@[simp] theorem SampleType.equals_scheduled (theType other : SampleType) :
    theType.scheduled.equals other.scheduled = theType.equals other := by
  induction theType generalizing other with
  | sharedType refType shared ih =>
      cases other with
      | sharedType other shared' => exact ih other
      | _ => rfl
  | _ => cases other <;> rfl

/-- The constraint, with the identity of the object. -/
def BufferConstraint.scheduled (object : ℕ) (constraint : BufferConstraint) :
    Scheduler.BufferConstraint where
  object
  name := constraint.name
  mustBeArray := constraint.mustBeArray
  assignedByNode := constraint.assignedByNode
  canBeShared := constraint.canBeShared

/-- The constraint, without its identity. -/
def BufferConstraint.forget (constraint : Scheduler.BufferConstraint) : BufferConstraint :=
  ⟨constraint.name, constraint.mustBeArray, constraint.assignedByNode, constraint.canBeShared⟩

/-- Constraints are compared in the same way. -/
@[simp] theorem BufferConstraint.compatibleWith_scheduled (constraint other : BufferConstraint)
    (object object' : ℕ) :
    (constraint.scheduled object).compatibleWith (other.scheduled object') =
      constraint.compatibleWith other :=
  rfl

variable {ι : Type}

/-- An IO of a node, on one side. -/
structure NodePort (node : ι → Node) (isInput : Bool) where
  owner : ι
  name : String
  found : ((node owner).findPort isInput name).isSome
deriving DecidableEq

namespace NodePort

variable {node : ι → Node} {isInput : Bool}

def io (port : NodePort node isInput) : IOPort :=
  ((node port.owner).findPort isInput port.name).get port.found

/-- The IO, as the end of an edge. -/
def toEnd (port : NodePort node isInput) : EdgeEnd ι := ⟨port.owner, isInput, port.name⟩

theorem toEnd_injective : Function.Injective (toEnd : NodePort node isInput → EdgeEnd ι) := by
  rintro ⟨owner, name, found⟩ ⟨owner', name', found'⟩ same
  cases same
  rfl

end NodePort

theorem found_of_mem {n : Node} {isInput : Bool} {name : String}
    (mem : name ∈ ((n.ios isInput).map IOPort.name).dedup) : (n.findPort isInput name).isSome := by
  rcases List.mem_map.mp (List.mem_dedup.mp mem) with ⟨io, ioMem, rfl⟩
  exact List.find?_isSome.mpr ⟨io, ioMem, decide_eq_true rfl⟩

/-- The IOs of a node on one side; their names are the keys of a dictionary. -/
def portsOf (node : ι → Node) (isInput : Bool) (n : ι) : List (NodePort node isInput) :=
  (((node n).ios isInput).map IOPort.name).dedup.pmap (fun name found => ⟨n, name, found⟩)
    fun _ mem => found_of_mem mem

theorem portsOf_nodup (node : ι → Node) (isInput : Bool) (n : ι) :
    (portsOf node isInput n).Nodup :=
  (List.nodup_dedup _).pmap fun _ _ _ _ same => congrArg NodePort.name same

theorem mem_portsOf {node : ι → Node} {isInput : Bool} {n : ι} {port : NodePort node isInput} :
    port ∈ portsOf node isInput n ↔ port.owner = n := by
  rw [portsOf, List.mem_pmap]
  constructor
  · rintro ⟨name, -, rfl⟩
    rfl
  · rintro rfl
    rcases List.find?_isSome.mp port.found with ⟨io, ioMem, isName⟩
    refine ⟨port.name, List.mem_dedup.mpr (List.mem_map.mpr ⟨io, ioMem, ?_⟩), rfl⟩
    exact of_decide_eq_true isName

/-- The nodes and their IOs, given the identities of the constraints set on the IOs. -/
def streamingNodes (node : ι → Node) (object : EdgeEnd ι → ℕ) :
    StreamingNodes ι (NodePort node false) (NodePort node true) where
  owner := NodePort.owner
  inputOwner := NodePort.owner
  outputs := portsOf node false
  outputs_nodup := portsOf_nodup node false
  mem_outputs _ _ := mem_portsOf
  outputType a := a.io.theType.scheduled
  inputType b := b.io.theType.scheduled
  nbSamples a := a.io.nbSamples
  outputConstraint a := a.io.bufferConstraint.map (BufferConstraint.scheduled (object a.toEnd))
  inputConstraint b := b.io.bufferConstraint.map (BufferConstraint.scheduled (object b.toEnd))

/-! ### The same calls -/

/-- The optional arguments of `connect`, without the identity of the new constraint. -/
def exportedOptions (options : Scheduler.ConnectOptions FIFOClass) : ConnectOptions where
  fifoClass := options.fifoClass
  fifoScale := options.fifoScale
  fifoAsyncLength := some options.fifoAsyncLength
  weak := options.weak
  buffer := options.buffer.map Prod.snd
  customBufferMustBeArray := options.customBufferMustBeArray

variable {node : ι → Node}

/-- The same call on both graphs.  Only the exported graph has a name for the class of the
duplicate nodes, and a constant cannot be connected with a delay. -/
inductive SameStep : BuildStep ι →
    Scheduler.BuildStep (NodePort node false) (NodePort node true) FIFOClass → Prop where
  | connect (a : NodePort node false) (b : NodePort node true) (options) :
      SameStep (.connect a.toEnd b.toEnd (exportedOptions options)) (.connect a b options)
  | connectWithDelay (a : NodePort node false) (b : NodePort node true) (delay) (options) :
      SameStep (.connectWithDelay a.toEnd b.toEnd delay (exportedOptions options))
        (.connectWithDelay a b delay options)
  | connectConstant (constant : Constant) (b : NodePort node true) :
      SameStep (.connectConstant constant b.toEnd) (.connectConstant constant.name b)
  | setDefaultFIFOClass (fifoClass : FIFOClass) :
      SameStep (.setDefaultFIFOClass fifoClass) (.setDefaultFIFOClass fifoClass)

/-- An edge of both graphs. -/
structure SameEdge (e : Edge ι)
    (f : FIFOEdge (NodePort node false) (NodePort node true) FIFOClass) : Prop where
  src : ∃ a, f.src = .output a ∧ e.src = a.toEnd
  dst : ∃ b, f.dst = .input b ∧ e.dst = b.toEnd
  fifoClass : e.fifoClass = f.fifoClass
  fifoScale : e.fifoScale = f.fifoScale
  fifoAsyncLength : e.fifoAsyncLength = some f.fifoAsyncLength
  weak : e.weak = f.weak
  delay : e.delay = f.delay
  customBuffer : e.customBuffer = f.customBuffer.map BufferConstraint.forget
  inherited : e.inherited = f.inherited

/-- The graph which is exported and the graph which is scheduled have the same edges, in the same
order, and the IOs of the latter can get further edges. -/
structure SameGraph (g : Graph ι)
    (h : ConnectedGraph ι (NodePort node false) (NodePort node true) FIFOClass) : Prop where
  node : g.node = node
  edges : List.Forall₂ SameEdge g.edges h.edges
  constantEdges : ∀ name b, (name, b) ∈ h.constantEdges ↔
    ∃ constant, constant.name = name ∧ (constant, b.toEnd) ∈ g.constantEdges
  defaultFIFOClass : g.defaultFIFOClass = h.defaultFIFOClass
  outputFifo : ∀ a, ∃ edges, h.outputFifo a = .list edges
  inputFifo : ∀ b, ∃ edges, h.inputFifo b = .list edges

/-- Both calls succeed, or both raise the same error. -/
inductive SameOutcome : Except GraphError (Graph ι) →
    Except (Scheduler.GraphError (NodePort node false) (NodePort node true))
      (ConnectedGraph ι (NodePort node false) (NodePort node true) FIFOClass) → Prop where
  | ok {g h} (same : SameGraph g h) : SameOutcome (.ok g) (.ok h)
  | incompatibleIOs (a b) : SameOutcome (.error .incompatibleIOs) (.error (.incompatibleIOs a b))
  | bufferConstraintOnIOAreIncompatibles (a b) :
      SameOutcome (.error .bufferConstraintOnIOAreIncompatibles)
        (.error (.bufferConstraintOnIOAreIncompatibles a b))

/-! ### One connection -/

/-- Two searches in lists whose elements are related. -/
theorem rel_find? {α β : Type} {R : α → β → Prop} {p : α → Bool} {q : β → Bool} {l : List α}
    {l' : List β} (agree : ∀ x y, R x y → p x = q y) (related : List.Forall₂ R l l') :
    Option.Rel R (l.find? p) (l'.find? q) := by
  induction related with
  | nil => exact .none
  | @cons x y l l' first rest ih =>
      rw [List.find?_cons, List.find?_cons, agree x y first]
      cases q y with
      | true => exact .some first
      | false => exact ih

theorem rel_any {α β : Type} {R : α → β → Prop} {p : α → Bool} {q : β → Bool} {l : List α}
    {l' : List β} (agree : ∀ x y, R x y → p x = q y) (related : List.Forall₂ R l l') :
    l.any p = l'.any q := by
  induction related with
  | nil => rfl
  | @cons x y l l' first rest ih => rw [List.any_cons, List.any_cons, agree x y first, ih]

/-- The edge joins two given IOs. -/
theorem SameEdge.key_iff {e : Edge ι}
    {f : FIFOEdge (NodePort node false) (NodePort node true) FIFOClass} (same : SameEdge e f)
    (a : NodePort node false) (b : NodePort node true) :
    (e.src, e.dst) = (a.toEnd, b.toEnd) ↔ f.key = (.output a, .input b) := by
  rcases same.src with ⟨a', fSrc, eSrc⟩
  rcases same.dst with ⟨b', fDst, eDst⟩
  rw [Prod.mk.injEq, FIFOEdge.key, Prod.mk.injEq, eSrc, eDst, fSrc, fDst,
    NodePort.toEnd_injective.eq_iff, NodePort.toEnd_injective.eq_iff, GraphOutput.output.injEq,
    GraphInput.input.injEq]

theorem SameEdge.key_eq_iff {e other : Edge ι}
    {f otherF : FIFOEdge (NodePort node false) (NodePort node true) FIFOClass}
    (same : SameEdge e f) (sameOther : SameEdge other otherF) :
    (other.src, other.dst) = (e.src, e.dst) ↔ otherF.key = f.key := by
  rcases same.src with ⟨a, fSrc, eSrc⟩
  rcases same.dst with ⟨b, fDst, eDst⟩
  have isKey := sameOther.key_iff a b
  rwa [← eSrc, ← eDst, ← fSrc, ← fDst] at isKey

/-- The `fifo` fields are still lists after one more edge. -/
theorem isList_update {E O I : Type} [DecidableEq E] {fifo : E → IOFifo O I} {x : E}
    {edges : List (Scheduler.EdgeKey O I)} (lists : ∀ e, ∃ edges, fifo e = .list edges) (e : E) :
    ∃ edges', Function.update fifo x (.list edges) e = .list edges' := by
  by_cases same : e = x
  · subst same
    exact ⟨edges, Function.update_self _ _ _⟩
  · rcases lists e with ⟨others, isList⟩
    exact ⟨others, (Function.update_of_ne same _ _).trans isList⟩

section Connect

variable {object : EdgeEnd ι → ℕ} {a : NodePort node false} {b : NodePort node true}

/-- The same constraint is recorded, up to its identity. -/
theorem recordedConstraint_same (object : EdgeEnd ι → ℕ) (a : NodePort node false)
    (b : NodePort node true) (own : Option Scheduler.BufferConstraint)
    (before : Option Scheduler.BufferConstraint × Bool) :
    let recorded := ConnectedGraph.recordedConstraint (streamingNodes node object) (.output a)
      (.input b) own before
    recordedConstraint a.io.bufferConstraint b.io.bufferConstraint
        (own.map BufferConstraint.forget) (before.1.map BufferConstraint.forget, before.2) =
      (recorded.1.map BufferConstraint.forget, recorded.2) := by
  cases source : a.io.bufferConstraint <;> cases target : b.io.bufferConstraint <;> cases own <;>
    simp [recordedConstraint, ConnectedGraph.recordedConstraint, ConnectedGraph.outputConstraint,
      ConnectedGraph.inputConstraint, streamingNodes, source, target, BufferConstraint.forget,
      BufferConstraint.scheduled]

theorem constraintsConflict_same :
    ConnectedGraph.constraintsConflict (streamingNodes node object) (.output a) (.input b) =
      constraintsConflict a.io.bufferConstraint b.io.bufferConstraint := by
  cases source : a.io.bufferConstraint <;> cases target : b.io.bufferConstraint <;>
    simp [constraintsConflict, ConnectedGraph.constraintsConflict,
      ConnectedGraph.outputConstraint, ConnectedGraph.inputConstraint, streamingNodes, source,
      target]

variable [DecidableEq ι]

/-- Recording an edge. -/
theorem SameEdge.setEdge {e : Edge ι} {edges : List (Edge ι)}
    {f : FIFOEdge (NodePort node false) (NodePort node true) FIFOClass}
    {edgesF : List (FIFOEdge (NodePort node false) (NodePort node true) FIFOClass)}
    (same : SameEdge e f) (related : List.Forall₂ SameEdge edges edgesF) :
    List.Forall₂ SameEdge (setEdge e edges) (ConnectedGraph.setEdge f edgesF) := by
  have known : (edges.any fun other => decide ((other.src, other.dst) = (e.src, e.dst))) =
      edgesF.any fun other => decide (other.key = f.key) :=
    rel_any (fun _ _ other => decide_eq_decide.mpr (same.key_eq_iff other)) related
  unfold Yaml.setEdge ConnectedGraph.setEdge
  rw [known]
  split_ifs
  · rw [List.forall₂_map_left_iff, List.forall₂_map_right_iff]
    refine related.imp ?_
    intro other otherF sameOther
    simp only [same.key_eq_iff sameOther]
    split_ifs
    · exact same
    · exact sameOther
  · exact List.rel_append related (.cons same .nil)

variable {g : Graph ι}
  {h : ConnectedGraph ι (NodePort node false) (NodePort node true) FIFOClass}
  {options : Scheduler.ConnectOptions FIFOClass}

omit [DecidableEq ι] in
theorem SameGraph.io (same : SameGraph g h) {isInput : Bool} (port : NodePort node isInput) :
    g.io port.toEnd = some port.io := by
  rw [Graph.io, same.node]
  exact (Option.some_get port.found).symm

omit [DecidableEq ι] in
/-- The same edge is recorded. -/
theorem SameGraph.connectedEdge (same : SameGraph g h) {before : Option (Edge ι)}
    {beforeF : Option (FIFOEdge (NodePort node false) (NodePort node true) FIFOClass)}
    (sameBefore : Option.Rel SameEdge before beforeF) :
    SameEdge (g.connectedEdge a.toEnd b.toEnd a.io b.io (exportedOptions options) before)
      (h.connectedEdge (streamingNodes node object) (.output a) (.input b) options beforeF) := by
  have own : (exportedOptions options).constraint =
      options.constraint.map BufferConstraint.forget := by
    cases buffer : options.buffer <;>
      simp [ConnectOptions.constraint, Scheduler.ConnectOptions.constraint, exportedOptions,
        buffer, BufferConstraint.forget]
  have earlier : (before.bind Edge.customBuffer, (before.map Edge.inherited).getD false) =
      ((beforeF.bind FIFOEdge.customBuffer).map BufferConstraint.forget,
        (beforeF.map FIFOEdge.inherited).getD false) ∧
      before.bind Edge.delay = beforeF.bind FIFOEdge.delay := by
    cases sameBefore with
    | none => exact ⟨rfl, rfl⟩
    | some sameEdge =>
        exact ⟨Prod.ext sameEdge.customBuffer sameEdge.inherited, sameEdge.delay⟩
  have recorded := recordedConstraint_same object a b options.constraint
    (beforeF.bind FIFOEdge.customBuffer, (beforeF.map FIFOEdge.inherited).getD false)
  rw [← own, ← earlier.1] at recorded
  exact
    { src := ⟨a, rfl, rfl⟩
      dst := ⟨b, rfl, rfl⟩
      fifoClass := congrArg options.fifoClass.getD same.defaultFIFOClass
      fifoScale := rfl
      fifoAsyncLength := rfl
      weak := rfl
      delay := earlier.2
      customBuffer := congrArg Prod.fst recorded
      inherited := congrArg Prod.snd recorded }

/-- Both graphs accept the same connections. -/
theorem SameGraph.connect (same : SameGraph g h) :
    SameOutcome (g.connect a.toEnd b.toEnd (exportedOptions options))
      (h.connect (streamingNodes node object) (.output a) (.input b) true options) := by
  have compatible : h.compatible (streamingNodes node object) (.output a) (.input b) =
      a.io.theType.equals b.io.theType :=
    SampleType.equals_scheduled _ _
  rw [Graph.connect, same.io, same.io, ConnectedGraph.connect, compatible,
    constraintsConflict_same]
  dsimp only
  split_ifs
  · exact .bufferConstraintOnIOAreIncompatibles _ _
  · rcases same.outputFifo (.output a) with ⟨outputs, isList⟩
    rcases same.inputFifo (.input b) with ⟨inputs, isList'⟩
    rw [isList, isList']
    refine .ok ⟨same.node, SameEdge.setEdge (same.connectedEdge ?_) same.edges,
      same.constantEdges, same.defaultFIFOClass, ?_, ?_⟩
    · exact rel_find? (fun _ _ sameEdge => decide_eq_decide.mpr (sameEdge.key_iff a b)) same.edges
    · exact isList_update same.outputFifo
    · exact isList_update same.inputFifo
  · exact .incompatibleIOs _ _

theorem SameGraph.connectWithDelay (same : SameGraph g h) {delay : ℤ} :
    SameOutcome (g.connectWithDelay a.toEnd b.toEnd delay (exportedOptions options))
      (h.connectWithDelay (streamingNodes node object) (.output a) (.input b) delay true
        options) := by
  have outcome : SameOutcome (g.connect a.toEnd b.toEnd (exportedOptions options))
      (h.connect (streamingNodes node object) (.output a) (.input b) true options) :=
    same.connect
  rw [Graph.connectWithDelay, ConnectedGraph.connectWithDelay]
  generalize g.connect a.toEnd b.toEnd (exportedOptions options) = exported at outcome
  generalize h.connect (streamingNodes node object) _ _ true options = scheduled at outcome
  cases outcome with
  | ok sameNext =>
      refine .ok { sameNext with edges := ?_ }
      rw [List.forall₂_map_left_iff, List.forall₂_map_right_iff]
      refine sameNext.edges.imp ?_
      intro e f sameEdge
      simp only [sameEdge.key_iff a b]
      split_ifs
      · exact { sameEdge with delay := rfl }
      · exact sameEdge
  | incompatibleIOs a b => exact .incompatibleIOs a b
  | bufferConstraintOnIOAreIncompatibles a b =>
      exact .bufferConstraintOnIOAreIncompatibles a b

end Connect

/-! ### All connections -/

variable [DecidableEq ι] {object : EdgeEnd ι → ℕ}

variable {g : Graph ι}
  {h : ConnectedGraph ι (NodePort node false) (NodePort node true) FIFOClass}

/-- A constant is connected to an input once. -/
theorem mem_connectConstant {constant : Constant} {b : EdgeEnd ι} {pair : Constant × EdgeEnd ι} :
    pair ∈ (g.connectConstant constant b).constantEdges ↔
      pair ∈ g.constantEdges ∨ pair = (constant, b) := by
  unfold Graph.connectConstant
  split_ifs with known
  · constructor
    · exact .inl
    · rintro (old | rfl)
      · exact old
      · exact known
  · simp

theorem connectConstant_unchanged (constant : Constant) (b : EdgeEnd ι) :
    (g.connectConstant constant b).node = g.node ∧
      (g.connectConstant constant b).edges = g.edges ∧
        (g.connectConstant constant b).defaultFIFOClass = g.defaultFIFOClass := by
  unfold Graph.connectConstant
  split_ifs <;> exact ⟨rfl, rfl, rfl⟩

/-- One call on both graphs. -/
theorem SameGraph.run (same : SameGraph g h) {step : BuildStep ι}
    {stepF : Scheduler.BuildStep (NodePort node false) (NodePort node true) FIFOClass}
    (sameStep : SameStep step stepF) :
    SameOutcome (step.run g) (stepF.run (streamingNodes node object) h) := by
  cases sameStep with
  | connect a b options => exact same.connect
  | connectWithDelay a b delay options => exact same.connectWithDelay
  | connectConstant constant b =>
      rcases connectConstant_unchanged (g := g) constant b.toEnd with ⟨nodes, edges, fifoClass⟩
      refine .ok ⟨nodes.trans same.node, edges.symm ▸ same.edges, ?_,
        fifoClass.trans same.defaultFIFOClass, same.outputFifo, same.inputFifo⟩
      intro name other
      have scheduled : (name, other) ∈ (if (constant.name, b) ∈ h.constantEdges then
          h.constantEdges else h.constantEdges ++ [(constant.name, b)]) ↔
          (name, other) ∈ h.constantEdges ∨ name = constant.name ∧ other = b := by
        split_ifs with known
        · constructor
          · exact .inl
          · rintro (old | ⟨rfl, rfl⟩)
            · exact old
            · exact known
        · simp
      refine scheduled.trans ?_
      rw [same.constantEdges]
      simp only [mem_connectConstant]
      constructor
      · rintro (⟨known, isName, old⟩ | ⟨rfl, rfl⟩)
        · exact ⟨known, isName, .inl old⟩
        · exact ⟨constant, rfl, .inr rfl⟩
      · rintro ⟨known, isName, old | new⟩
        · exact .inl ⟨known, isName, old⟩
        · obtain ⟨rfl, sameEnd⟩ := Prod.mk.inj new
          exact .inr ⟨isName.symm, NodePort.toEnd_injective sameEnd⟩
  | setDefaultFIFOClass fifoClass => exact .ok { same with defaultFIFOClass := rfl }

/-- The same calls on two graphs which are the same. -/
theorem SameGraph.runAll (same : SameGraph g h) {steps : List (BuildStep ι)}
    {stepsF : List (Scheduler.BuildStep (NodePort node false) (NodePort node true) FIFOClass)}
    (sameSteps : List.Forall₂ SameStep steps stepsF) :
    SameOutcome (steps.foldlM BuildStep.run g)
      (stepsF.foldlM (Scheduler.BuildStep.run (streamingNodes node object)) h) := by
  induction sameSteps generalizing g h with
  | nil => exact .ok same
  | @cons step stepF steps stepsF sameStep _ ih =>
      rw [List.foldlM_cons, List.foldlM_cons]
      have outcome : SameOutcome (step.run g) (stepF.run (streamingNodes node object) h) :=
        same.run sameStep
      generalize step.run g = exported at outcome
      generalize stepF.run (streamingNodes node object) h = scheduled at outcome
      cases outcome with
      | ok sameNext => exact ih sameNext
      | incompatibleIOs a b => exact .incompatibleIOs a b
      | bufferConstraintOnIOAreIncompatibles a b =>
          exact .bufferConstraintOnIOAreIncompatibles a b

/-- The graph which is exported and the graph which is scheduled are built by the same calls:
both are refused with the same error, or both have the same edges. -/
theorem sameOutcome_build {steps : List (BuildStep ι)}
    {stepsF : List (Scheduler.BuildStep (NodePort node false) (NodePort node true) FIFOClass)}
    (sameSteps : List.Forall₂ SameStep steps stepsF) :
    SameOutcome (steps.foldlM BuildStep.run (Graph.empty node))
      (Scheduler.BuildStep.build (streamingNodes node object) .streamFIFO stepsF) := by
  have start : SameGraph (Graph.empty node) (ConnectedGraph.empty (N := ι)
      (O := NodePort node false) (I := NodePort node true) FIFOClass.streamFIFO) :=
    ⟨rfl, .nil, by simp [Graph.empty, ConnectedGraph.empty], rfl, fun _ => ⟨[], rfl⟩,
      fun _ => ⟨[], rfl⟩⟩
  exact start.runAll sameSteps

end CmsisStream.Yaml
