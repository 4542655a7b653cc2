import CmsisStream.Scheduler.Connect
import Mathlib.Data.List.Perm.Basic
import Mathlib.Order.Bounds.Defs

/-!
# Insertion of the duplicate nodes

An output connected to several inputs is disconnected from them and connected to
a `Duplicate`, which is then connected to each of the inputs.  The pass goes
through the outputs of the nodes which were in the graph when it started.  Its
effect is described here by the edges after some outputs have been rewritten: the
edges of the other outputs as they were, then the edges of each duplicate node.
-/

namespace CmsisStream.Scheduler

/-- What the pass reads of `Configuration`. -/
structure SchedulingMode where
  asynchronous : Bool
  fullyAsynchronous : Bool
deriving DecidableEq, Repr

/-- `DupDestination` -/
structure DupDestination (I F : Type) where
  node : GraphInput I
  delay : ℤ
  fifoClass : F
  fifoScale : ℚ
  fifoAsyncLength : ℤ
  fifoWeak : Bool

/-- `np.max` of an array, which raises an error when it is empty. -/
def maximum {α E : Type} [Max α] (valueError : E) : List α → Except E α
  | [] => .error valueError
  | x :: l => .ok (l.foldl max x)

/-- The maximum is an element, and the others are below it. -/
theorem maximum_spec {α E : Type} [LinearOrder α] {valueError : E} {l : List α} {greatest : α}
    (ok : maximum valueError l = .ok greatest) : greatest ∈ l ∧ ∀ x ∈ l, x ≤ greatest := by
  cases l with
  | nil => simp [maximum] at ok
  | cons x l =>
      apply List.max?_eq_some_iff.mp
      rw [List.max?_cons', ← Except.ok.inj ok]

/-- The destination remembered for an edge which is disconnected. -/
def FIFOEdge.dupDestination {O I F : Type} (e : FIFOEdge O I F) : DupDestination I F where
  node := e.dst
  delay := e.delayValue
  fifoClass := e.fifoClass
  fifoScale := e.fifoScale
  fifoAsyncLength := e.fifoAsyncLength
  fifoWeak := e.weak

/-- The arguments with which `connectDup` connects a destination again. -/
def DupDestination.options {I F : Type} (destination : DupDestination I F) : ConnectOptions F :=
  { ConnectOptions.default F with
    fifoClass := some destination.fifoClass
    fifoScale := destination.fifoScale
    fifoAsyncLength := destination.fifoAsyncLength
    weak := destination.fifoWeak }

/-- The arguments with which the output is connected to the duplicate node. -/
def SchedulingMode.dupInputOptions {O I F : Type} (mode : SchedulingMode)
    (destinations : List (DupDestination I F)) :
    Except (GraphError O I) (ConnectOptions F) :=
  if mode.asynchronous then do
    let maxScale ← maximum .valueError (destinations.map DupDestination.fifoScale)
    pure { ConnectOptions.default F with fifoScale := maxScale }
  else if mode.fullyAsynchronous then do
    let maxAsyncLength ← maximum .valueError (destinations.map DupDestination.fifoAsyncLength)
    pure { ConnectOptions.default F with fifoAsyncLength := maxAsyncLength }
  else pure (ConnectOptions.default F)

namespace ConnectedGraph

variable {N O I F : Type} [DecidableEq N] [DecidableEq O] [DecidableEq I]
variable (ios : StreamingNodes N O I) (mode : SchedulingMode) (g : ConnectedGraph N O I F)

/-- The outputs of a node, in the order of `_outputs`. -/
def outputsOf : GraphNode N → List (GraphOutput O)
  | .node n => (ios.outputs n).map GraphOutput.output
  | .duplicate d => match g.duplicates[d]? with
    | none => []
    | some dup => (List.range dup.nb).map (GraphOutput.duplicate d)

/-- The duplicate node made for an output. -/
def duplicateFor (a : GraphOutput O) (nb : ℕ) : Option Duplicate :=
  match a with
  | .output a => some { theType := ios.outputType a, inLength := ios.nbSamples a, nb }
  | .duplicate d _ =>
      (g.duplicates[d]?).map fun dup => { dup with theType := dup.theType.share, nb }

/-- The graph without an edge; the `fifo` fields of its IOs are `None`. -/
def withoutEdge (e : FIFOEdge O I F) : ConnectedGraph N O I F :=
  { g with
    outputFifo := Function.update g.outputFifo e.src .none
    inputFifo := Function.update g.inputFifo e.dst .none
    edges := g.edges.filter fun other => other.key ≠ e.key }

/-- Disconnects a pair of IOs.  A pair which is not a key of `_edges` gets default values
first, and then deleting it raises an error. -/
def disconnectEdge (key : EdgeKey O I) :
    Except (GraphError O I) (DupDestination I F × ConnectedGraph N O I F) :=
  match g.edge? key with
  | none => .error .keyError
  | some e =>
      if e.ownConstraint then
        .error (.cantHaveBufferConstraintOnFIFOWhenDuplicateIsInserted key.1 key.2)
      else .ok (e.dupDestination, g.withoutEdge e)

/-- Disconnects the edges of an output and remembers their destinations. -/
def disconnect (g : ConnectedGraph N O I F) : List (EdgeKey O I) →
    Except (GraphError O I) (List (DupDestination I F) × ConnectedGraph N O I F)
  | [] => .ok ([], g)
  | key :: fifo => do
      let (destination, next) ← g.disconnectEdge key
      let (destinations, final) ← next.disconnect fifo
      pure (destination :: destinations, final)

/-- `Graph.connectDup` -/
def connectDup (destination : DupDestination I F) (dupOutput : GraphOutput O) :
    Except (GraphError O I) (ConnectedGraph N O I F) :=
  if destination.delay ≠ 0 then
    g.connectWithDelay ios dupOutput destination.node destination.delay false destination.options
  else g.connect ios dupOutput destination.node false destination.options

/-- Connects the outputs of the duplicate node `d`, from the output `i` on. -/
def connectDestinations (d : ℕ) (g : ConnectedGraph N O I F) (i : ℕ) :
    List (DupDestination I F) → Except (GraphError O I) (ConnectedGraph N O I F)
  | [] => .ok g
  | destination :: destinations => do
      let next ← g.connectDup ios destination (.duplicate d i)
      next.connectDestinations d (i + 1) destinations

/-- The body of the loops of `Graph.insertDuplicates` over the outputs. -/
def insertDuplicate (output : GraphOutput O) : Except (GraphError O I) (ConnectedGraph N O I F) :=
  match g.outputFifo output with
  | .list [fifo] =>
      .ok { g with
        outputFifo := Function.update g.outputFifo fifo.1 (.edge fifo)
        inputFifo := Function.update g.inputFifo fifo.2 (.edge fifo) }
  | .list fifo =>
      match g.duplicateFor ios output fifo.length with
      | none => .error .attributeError
      | some dup => do
          let dupNb := g.duplicates.length
          let (destinations, g) ←
            disconnect { g with duplicates := g.duplicates ++ [dup] } fifo
          let options ← mode.dupInputOptions destinations
          let g ← g.connect ios output (.duplicate dupNb) false options
          connectDestinations ios dupNb g 0 destinations
  | _ => .error .typeError

/-- `Graph.insertDuplicates` -/
def insertDuplicates : Except (GraphError O I) (ConnectedGraph N O I F) :=
  (g.nodes.flatMap (g.outputsOf ios)).foldlM (insertDuplicate ios mode) g

/-! ### The effect of each loop -/

section Effects

variable {ios g}

omit [DecidableEq N] in
/-- The key finds the edge. -/
theorem edge?_of_mem (nodup : (g.edges.map FIFOEdge.key).Nodup) {e : FIFOEdge O I F}
    (eMem : e ∈ g.edges) : g.edge? e.key = some e := by
  cases found : g.edge? e.key with
  | none =>
      have differs := List.find?_eq_none.mp found e eMem
      simp at differs
  | some other =>
      have sameKey : other.key = e.key := by simpa using List.find?_some found
      have otherMem := List.mem_of_find?_eq_some found
      rw [List.inj_on_of_nodup_map nodup otherMem eMem sameKey]

omit [DecidableEq N] in
theorem disconnectEdge_of_mem (nodup : (g.edges.map FIFOEdge.key).Nodup) {e : FIFOEdge O I F}
    (eMem : e ∈ g.edges) :
    g.disconnectEdge e.key =
      if e.ownConstraint then
        .error (.cantHaveBufferConstraintOnFIFOWhenDuplicateIsInserted e.src e.dst)
      else .ok (e.dupDestination, g.withoutEdge e) := by
  rw [disconnectEdge, edge?_of_mem nodup eMem]
  rfl

/-- The graph without some edges. -/
def withoutEdges (g : ConnectedGraph N O I F) (leaving : List (FIFOEdge O I F)) :
    ConnectedGraph N O I F :=
  { g with
    outputFifo := fun x => if x ∈ leaving.map FIFOEdge.src then .none else g.outputFifo x
    inputFifo := fun y => if y ∈ leaving.map FIFOEdge.dst then .none else g.inputFifo y
    edges := g.edges.filter fun e => e.key ∉ leaving.map FIFOEdge.key }

omit [DecidableEq N] in
theorem withoutEdges_cons (e : FIFOEdge O I F) (leaving : List (FIFOEdge O I F)) :
    (g.withoutEdge e).withoutEdges leaving = g.withoutEdges (e :: leaving) := by
  have outputFifo : ∀ x, (if x ∈ leaving.map FIFOEdge.src then IOFifo.none
      else Function.update g.outputFifo e.src .none x) =
      if x ∈ (e :: leaving).map FIFOEdge.src then .none else g.outputFifo x := by
    intro x
    by_cases same : x = e.src <;> by_cases later : x ∈ leaving.map FIFOEdge.src <;>
      simp [same, later]
  have inputFifo : ∀ y, (if y ∈ leaving.map FIFOEdge.dst then IOFifo.none
      else Function.update g.inputFifo e.dst .none y) =
      if y ∈ (e :: leaving).map FIFOEdge.dst then .none else g.inputFifo y := by
    intro y
    by_cases same : y = e.dst <;> by_cases later : y ∈ leaving.map FIFOEdge.dst <;>
      simp [same, later]
  have edges : (g.edges.filter fun other => other.key ≠ e.key).filter
      (fun other => other.key ∉ leaving.map FIFOEdge.key) =
      g.edges.filter fun other => other.key ∉ (e :: leaving).map FIFOEdge.key := by
    rw [List.filter_filter]
    apply List.filter_congr
    intro other _
    rw [← Bool.decide_and, decide_eq_decide, List.map_cons, List.mem_cons, not_or, and_comm]
  simp only [withoutEdges, withoutEdge, edges, funext outputFifo, funext inputFifo]

omit [DecidableEq N] in
/-- Disconnecting some edges raises an error at the first one with a constraint of its own. -/
theorem disconnect_edges {leaving : List (FIFOEdge O I F)}
    (nodup : (g.edges.map FIFOEdge.key).Nodup) (leavingMem : ∀ e ∈ leaving, e ∈ g.edges)
    (leavingNodup : leaving.Nodup) :
    (∃ e ∈ leaving, e.ownConstraint = true ∧ g.disconnect (leaving.map FIFOEdge.key) =
      .error (.cantHaveBufferConstraintOnFIFOWhenDuplicateIsInserted e.src e.dst)) ∨
    (∀ e ∈ leaving, e.ownConstraint = false) ∧ g.disconnect (leaving.map FIFOEdge.key) =
      .ok (leaving.map FIFOEdge.dupDestination, g.withoutEdges leaving) := by
  induction leaving generalizing g with
  | nil => exact .inr ⟨by simp, by simp [disconnect, withoutEdges]⟩
  | cons e leaving ih =>
      have eMem := leavingMem e (by simp)
      rw [List.map_cons, disconnect, disconnectEdge_of_mem nodup eMem]
      by_cases own : e.ownConstraint = true
      · refine .inl ⟨e, by simp, own, ?_⟩
        rw [if_pos own]
        rfl
      · rw [if_neg own]
        have nextNodup : ((g.withoutEdge e).edges.map FIFOEdge.key).Nodup :=
          nodup.sublist (List.filter_sublist.map _)
        have nextMem : ∀ other ∈ leaving, other ∈ (g.withoutEdge e).edges := by
          intro other otherMem
          have before := leavingMem other (List.mem_cons_of_mem _ otherMem)
          refine List.mem_filter.mpr ⟨before, ?_⟩
          rw [decide_eq_true_eq]
          intro sameKey
          rw [List.inj_on_of_nodup_map nodup before eMem sameKey] at otherMem
          exact (List.nodup_cons.mp leavingNodup).1 otherMem
        rcases ih nextNodup nextMem (List.nodup_cons.mp leavingNodup).2 with
          ⟨bad, badMem, badOwn, run⟩ | ⟨quiet, run⟩
        · refine .inl ⟨bad, List.mem_cons_of_mem _ badMem, badOwn, ?_⟩
          change ((g.withoutEdge e).disconnect (leaving.map FIFOEdge.key) >>= _) = _
          rw [run]
          rfl
        · refine .inr ⟨?_, ?_⟩
          · intro other otherMem
            rcases List.mem_cons.mp otherMem with rfl | later
            · exact Bool.not_eq_true _ ▸ own
            · exact quiet other later
          · change ((g.withoutEdge e).disconnect (leaving.map FIFOEdge.key) >>= _) = _
            rw [run, withoutEdges_cons]
            rfl

variable (ios)

/-- The graph with one more edge, which its two IOs point to. -/
def withEdge (g : ConnectedGraph N O I F) (e : FIFOEdge O I F) : ConnectedGraph N O I F :=
  g.appendEdge ios e (.edge e.key) (.edge e.key)

variable {ios}

theorem connect_withEdge {a : GraphOutput O} {b : GraphInput I} {options : ConnectOptions F}
    (newKey : ∀ e ∈ g.edges, e.key ≠ (a, b)) (compatible : g.compatible ios a b = true)
    (consistent : constraintsConflict ios a b = false) :
    g.connect ios a b false options =
      .ok (g.withEdge ios (g.newEdge ios a b options none)) := by
  rw [connect_new newKey, if_pos compatible, consistent]
  rfl

theorem connectWithDelay_withEdge {a : GraphOutput O} {b : GraphInput I} {delay : ℤ}
    {options : ConnectOptions F} (newKey : ∀ e ∈ g.edges, e.key ≠ (a, b))
    (compatible : g.compatible ios a b = true)
    (consistent : constraintsConflict ios a b = false) :
    g.connectWithDelay ios a b delay false options =
      .ok (g.withEdge ios (g.newEdge ios a b options (some delay))) := by
  rw [connectWithDelay_new newKey, if_pos compatible, consistent]
  rfl

variable (ios)

/-- The edge from an output of a duplicate node which replaces an edge. -/
def dupOutputEdge (d i : ℕ) (e : FIFOEdge O I F) : FIFOEdge O I F where
  src := .duplicate d i
  dst := e.dst
  fifoClass := e.fifoClass
  fifoScale := e.fifoScale
  fifoAsyncLength := e.fifoAsyncLength
  weak := e.weak
  delay := if e.delayValue ≠ 0 then some e.delayValue else none
  customBuffer := inputConstraint ios e.dst
  inherited := (inputConstraint ios e.dst).isSome

variable {ios}

theorem connectDup_withEdge {d i : ℕ} {e : FIFOEdge O I F}
    (newKey : ∀ other ∈ g.edges, other.key ≠ (.duplicate d i, e.dst))
    (compatible : g.compatible ios (.duplicate d i) e.dst = true) :
    g.connectDup ios e.dupDestination (.duplicate d i) =
      .ok (g.withEdge ios (dupOutputEdge ios d i e)) := by
  have consistent : constraintsConflict ios (.duplicate d i) e.dst = false := rfl
  have newEdgeEq : ∀ delay, g.newEdge ios (.duplicate d i) e.dst e.dupDestination.options delay =
      { dupOutputEdge ios d i e with delay } := by
    intro delay
    cases constraint : inputConstraint ios e.dst <;>
      simp [newEdge, connectedEdge, dupOutputEdge, recordedConstraint, outputConstraint,
        constraint, DupDestination.options, FIFOEdge.dupDestination, ConnectOptions.default,
        ConnectOptions.constraint]
  unfold connectDup
  by_cases delayed : e.delayValue ≠ 0
  · rw [if_pos (show e.dupDestination.delay ≠ 0 from delayed)]
    refine (connectWithDelay_withEdge newKey compatible consistent).trans ?_
    rw [newEdgeEq]
    simp only [dupOutputEdge, if_pos delayed]
    rfl
  · rw [if_neg (show ¬ e.dupDestination.delay ≠ 0 from delayed)]
    refine (connect_withEdge newKey compatible consistent).trans ?_
    rw [newEdgeEq]
    simp only [dupOutputEdge, if_neg delayed]

/-- The outputs of a duplicate node are connected to the destinations in their order. -/
theorem connectDestinations_withEdge {d i : ℕ} {leaving : List (FIFOEdge O I F)}
    (fresh : ∀ e ∈ g.edges, ∀ j, i ≤ j → e.src ≠ .duplicate d j)
    (compatible : ∀ e ∈ leaving, ∀ i, g.compatible ios (.duplicate d i) e.dst = true) :
    g.connectDestinations ios d i (leaving.map FIFOEdge.dupDestination) =
      .ok (((leaving.zipIdx i).map fun (e, i) => dupOutputEdge ios d i e).foldl
        (withEdge ios) g) := by
  induction leaving generalizing g i with
  | nil => rfl
  | cons e leaving ih =>
      have newKey : ∀ other ∈ g.edges, other.key ≠ (.duplicate d i, e.dst) :=
        fun other otherMem sameKey =>
          fresh other otherMem i le_rfl (congrArg Prod.fst sameKey)
      rw [List.map_cons, connectDestinations,
        connectDup_withEdge newKey (compatible e (by simp) i)]
      change connectDestinations ios d (g.withEdge ios (dupOutputEdge ios d i e)) (i + 1) _ = _
      rw [ih, List.zipIdx_cons, List.map_cons, List.foldl_cons]
      · intro other otherMem j less
        change other ∈ g.edges ++ [dupOutputEdge ios d i e] at otherMem
        rcases List.mem_append.mp otherMem with old | new
        · exact fresh other old j (by omega)
        · rw [List.mem_singleton.mp new]
          intro same
          cases same
          omega
      · exact fun other otherMem => compatible other (List.mem_cons_of_mem _ otherMem)

/-! What some edges appended one by one change. -/

variable {l : List (FIFOEdge O I F)}

@[simp] theorem withEdges_edges : (l.foldl (withEdge ios) g).edges = g.edges ++ l := by
  induction l generalizing g with
  | nil => simp
  | cons e l ih =>
      rw [List.foldl_cons, ih]
      simp [withEdge, appendEdge]

@[simp] theorem withEdges_duplicates :
    (l.foldl (withEdge ios) g).duplicates = g.duplicates := by
  induction l generalizing g with
  | nil => rfl
  | cons e l ih => exact ih

@[simp] theorem withEdges_defaultFIFOClass :
    (l.foldl (withEdge ios) g).defaultFIFOClass = g.defaultFIFOClass := by
  induction l generalizing g with
  | nil => rfl
  | cons e l ih => exact ih

theorem withEdges_nodes
    (owners : ∀ e ∈ l, outputOwner ios e.src ∈ g.nodes ∧ inputOwner ios e.dst ∈ g.nodes) :
    (l.foldl (withEdge ios) g).nodes = g.nodes := by
  induction l generalizing g with
  | nil => rfl
  | cons e l ih =>
      have same : (g.withEdge ios e).nodes = g.nodes := by
        change addNode _ (addNode _ g.nodes) = g.nodes
        rw [addNode_of_mem (owners e (by simp)).1, addNode_of_mem (owners e (by simp)).2]
      rw [List.foldl_cons, ih, same]
      intro other otherMem
      rw [same]
      exact owners other (List.mem_cons_of_mem _ otherMem)

theorem withEdges_outputFifo_of_notMem {x : GraphOutput O} (notMem : x ∉ l.map FIFOEdge.src) :
    (l.foldl (withEdge ios) g).outputFifo x = g.outputFifo x := by
  induction l generalizing g with
  | nil => rfl
  | cons e l ih =>
      rw [List.map_cons, List.mem_cons, not_or] at notMem
      rw [List.foldl_cons, ih notMem.2]
      exact Function.update_of_ne notMem.1 _ _

theorem withEdges_inputFifo_of_notMem {y : GraphInput I} (notMem : y ∉ l.map FIFOEdge.dst) :
    (l.foldl (withEdge ios) g).inputFifo y = g.inputFifo y := by
  induction l generalizing g with
  | nil => rfl
  | cons e l ih =>
      rw [List.map_cons, List.mem_cons, not_or] at notMem
      rw [List.foldl_cons, ih notMem.2]
      exact Function.update_of_ne notMem.1 _ _

theorem withEdges_fifo_of_mem (srcNodup : (l.map FIFOEdge.src).Nodup)
    (dstNodup : (l.map FIFOEdge.dst).Nodup) {e : FIFOEdge O I F} (eMem : e ∈ l) :
    (l.foldl (withEdge ios) g).outputFifo e.src = .edge e.key ∧
      (l.foldl (withEdge ios) g).inputFifo e.dst = .edge e.key := by
  induction l generalizing g with
  | nil => simp at eMem
  | cons other l ih =>
      rw [List.map_cons, List.nodup_cons] at srcNodup dstNodup
      rw [List.foldl_cons]
      rcases List.mem_cons.mp eMem with rfl | later
      · rw [withEdges_outputFifo_of_notMem srcNodup.1, withEdges_inputFifo_of_notMem dstNodup.1]
        exact ⟨Function.update_self _ _ _, Function.update_self _ _ _⟩
      · exact ih srcNodup.2 dstNodup.2 later

end Effects

/-! ### The edges after some outputs have been rewritten -/

/-- The arguments with which an output is connected to its duplicate node. -/
def dupOptions (a : O) : ConnectOptions F :=
  match mode.dupInputOptions (O := O) (I := I)
      ((g.edgesFrom (.output a)).map FIFOEdge.dupDestination) with
  | .ok options => options
  | .error _ => ConnectOptions.default F

/-- The edges of a duplicate node: the one from the output, then those to the destinations. -/
def dupEdges (d : ℕ) (a : O) : List (FIFOEdge O I F) :=
  g.newEdge ios (.output a) (.duplicate d) (g.dupOptions mode a) none ::
    (g.edgesFrom (.output a)).zipIdx.map fun (e, i) => dupOutputEdge ios d i e

/-- The edges when the outputs of a list have been rewritten, in this order. -/
def rewrittenEdges (split : List O) : List (FIFOEdge O I F) :=
  (g.edges.filter fun e => e.src ∉ split.map GraphOutput.output) ++
    split.zipIdx.flatMap fun (a, d) => g.dupEdges ios mode d a

/-- The duplicate node made for an output. -/
def newDuplicate (a : O) : Duplicate where
  theType := ios.outputType a
  inLength := ios.nbSamples a
  nb := (g.edgesFrom (.output a)).length

/-- The graph with one more duplicate node, which is not connected. -/
def withDuplicate (dup : Duplicate) : ConnectedGraph N O I F :=
  { g with duplicates := g.duplicates ++ [dup] }

/-- An output which gets a duplicate node. -/
def fanned (a : O) : Bool := (g.edgesFrom (.output a)).length ≠ 1

section Rewritten

omit [DecidableEq N] [DecidableEq I]

variable {ios mode g}

theorem mem_edgesFrom {a : GraphOutput O} {e : FIFOEdge O I F} :
    e ∈ g.edgesFrom a ↔ e ∈ g.edges ∧ e.src = a := by
  simp [edgesFrom]

theorem mem_dupEdges {d : ℕ} {a : O} {e : FIFOEdge O I F} :
    e ∈ g.dupEdges ios mode d a ↔
      e = g.newEdge ios (.output a) (.duplicate d) (g.dupOptions mode a) none ∨
        ∃ i orig, (g.edgesFrom (.output a))[i]? = some orig ∧ e = dupOutputEdge ios d i orig := by
  rw [dupEdges, List.mem_cons, List.mem_map]
  refine or_congr_right ⟨?_, ?_⟩
  · rintro ⟨⟨orig, i⟩, mem, rfl⟩
    exact ⟨i, orig, List.mem_zipIdx_iff_getElem?.mp mem, rfl⟩
  · rintro ⟨i, orig, found, rfl⟩
    exact ⟨(orig, i), List.mem_zipIdx_iff_getElem?.mpr found, rfl⟩

theorem mem_rewrittenEdges {split : List O} {e : FIFOEdge O I F} :
    e ∈ g.rewrittenEdges ios mode split ↔
      (e ∈ g.edges ∧ ∀ a ∈ split, e.src ≠ .output a) ∨
        ∃ d a, split[d]? = some a ∧ e ∈ g.dupEdges ios mode d a := by
  rw [rewrittenEdges, List.mem_append, List.mem_filter, List.mem_flatMap]
  refine or_congr ?_ ⟨?_, ?_⟩
  · simp [eq_comm]
  · rintro ⟨⟨a, d⟩, mem, eMem⟩
    exact ⟨d, a, List.mem_zipIdx_iff_getElem?.mp mem, eMem⟩
  · rintro ⟨d, a, found, eMem⟩
    exact ⟨(a, d), List.mem_zipIdx_iff_getElem?.mpr found, eMem⟩

/-- An edge of a duplicate node starts at the output or at the duplicate node. -/
theorem src_of_mem_dupEdges {d : ℕ} {a : O} {e : FIFOEdge O I F}
    (eMem : e ∈ g.dupEdges ios mode d a) : e.src = .output a ∨ ∃ i, e.src = .duplicate d i := by
  rcases mem_dupEdges.mp eMem with rfl | ⟨i, orig, -, rfl⟩
  · exact .inl rfl
  · exact .inr ⟨i, rfl⟩

theorem dst_of_mem_dupEdges {d : ℕ} {a : O} {e : FIFOEdge O I F}
    (eMem : e ∈ g.dupEdges ios mode d a) :
    e.dst = .duplicate d ∨ ∃ orig ∈ g.edgesFrom (.output a), e.dst = orig.dst := by
  rcases mem_dupEdges.mp eMem with rfl | ⟨i, orig, found, rfl⟩
  · exact .inl rfl
  · exact .inr ⟨orig, List.mem_of_getElem? found, rfl⟩

theorem dupEdges_src_nodup (d : ℕ) (a : O) :
    ((g.dupEdges ios mode d a).map FIFOEdge.src).Nodup := by
  have outputs : (((g.edgesFrom (.output a)).zipIdx.map fun (e, i) => dupOutputEdge ios d i e).map
      FIFOEdge.src) =
      (List.range (g.edgesFrom (.output a)).length).map (GraphOutput.duplicate d) := by
    rw [List.range_eq_range', ← List.zipIdx_map_snd 0, List.map_map, List.map_map]
    rfl
  rw [dupEdges, List.map_cons, outputs]
  refine List.nodup_cons.mpr ⟨?_, ?_⟩
  · intro mem
    rcases List.mem_map.mp mem with ⟨i, -, same⟩
    cases same
  · exact List.nodup_range.map fun i j same => by cases same; rfl

omit [DecidableEq O] in
theorem map_dst_dupOutputEdges (d i : ℕ) (leaving : List (FIFOEdge O I F)) :
    ((leaving.zipIdx i).map fun (e, i) => dupOutputEdge ios d i e).map FIFOEdge.dst =
      leaving.map FIFOEdge.dst := by
  rw [List.map_map]
  conv_rhs => rw [← List.zipIdx_map_fst i leaving, List.map_map]
  rfl

end Rewritten

section WellConnected

omit [DecidableEq N]

variable {ios mode g}

/-- The edges of an output enter different inputs. -/
theorem WellConnected.edgesFrom_dst_nodup (connected : WellConnected ios g) (a : GraphOutput O) :
    ((g.edgesFrom a).map FIFOEdge.dst).Nodup := by
  have keys : (g.edgesFrom a).map FIFOEdge.key =
      ((g.edgesFrom a).map FIFOEdge.dst).map fun b => (a, b) := by
    rw [List.map_map]
    apply List.map_congr_left
    intro e eMem
    exact Prod.ext (mem_edgesFrom.mp eMem).2 rfl
  have nodup : ((g.edgesFrom a).map FIFOEdge.key).Nodup :=
    connected.keys.sublist (List.filter_sublist.map _)
  rw [keys] at nodup
  exact List.Nodup.of_map _ nodup

theorem WellConnected.dst_ne_duplicate (connected : WellConnected ios g) {e : FIFOEdge O I F}
    (eMem : e ∈ g.edges) (d : ℕ) : e.dst ≠ .duplicate d := by
  rcases connected.destination e eMem with ⟨b, dstEq⟩
  rw [dstEq]
  intro same
  cases same

theorem WellConnected.src_ne_duplicate (connected : WellConnected ios g) {e : FIFOEdge O I F}
    (eMem : e ∈ g.edges) (d i : ℕ) : e.src ≠ .duplicate d i := by
  rcases connected.source e eMem with ⟨a, srcEq⟩
  rw [srcEq]
  intro same
  cases same

theorem WellConnected.dupEdges_dst_nodup (connected : WellConnected ios g) (d : ℕ) (a : O) :
    ((g.dupEdges ios mode d a).map FIFOEdge.dst).Nodup := by
  rw [dupEdges, List.map_cons, map_dst_dupOutputEdges]
  refine List.nodup_cons.mpr ⟨?_, connected.edgesFrom_dst_nodup _⟩
  intro mem
  rcases List.mem_map.mp mem with ⟨e, eMem, same⟩
  exact connected.dst_ne_duplicate (mem_edgesFrom.mp eMem).1 d same

end WellConnected

section Rewritten

omit [DecidableEq N] [DecidableEq I]

variable {ios mode g}

/-- Rewriting one more output removes its edges and appends those of its duplicate node. -/
theorem rewrittenEdges_append {split : List O} {a : O} (notMem : a ∉ split) :
    g.rewrittenEdges ios mode (split ++ [a]) =
      ((g.rewrittenEdges ios mode split).filter fun e => e.src ≠ .output a) ++
        g.dupEdges ios mode split.length a := by
  have kept : (g.edges.filter fun e => e.src ∉ split.map GraphOutput.output).filter
      (fun e => e.src ≠ .output a) =
      g.edges.filter fun e => e.src ∉ (split ++ [a]).map GraphOutput.output := by
    rw [List.filter_filter]
    apply List.filter_congr
    intro e _
    rw [← Bool.decide_and, decide_eq_decide, List.map_append, List.mem_append, not_or, and_comm]
    simp
  have others : (split.zipIdx.flatMap fun (a, d) => g.dupEdges ios mode d a).filter
      (fun e => e.src ≠ .output a) =
        split.zipIdx.flatMap fun (a, d) => g.dupEdges ios mode d a := by
    rw [List.filter_eq_self]
    intro e eMem
    rcases List.mem_flatMap.mp eMem with ⟨⟨other, d⟩, otherMem, eMem⟩
    rw [decide_eq_true_eq]
    rcases src_of_mem_dupEdges eMem with srcEq | ⟨i, srcEq⟩ <;> rw [srcEq] <;> intro same <;>
      cases same
    exact notMem (List.fst_mem_of_mem_zipIdx otherMem)
  rw [rewrittenEdges, rewrittenEdges, List.filter_append, kept, others, List.zipIdx_append,
    List.flatMap_append, List.append_assoc]
  simp

/-- The edges of an output which has not been rewritten. -/
theorem filter_src_rewrittenEdges {split : List O} {a : O} (notMem : a ∉ split) :
    ((g.rewrittenEdges ios mode split).filter fun e => e.src = .output a) =
      g.edgesFrom (.output a) := by
  have kept : (g.edges.filter fun e => e.src ∉ split.map GraphOutput.output).filter
      (fun e => e.src = .output a) = g.edgesFrom (.output a) := by
    rw [List.filter_filter]
    apply List.filter_congr
    intro e _
    rw [← Bool.decide_and, decide_eq_decide]
    refine and_iff_left_of_imp ?_
    intro srcEq
    simpa [srcEq] using notMem
  have others : (split.zipIdx.flatMap fun (a, d) => g.dupEdges ios mode d a).filter
      (fun e => e.src = .output a) = [] := by
    rw [List.filter_eq_nil_iff]
    intro e eMem
    rcases List.mem_flatMap.mp eMem with ⟨⟨other, d⟩, otherMem, eMem⟩
    rw [decide_eq_true_eq]
    rcases src_of_mem_dupEdges eMem with srcEq | ⟨i, srcEq⟩ <;> rw [srcEq] <;> intro same <;>
      cases same
    exact notMem (List.fst_mem_of_mem_zipIdx otherMem)
  rw [rewrittenEdges, List.filter_append, kept, others, List.append_nil]

end Rewritten

/-! ### The pass -/

/-- The graph `h` in the middle of the pass over `g`, when some outputs have been seen. -/
structure InsertedUpTo (ios : StreamingNodes N O I) (mode : SchedulingMode)
    (g : ConnectedGraph N O I F) (done : List O) (h : ConnectedGraph N O I F) : Prop where
  edges : h.edges = g.rewrittenEdges ios mode (done.filter g.fanned)
  duplicates : h.duplicates = (done.filter g.fanned).map (newDuplicate ios g)
  nodes : h.nodes = g.nodes ++ (List.range h.duplicates.length).map GraphNode.duplicate
  defaultFIFOClass : h.defaultFIFOClass = g.defaultFIFOClass
  keys : (h.edges.map FIFOEdge.key).Nodup
  inputs : ∀ b, (h.edges.map FIFOEdge.dst).count (.input b) =
    (g.edges.map FIFOEdge.dst).count (.input b)
  unseen : ∀ a ∉ done, h.outputFifo (.output a) = g.outputFifo (.output a)
  seen : ∀ e ∈ h.edges, (∀ a, e.src = .output a → a ∈ done) → h.outputFifo e.src = .edge e.key
  seenInput : ∀ e ∈ h.edges, (∀ a, e.src = .output a → a ∈ done) →
    (∀ other ∈ h.edges, other.dst = e.dst → other = e) → h.inputFifo e.dst = .edge e.key
  inputEdge : ∀ b key, h.inputFifo b = .edge key → ∃ e ∈ h.edges, e.dst = b ∧ e.key = key
  seenEdge : ∀ e ∈ h.edges, (∀ a, e.src = .output a → a ∈ done) →
    ∃ key, h.inputFifo e.dst = .edge key
  noEdge : ∀ b, (∀ e ∈ h.edges, e.dst ≠ .input b) → h.inputFifo (.input b) = .list []

section Pass

variable {ios mode g} {done : List O} {h : ConnectedGraph N O I F}

namespace InsertedUpTo

omit [DecidableEq N] in
theorem nbDuplicates (inserted : InsertedUpTo ios mode g done h) :
    h.duplicates.length = (done.filter g.fanned).length := by
  rw [inserted.duplicates, List.length_map]

omit [DecidableEq N] in
/-- An edge either was in the graph or belongs to a duplicate node. -/
theorem mem_edges (inserted : InsertedUpTo ios mode g done h) {e : FIFOEdge O I F} :
    e ∈ h.edges ↔
      (e ∈ g.edges ∧ ∀ a ∈ done.filter g.fanned, e.src ≠ .output a) ∨
        ∃ d a, (done.filter g.fanned)[d]? = some a ∧ e ∈ g.dupEdges ios mode d a := by
  rw [inserted.edges, mem_rewrittenEdges]

omit [DecidableEq N] in
theorem src_duplicate_lt (inserted : InsertedUpTo ios mode g done h)
    (connected : WellConnected ios g) {e : FIFOEdge O I F} (eMem : e ∈ h.edges) {d i : ℕ}
    (srcEq : e.src = .duplicate d i) : d < h.duplicates.length := by
  rw [inserted.nbDuplicates]
  rcases inserted.mem_edges.mp eMem with ⟨old, -⟩ | ⟨other, a, found, new⟩
  · exact absurd srcEq (connected.src_ne_duplicate old d i)
  · rcases src_of_mem_dupEdges new with isOutput | ⟨j, isDuplicate⟩
    · rw [isOutput] at srcEq
      cases srcEq
    · rw [isDuplicate] at srcEq
      cases srcEq
      exact (List.getElem?_eq_some_iff.mp found).1

omit [DecidableEq N] in
theorem dst_duplicate_lt (inserted : InsertedUpTo ios mode g done h)
    (connected : WellConnected ios g) {e : FIFOEdge O I F} (eMem : e ∈ h.edges) {d : ℕ}
    (dstEq : e.dst = .duplicate d) : d < h.duplicates.length := by
  rw [inserted.nbDuplicates]
  rcases inserted.mem_edges.mp eMem with ⟨old, -⟩ | ⟨other, a, found, new⟩
  · exact absurd dstEq (connected.dst_ne_duplicate old d)
  · rcases dst_of_mem_dupEdges new with isDuplicate | ⟨orig, origMem, isInput⟩
    · rw [isDuplicate] at dstEq
      cases dstEq
      exact (List.getElem?_eq_some_iff.mp found).1
    · rw [isInput] at dstEq
      exact absurd dstEq (connected.dst_ne_duplicate (mem_edgesFrom.mp origMem).1 d)

omit [DecidableEq N] in
/-- The edges of an output which has not been seen are those of the graph. -/
theorem edgesFrom_unseen (inserted : InsertedUpTo ios mode g done h) {a : O}
    (unseen : a ∉ done) : h.edgesFrom (.output a) = g.edgesFrom (.output a) := by
  rw [edgesFrom, inserted.edges]
  exact filter_src_rewrittenEdges fun mem => unseen (List.mem_filter.mp mem).1

/-- An output with a single edge keeps it; the `fifo` fields become the edge. -/
theorem single (inserted : InsertedUpTo ios mode g done h) (connected : WellConnected ios g)
    {a : O} (unseen : a ∉ done) {e : FIFOEdge O I F} (single : g.edgesFrom (.output a) = [e]) :
    ∃ next, h.insertDuplicate ios mode (.output a) = .ok next ∧
      InsertedUpTo ios mode g (done ++ [a]) next := by
  have eMem : e ∈ h.edges ∧ e.src = .output a := by
    apply mem_edgesFrom.mp
    rw [inserted.edgesFrom_unseen unseen, single]
    exact List.mem_singleton_self e
  have fifo : h.outputFifo (.output a) = .list [e.key] := by
    rw [inserted.unseen a unseen, connected.outputFifo, single]
    rfl
  have notFanned : (done ++ [a]).filter g.fanned = done.filter g.fanned := by
    simp [List.filter_append, fanned, single]
  have srcNe : ∀ other ∈ h.edges, other ≠ e → other.src ≠ e.src := by
    intro other otherMem differ sameSrc
    have leaving := mem_edgesFrom.mpr ⟨otherMem, sameSrc.trans eMem.2⟩
    rw [inserted.edgesFrom_unseen unseen, single, List.mem_singleton] at leaving
    exact differ leaving
  have seenBefore : ∀ other ∈ h.edges, other ≠ e →
      (∀ b, other.src = .output b → b ∈ done ++ [a]) → ∀ b, other.src = .output b → b ∈ done := by
    intro other otherMem differ seen b srcEq
    rcases List.mem_append.mp (seen b srcEq) with old | new
    · exact old
    · rw [List.mem_singleton.mp new, ← eMem.2] at srcEq
      exact absurd srcEq (srcNe other otherMem differ)
  refine ⟨{ h with
      outputFifo := Function.update h.outputFifo e.src (.edge e.key)
      inputFifo := Function.update h.inputFifo e.dst (.edge e.key) }, ?_, ?_⟩
  · rw [insertDuplicate, fifo]
    rfl
  · exact
      { edges := by rw [notFanned]; exact inserted.edges
        duplicates := by rw [notFanned]; exact inserted.duplicates
        nodes := inserted.nodes
        defaultFIFOClass := inserted.defaultFIFOClass
        keys := inserted.keys
        inputs := inserted.inputs
        unseen := by
          intro other otherUnseen
          rw [List.mem_append, not_or, List.mem_singleton] at otherUnseen
          change Function.update h.outputFifo e.src _ (.output other) = _
          rw [Function.update_of_ne, inserted.unseen other otherUnseen.1]
          rw [eMem.2]
          exact fun same => otherUnseen.2 (GraphOutput.output.inj same)
        seen := by
          intro other otherMem seen
          change Function.update h.outputFifo e.src _ other.src = _
          by_cases same : other = e
          · subst same
            exact Function.update_self _ _ _
          · rw [Function.update_of_ne (srcNe other otherMem same)]
            exact inserted.seen other otherMem (seenBefore other otherMem same seen)
        seenInput := by
          intro other otherMem seen alone
          change Function.update h.inputFifo e.dst _ other.dst = _
          by_cases same : other = e
          · subst same
            exact Function.update_self _ _ _
          · rw [Function.update_of_ne fun sameDst => same (alone e eMem.1 sameDst.symm).symm]
            exact inserted.seenInput other otherMem (seenBefore other otherMem same seen) alone
        inputEdge := by
          intro b key isEdge
          change Function.update h.inputFifo e.dst _ b = _ at isEdge
          by_cases isDst : b = e.dst
          · subst isDst
            rw [Function.update_self] at isEdge
            exact ⟨e, eMem.1, rfl, IOFifo.edge.inj isEdge⟩
          · rw [Function.update_of_ne isDst] at isEdge
            exact inserted.inputEdge b key isEdge
        seenEdge := by
          intro other otherMem seen
          change ∃ key, Function.update h.inputFifo e.dst _ other.dst = .edge key
          by_cases isDst : other.dst = e.dst
          · rw [isDst, Function.update_self]
            exact ⟨_, rfl⟩
          · rw [Function.update_of_ne isDst]
            exact inserted.seenEdge other otherMem
              (seenBefore other otherMem (fun same => isDst (congrArg FIFOEdge.dst same)) seen)
        noEdge := by
          intro b unconnected
          change Function.update h.inputFifo e.dst _ _ = _
          rw [Function.update_of_ne (unconnected e eMem.1).symm]
          exact inserted.noEdge b unconnected }

variable (inserted : InsertedUpTo ios mode g done h) (connected : WellConnected ios g) {a : O}
  (unseen : a ∉ done)

/-- The graph whose output `a` is disconnected, when its duplicate node has been made. -/
def disconnected (ios : StreamingNodes N O I) (g h : ConnectedGraph N O I F) (a : O) :
    ConnectedGraph N O I F :=
  (h.withDuplicate (newDuplicate ios g a)).withoutEdges (g.edgesFrom (.output a))

include inserted unseen in
omit [DecidableEq N] in
theorem disconnected_edges :
    (disconnected ios g h a).edges = h.edges.filter fun e => e.src ≠ .output a := by
  change h.edges.filter (fun e => e.key ∉ (g.edgesFrom (.output a)).map FIFOEdge.key) = _
  rw [← inserted.edgesFrom_unseen unseen]
  apply List.filter_congr
  intro e eMem
  rw [decide_eq_decide, not_iff_not, List.mem_map]
  constructor
  · rintro ⟨other, otherMem, sameKey⟩
    rw [← (mem_edgesFrom.mp otherMem).2]
    exact (congrArg Prod.fst sameKey).symm
  · exact fun srcEq => ⟨e, mem_edgesFrom.mpr ⟨eMem, srcEq⟩, rfl⟩

omit [DecidableEq N] [DecidableEq O] [DecidableEq I] in
theorem newEdge_congr {g h : ConnectedGraph N O I F} {a : GraphOutput O} {b : GraphInput I}
    {options : ConnectOptions F} {delay : Option ℤ}
    (same : h.defaultFIFOClass = g.defaultFIFOClass) :
    h.newEdge ios a b options delay = g.newEdge ios a b options delay := by
  rw [newEdge, newEdge, connectedEdge, connectedEdge, same]

omit [DecidableEq N] [DecidableEq O] [DecidableEq I] in
theorem compatible_duplicate {d i : ℕ} {b : I} {dup : Duplicate}
    (found : h.duplicates[d]? = some dup) :
    h.compatible ios (.duplicate d i) (.input b) = dup.theType.equals (ios.inputType b) := by
  simp [ConnectedGraph.compatible, outputType, inputType, found]

theorem insertDuplicate_of_list {fifo : List (EdgeKey O I)}
    (isList : h.outputFifo (.output a) = .list fifo) (several : fifo.length ≠ 1) :
    h.insertDuplicate ios mode (.output a) = (do
      let (destinations, next) ←
        (h.withDuplicate ⟨ios.outputType a, ios.nbSamples a, fifo.length⟩).disconnect fifo
      let options ← mode.dupInputOptions destinations
      let next ← next.connect ios (.output a) (.duplicate h.duplicates.length) false options
      connectDestinations ios h.duplicates.length next 0 destinations) := by
  rw [insertDuplicate, isList]
  match fifo, several with
  | [], _ => rfl
  | [_], notOne => exact absurd rfl notOne
  | _ :: _ :: _, _ => rfl

omit [DecidableEq N] [DecidableEq I] in
/-- The maximum exists, unless an output of an asynchronous graph is not connected. -/
theorem dupInputOptions_eq (nonempty : mode.asynchronous = true ∨ mode.fullyAsynchronous = true →
      g.edgesFrom (.output a) ≠ []) :
    mode.dupInputOptions (O := O) (I := I)
      ((g.edgesFrom (.output a)).map FIFOEdge.dupDestination) = .ok (g.dupOptions mode a) := by
  unfold dupOptions SchedulingMode.dupInputOptions
  split_ifs with asynchronous fullyAsynchronous
  · rcases List.exists_cons_of_ne_nil (nonempty (.inl asynchronous)) with ⟨e, l, leaving⟩
    rw [leaving]
    rfl
  · rcases List.exists_cons_of_ne_nil (nonempty (.inr fullyAsynchronous)) with ⟨e, l, leaving⟩
    rw [leaving]
    rfl
  · rfl

include inserted connected unseen in
/-- An output without a single edge gets its duplicate node, or an edge has a constraint of
its own. -/
theorem insertDuplicate_fanned (fanned : g.fanned a = true)
    (nonempty : mode.asynchronous = true ∨ mode.fullyAsynchronous = true →
      g.edgesFrom (.output a) ≠ []) :
    (∃ e ∈ g.edgesFrom (.output a), e.ownConstraint = true ∧
      h.insertDuplicate ios mode (.output a) =
        .error (.cantHaveBufferConstraintOnFIFOWhenDuplicateIsInserted e.src e.dst)) ∨
    (∀ e ∈ g.edgesFrom (.output a), e.ownConstraint = false) ∧
      h.insertDuplicate ios mode (.output a) =
        .ok ((g.dupEdges ios mode h.duplicates.length a).foldl (withEdge ios)
          (disconnected ios g h a)) := by
  have hLeaving := inserted.edgesFrom_unseen unseen
  have leavingMem : ∀ e ∈ g.edgesFrom (.output a), e ∈ h.edges ∧ e.src = .output a := by
    intro e eMem
    rw [← hLeaving] at eMem
    exact mem_edgesFrom.mp eMem
  have fifo : h.outputFifo (.output a) =
      .list ((g.edgesFrom (.output a)).map FIFOEdge.key) := by
    rw [inserted.unseen a unseen, connected.outputFifo]
  have several : ((g.edgesFrom (.output a)).map FIFOEdge.key).length ≠ 1 := by
    rw [List.length_map]
    simpa [ConnectedGraph.fanned] using fanned
  have dstNodup := connected.edgesFrom_dst_nodup (.output a)
  rw [insertDuplicate_of_list fifo several, List.length_map]
  change (∃ e ∈ _, _ ∧ (((h.withDuplicate (newDuplicate ios g a)).disconnect _ >>= _) = _)) ∨
    _ ∧ (((h.withDuplicate (newDuplicate ios g a)).disconnect _ >>= _) = _)
  rcases disconnect_edges (g := h.withDuplicate (newDuplicate ios g a)) inserted.keys
      (fun e eMem => (leavingMem e eMem).1) (List.Nodup.of_map _ dstNodup) with
    ⟨e, eMem, own, run⟩ | ⟨quiet, run⟩
  · refine .inl ⟨e, eMem, own, ?_⟩
    rw [run]
    rfl
  · refine .inr ⟨quiet, ?_⟩
    rw [run]
    change ((mode.dupInputOptions ((g.edgesFrom (.output a)).map FIFOEdge.dupDestination)) >>= _)
      = _
    rw [dupInputOptions_eq nonempty]
    change (connect ios (disconnected ios g h a) (.output a) (.duplicate h.duplicates.length) false
      (g.dupOptions mode a) >>= _) = _
    have edges := disconnected_edges inserted unseen
    have lastDuplicate : (disconnected ios g h a).duplicates[h.duplicates.length]? =
        some (newDuplicate ios g a) := by
      simp [disconnected, withoutEdges, withDuplicate]
    have newKey : ∀ e ∈ (disconnected ios g h a).edges,
        e.key ≠ (.output a, .duplicate h.duplicates.length) := by
      intro e eMem sameKey
      rw [edges] at eMem
      have less := inserted.dst_duplicate_lt connected (List.mem_filter.mp eMem).1
        (congrArg Prod.snd sameKey)
      exact less.false
    have compatible : (disconnected ios g h a).compatible ios (.output a)
        (.duplicate h.duplicates.length) = true := by
      simp [ConnectedGraph.compatible, outputType, inputType, lastDuplicate, newDuplicate]
    have consistent : constraintsConflict ios (.output a)
        (.duplicate (I := I) h.duplicates.length) = false := by
      cases constraint : ios.outputConstraint a <;>
        simp [constraintsConflict, outputConstraint, inputConstraint, constraint]
    have sameClass : (disconnected ios g h a).defaultFIFOClass = g.defaultFIFOClass :=
      inserted.defaultFIFOClass
    rw [connect_withEdge newKey compatible consistent, newEdge_congr sameClass]
    refine connectDestinations_withEdge (i := 0) ?_ ?_
    · intro e eMem j _ srcEq
      change e ∈ (disconnected ios g h a).edges ++ [_] at eMem
      rw [edges, List.mem_append] at eMem
      rcases eMem with old | new
      · exact (inserted.src_duplicate_lt connected (List.mem_filter.mp old).1 srcEq).false
      · rw [List.mem_singleton.mp new] at srcEq
        cases srcEq
    · intro e eMem i
      have typesEqual := connected.compatible e (mem_edgesFrom.mp eMem).1
      rcases connected.destination e (mem_edgesFrom.mp eMem).1 with ⟨b, dstEq⟩
      rw [dstEq, (mem_edgesFrom.mp eMem).2] at typesEqual
      rw [dstEq]
      refine (compatible_duplicate (i := i) lastDuplicate).trans ?_
      simpa [ConnectedGraph.compatible, outputType, inputType, newDuplicate] using typesEqual

include inserted connected in
omit [DecidableEq N] in
theorem src_ne_dupEdge {e new : FIFOEdge O I F} (eMem : e ∈ h.edges) (srcNe : e.src ≠ .output a)
    (newMem : new ∈ g.dupEdges ios mode h.duplicates.length a) : e.src ≠ new.src := by
  intro sameSrc
  rcases src_of_mem_dupEdges newMem with isOutput | ⟨i, isDuplicate⟩
  · exact srcNe (sameSrc.trans isOutput)
  · exact (inserted.src_duplicate_lt connected eMem (sameSrc.trans isDuplicate)).false

include inserted unseen in
omit [DecidableEq N] in
/-- The inputs of the nodes of the user keep their number of edges. -/
theorem fannedOut_inputs (b : I) :
    (((h.edges.filter fun e => e.src ≠ .output a) ++
      g.dupEdges ios mode h.duplicates.length a).map FIFOEdge.dst).count (.input b) =
      (g.edges.map FIFOEdge.dst).count (.input b) := by
  have split : ((h.edges.filter fun e => e.src = .output a) ++
      h.edges.filter fun e => ¬ e.src = .output a).Perm h.edges := by
    simpa using List.filter_append_perm (fun e => decide (e.src = .output a)) h.edges
  have leaving : (h.edges.filter fun e => e.src = .output a) = g.edgesFrom (.output a) :=
    inserted.edgesFrom_unseen unseen
  have counts := (split.map FIFOEdge.dst).count_eq (.input b)
  rw [leaving, List.map_append, List.count_append, inserted.inputs] at counts
  rw [List.map_append, List.count_append, dupEdges, List.map_cons, map_dst_dupOutputEdges,
    List.count_cons_of_ne, add_comm]
  · exact counts
  · intro same
    cases same

include inserted connected in
/-- Connecting the duplicate node adds it to the nodes. -/
theorem fannedOut_nodes (owner : GraphNode.node (ios.owner a) ∈ g.nodes) :
    ((g.dupEdges ios mode h.duplicates.length a).foldl (withEdge ios)
      (disconnected ios g h a)).nodes = h.nodes ++ [.duplicate h.duplicates.length] := by
  have ownerMem : GraphNode.node (ios.owner a) ∈ h.nodes := by
    rw [inserted.nodes]
    exact List.mem_append_left _ owner
  have newNode : GraphNode.duplicate h.duplicates.length ∉ h.nodes := by
    rw [inserted.nodes, List.mem_append, not_or]
    refine ⟨?_, by simp⟩
    intro mem
    rcases connected.nodesUser _ mem with ⟨n, same⟩
    cases same
  have first : ((disconnected ios g h a).withEdge ios (g.newEdge ios (.output a)
      (.duplicate h.duplicates.length) (g.dupOptions mode a) none)).nodes =
      h.nodes ++ [.duplicate h.duplicates.length] := by
    change addNode (.duplicate h.duplicates.length) (addNode (.node (ios.owner a)) h.nodes) = _
    rw [addNode_of_mem ownerMem, addNode, if_neg newNode]
  rw [dupEdges, List.foldl_cons, withEdges_nodes, first]
  intro e eMem
  rw [first]
  rcases List.mem_map.mp eMem with ⟨⟨orig, i⟩, origMem, rfl⟩
  have inGraph := (mem_edgesFrom.mp (List.fst_mem_of_mem_zipIdx origMem)).1
  refine ⟨List.mem_append_right _ (List.mem_singleton_self _), List.mem_append_left _ ?_⟩
  rw [inserted.nodes]
  exact List.mem_append_left _ (connected.owners orig inGraph).2

include inserted unseen in
/-- The inputs which get no edge of the duplicate node are left as they were. -/
theorem fannedOut_inputFifo {b : GraphInput I}
    (notNew : b ∉ (g.dupEdges ios mode h.duplicates.length a).map FIFOEdge.dst) :
    ((g.dupEdges ios mode h.duplicates.length a).foldl (withEdge ios)
        (disconnected ios g h a)).inputFifo b = h.inputFifo b ∧
      ∀ e ∈ h.edges, e.dst = b → e.src ≠ .output a := by
  have notLeaving : b ∉ (g.edgesFrom (.output a)).map FIFOEdge.dst := by
    rw [dupEdges, List.map_cons, map_dst_dupOutputEdges, List.mem_cons, not_or] at notNew
    exact notNew.2
  rw [withEdges_inputFifo_of_notMem notNew]
  refine ⟨if_neg notLeaving, ?_⟩
  intro e eMem dstEq srcEq
  apply notLeaving
  rw [← inserted.edgesFrom_unseen unseen]
  exact List.mem_map.mpr ⟨e, mem_edgesFrom.mpr ⟨eMem, srcEq⟩, dstEq⟩

include inserted connected unseen in
/-- Rewriting one more output keeps the description of the graph. -/
theorem fannedOut (fanned : g.fanned a = true)
    (owner : GraphNode.node (ios.owner a) ∈ g.nodes) :
    InsertedUpTo ios mode g (done ++ [a])
      ((g.dupEdges ios mode h.duplicates.length a).foldl (withEdge ios)
        (disconnected ios g h a)) := by
  have edges := disconnected_edges inserted unseen
  have splitAppend : (done ++ [a]).filter g.fanned = done.filter g.fanned ++ [a] := by
    simp [List.filter_append, fanned]
  have notSplit : a ∉ done.filter g.fanned := fun mem => unseen (List.mem_filter.mp mem).1
  have seenBefore : ∀ e : FIFOEdge O I F, e.src ≠ .output a →
      (∀ b, e.src = .output b → b ∈ done ++ [a]) → ∀ b, e.src = .output b → b ∈ done := by
    intro e srcNe seen b srcEq
    rcases List.mem_append.mp (seen b srcEq) with old | new
    · exact old
    · rw [List.mem_singleton.mp new] at srcEq
      exact absurd srcEq srcNe
  exact
    { edges := by
        rw [withEdges_edges, edges, splitAppend, rewrittenEdges_append notSplit, inserted.edges,
          inserted.nbDuplicates]
      duplicates := by
        rw [withEdges_duplicates, splitAppend, List.map_append, ← inserted.duplicates]
        rfl
      nodes := by
        have nbDuplicates : (disconnected ios g h a).duplicates.length =
            h.duplicates.length + 1 := by
          simp [disconnected, withoutEdges, withDuplicate]
        rw [withEdges_duplicates, fannedOut_nodes inserted connected owner, nbDuplicates,
          List.range_succ, List.map_append, ← List.append_assoc, ← inserted.nodes]
        rfl
      defaultFIFOClass := by
        rw [withEdges_defaultFIFOClass]
        exact inserted.defaultFIFOClass
      keys := by
        rw [withEdges_edges, edges, List.map_append]
        refine List.nodup_append.mpr ⟨inserted.keys.sublist (List.filter_sublist.map _),
          List.Nodup.of_map Prod.fst ?_, ?_⟩
        · rw [List.map_map]
          exact dupEdges_src_nodup _ a
        · intro key keyMem newKey newMem
          rcases List.mem_map.mp keyMem with ⟨e, eMem, rfl⟩
          rcases List.mem_map.mp newMem with ⟨new, newEdgeMem, rfl⟩
          rw [List.mem_filter, decide_eq_true_eq] at eMem
          exact fun same => inserted.src_ne_dupEdge connected eMem.1 eMem.2 newEdgeMem
            (congrArg Prod.fst same)
      inputs := by
        intro b
        rw [withEdges_edges, edges]
        exact fannedOut_inputs inserted unseen b
      unseen := by
        intro other otherUnseen
        rw [List.mem_append, not_or, List.mem_singleton] at otherUnseen
        have outputNe : GraphOutput.output other ≠ .output a :=
          fun same => otherUnseen.2 (GraphOutput.output.inj same)
        have notNew : GraphOutput.output other ∉
            (g.dupEdges ios mode h.duplicates.length a).map FIFOEdge.src := by
          intro mem
          rcases List.mem_map.mp mem with ⟨new, newMem, srcEq⟩
          rcases src_of_mem_dupEdges newMem with isOutput | ⟨i, isDuplicate⟩
          · exact outputNe (srcEq.symm.trans isOutput)
          · rw [isDuplicate] at srcEq
            cases srcEq
        rw [withEdges_outputFifo_of_notMem notNew, ← inserted.unseen other otherUnseen.1]
        refine if_neg ?_
        intro mem
        rcases List.mem_map.mp mem with ⟨e, eMem, srcEq⟩
        exact outputNe (srcEq.symm.trans (mem_edgesFrom.mp eMem).2)
      seen := by
        intro e eMem seen
        rw [withEdges_edges, edges, List.mem_append, List.mem_filter, decide_eq_true_eq] at eMem
        rcases eMem with ⟨eMem, srcNe⟩ | new
        · rw [withEdges_outputFifo_of_notMem]
          · refine (if_neg ?_).trans (inserted.seen e eMem (seenBefore e srcNe seen))
            intro mem
            rcases List.mem_map.mp mem with ⟨leaving, leavingMem, srcEq⟩
            exact srcNe (srcEq.symm.trans (mem_edgesFrom.mp leavingMem).2)
          · intro mem
            rcases List.mem_map.mp mem with ⟨new, newMem, srcEq⟩
            exact inserted.src_ne_dupEdge connected eMem srcNe newMem srcEq.symm
        · exact (withEdges_fifo_of_mem (dupEdges_src_nodup _ a)
            (connected.dupEdges_dst_nodup _ a) new).1
      seenInput := by
        intro e eMem seen alone
        rw [withEdges_edges, edges] at eMem alone
        rw [List.mem_append, List.mem_filter, decide_eq_true_eq] at eMem
        rcases eMem with ⟨eMem, srcNe⟩ | new
        · have dstNew : ∀ new ∈ g.dupEdges ios mode h.duplicates.length a, new.dst ≠ e.dst := by
            intro new newMem dstEq
            have same := alone new (List.mem_append_right _ newMem) dstEq
            rw [same] at newMem
            exact inserted.src_ne_dupEdge connected eMem srcNe newMem rfl
          have dstLeaving : ∀ leaving ∈ g.edgesFrom (.output a), leaving.dst ≠ e.dst := by
            intro leaving leavingMem dstEq
            rcases List.mem_iff_getElem?.mp leavingMem with ⟨i, found⟩
            exact dstNew _ (mem_dupEdges.mpr (.inr ⟨i, leaving, found, rfl⟩)) dstEq
          have aloneBefore : ∀ other ∈ h.edges, other.dst = e.dst → other = e := by
            intro other otherMem dstEq
            by_cases leaves : other.src = .output a
            · have leavingMem := mem_edgesFrom.mpr ⟨otherMem, leaves⟩
              rw [inserted.edgesFrom_unseen unseen] at leavingMem
              exact absurd dstEq (dstLeaving other leavingMem)
            · exact alone other (List.mem_append_left _ (List.mem_filter.mpr
                ⟨otherMem, decide_eq_true leaves⟩)) dstEq
          rw [withEdges_inputFifo_of_notMem]
          · refine (if_neg ?_).trans
              (inserted.seenInput e eMem (seenBefore e srcNe seen) aloneBefore)
            intro mem
            rcases List.mem_map.mp mem with ⟨leaving, leavingMem, dstEq⟩
            exact dstLeaving leaving leavingMem dstEq
          · intro mem
            rcases List.mem_map.mp mem with ⟨new, newMem, dstEq⟩
            exact dstNew new newMem dstEq
        · exact (withEdges_fifo_of_mem (dupEdges_src_nodup _ a)
            (connected.dupEdges_dst_nodup _ a) new).2
      inputEdge := by
        intro b key isEdge
        rw [withEdges_edges, edges]
        by_cases isNew : b ∈ (g.dupEdges ios mode h.duplicates.length a).map FIFOEdge.dst
        · rcases List.mem_map.mp isNew with ⟨new, newMem, rfl⟩
          rw [(withEdges_fifo_of_mem (dupEdges_src_nodup _ a) (connected.dupEdges_dst_nodup _ a)
            newMem).2] at isEdge
          exact ⟨new, List.mem_append_right _ newMem, rfl, IOFifo.edge.inj isEdge⟩
        · rcases fannedOut_inputFifo inserted unseen isNew with ⟨same, notLeaving⟩
          rcases inserted.inputEdge b key (same.symm.trans isEdge) with ⟨e, eMem, dstEq, keyEq⟩
          exact ⟨e, List.mem_append_left _ (List.mem_filter.mpr
            ⟨eMem, decide_eq_true (notLeaving e eMem dstEq)⟩), dstEq, keyEq⟩
      seenEdge := by
        intro e eMem seen
        rw [withEdges_edges, edges, List.mem_append, List.mem_filter, decide_eq_true_eq] at eMem
        by_cases isNew : e.dst ∈ (g.dupEdges ios mode h.duplicates.length a).map FIFOEdge.dst
        · rcases List.mem_map.mp isNew with ⟨new, newMem, dstEq⟩
          rw [← dstEq]
          exact ⟨_, (withEdges_fifo_of_mem (dupEdges_src_nodup _ a)
            (connected.dupEdges_dst_nodup _ a) newMem).2⟩
        · rcases eMem with ⟨eMem, srcNe⟩ | new
          · rw [(fannedOut_inputFifo inserted unseen isNew).1]
            exact inserted.seenEdge e eMem (seenBefore e srcNe seen)
          · exact absurd (List.mem_map_of_mem new) isNew
      noEdge := by
        intro b unconnected
        rw [withEdges_edges, edges] at unconnected
        have notNew : GraphInput.input b ∉
            (g.dupEdges ios mode h.duplicates.length a).map FIFOEdge.dst := by
          intro isNew
          rcases List.mem_map.mp isNew with ⟨new, newMem, dstEq⟩
          exact unconnected new (List.mem_append_right _ newMem) dstEq
        rcases fannedOut_inputFifo inserted unseen notNew with ⟨same, notLeaving⟩
        rw [same]
        apply inserted.noEdge
        intro e eMem dstEq
        exact unconnected e (List.mem_append_left _ (List.mem_filter.mpr
          ⟨eMem, decide_eq_true (notLeaving e eMem dstEq)⟩)) dstEq }

end InsertedUpTo

end Pass

end ConnectedGraph

end CmsisStream.Scheduler
