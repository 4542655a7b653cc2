import CmsisStream.Scheduler.InsertDuplicates

/-!
# What the insertion of the duplicate nodes preserves

After the pass each output has a single edge and each input has as many as
before.  An edge of the graph either is still there or has been replaced by a path
through a duplicate node, which carries its attributes.  The pass only fails on an
edge which shares its output with another one and has a buffer constraint of its
own, unless the user connects a pair of IOs twice or forgets an output in the
asynchronous modes.
-/

namespace CmsisStream.Scheduler.ConnectedGraph

variable {N O I F : Type} [DecidableEq N] [DecidableEq O] [DecidableEq I]

/-- An output connected to several inputs. -/
def FannedOut (g : ConnectedGraph N O I F) (a : GraphOutput O) : Prop :=
  ∃ e ∈ g.edges, ∃ other ∈ g.edges, e ≠ other ∧ e.src = a ∧ other.src = a

/-- An edge with a buffer constraint which does not come from one of its IOs. -/
def OwnConstraint (ios : StreamingNodes N O I) (e : FIFOEdge O I F) : Prop :=
  e.customBuffer.isSome = true ∧ outputConstraint ios e.src = none ∧
    inputConstraint ios e.dst = none

/-- A path from the output to the input of an edge, through the output `i` of the duplicate
node `d`. -/
structure PathThrough (g' : ConnectedGraph N O I F) (e : FIFOEdge O I F) (d i : ℕ)
    (first last : FIFOEdge O I F) : Prop where
  firstMem : first ∈ g'.edges
  lastMem : last ∈ g'.edges
  firstSrc : first.src = e.src
  firstDst : first.dst = .duplicate d
  lastSrc : last.src = .duplicate d i
  lastDst : last.dst = e.dst

/-- The two edges of a path carry what was recorded for the edge which they replace. -/
structure Carries (ios : StreamingNodes N O I) (mode : SchedulingMode)
    (g : ConnectedGraph N O I F) (e first last : FIFOEdge O I F) : Prop where
  delay : last.delayValue = e.delayValue
  fifoClass : last.fifoClass = e.fifoClass
  fifoScale : last.fifoScale = e.fifoScale
  fifoAsyncLength : last.fifoAsyncLength = e.fifoAsyncLength
  weak : last.weak = e.weak
  inputDelay : first.delayValue = 0
  inputWeak : first.weak = false
  maxScale : mode.asynchronous = true →
    IsGreatest {scale | ∃ other ∈ g.edges, other.src = e.src ∧ other.fifoScale = scale}
      first.fifoScale
  maxAsyncLength : mode.asynchronous = false → mode.fullyAsynchronous = true →
    IsGreatest {length | ∃ other ∈ g.edges, other.src = e.src ∧ other.fifoAsyncLength = length}
      first.fifoAsyncLength
  outputConstraint : first.customBuffer = outputConstraint ios e.src
  inputConstraint : last.customBuffer = inputConstraint ios e.dst

/-- The graph `g'` is the graph `g` with the duplicate nodes it needs. -/
structure Duplicated (ios : StreamingNodes N O I) (mode : SchedulingMode)
    (g g' : ConnectedGraph N O I F) : Prop where
  outputs : ∀ a, GraphNode.node (ios.owner a) ∈ g.nodes →
    ∃! e, e ∈ g'.edges ∧ e.src = .output a
  inputs : ∀ b, (g'.edgesInto (.input b)).length = (g.edgesInto (.input b)).length
  duplicateOutputs : ∀ d dup, g'.duplicates[d]? = some dup → ∀ i < dup.nb,
    ∃! e, e ∈ g'.edges ∧ e.src = .duplicate d i
  duplicateInputs : ∀ d < g'.duplicates.length, ∃! e, e ∈ g'.edges ∧ e.dst = .duplicate d
  original : ∀ e ∈ g.edges,
    (¬ g.FannedOut e.src ∧ e ∈ g'.edges ∧ ∀ d i first last, ¬ g'.PathThrough e d i first last) ∨
    (g.FannedOut e.src ∧ e ∉ g'.edges ∧ ∃ d i first last,
      g'.PathThrough e d i first last ∧ Carries ios mode g e first last ∧
        ∀ d' i' first' last', g'.PathThrough e d' i' first' last' →
          d' = d ∧ i' = i ∧ first' = first ∧ last' = last)
  only : ∀ e' ∈ g'.edges, e' ∈ g.edges ∨
    (∃ d < g'.duplicates.length, ∃ a, e'.src = .output a ∧ e'.dst = .duplicate d) ∨
    ∃ e ∈ g.edges, ∃ d i first, g'.PathThrough e d i first e'
  duplicates : ∀ d dup, g'.duplicates[d]? = some dup →
    ∃ a, dup = newDuplicate ios g a ∧ ∃ e ∈ g'.edges, e.src = .output a ∧ e.dst = .duplicate d
  outputFifo : ∀ e ∈ g'.edges, g'.outputFifo e.src = .edge e.key
  inputFifo : ∀ e ∈ g'.edges, (∀ other ∈ g'.edges, other.dst = e.dst → other = e) →
    g'.inputFifo e.dst = .edge e.key

variable {ios : StreamingNodes N O I} {mode : SchedulingMode} {g g' : ConnectedGraph N O I F}

/-! ### The outputs which the pass goes through -/

/-- The outputs of the nodes of the graph. -/
def userOutputs (ios : StreamingNodes N O I) (g : ConnectedGraph N O I F) : List O :=
  g.nodes.flatMap fun
    | .node n => ios.outputs n
    | .duplicate _ => []

omit [DecidableEq N] [DecidableEq O] [DecidableEq I] in
theorem mem_userOutputs {a : O} :
    a ∈ g.userOutputs ios ↔ GraphNode.node (ios.owner a) ∈ g.nodes := by
  rw [userOutputs, List.mem_flatMap]
  constructor
  · rintro ⟨node, nodeMem, aMem⟩
    cases node with
    | node n => rwa [(ios.mem_outputs n a).mp aMem]
    | duplicate d => simp at aMem
  · exact fun ownerMem => ⟨_, ownerMem, (ios.mem_outputs _ a).mpr rfl⟩

omit [DecidableEq N] in
theorem WellConnected.userOutputs_nodup (connected : WellConnected ios g) :
    (g.userOutputs ios).Nodup := by
  refine List.nodup_flatMap.mpr ⟨?_, ?_⟩
  · intro node nodeMem
    cases node with
    | node n => exact ios.outputs_nodup n
    | duplicate d => exact List.nodup_nil
  · refine connected.nodesNodup.imp_of_mem ?_
    intro node other nodeMem otherMem differ
    rcases connected.nodesUser node nodeMem with ⟨n, rfl⟩
    rcases connected.nodesUser other otherMem with ⟨m, rfl⟩
    intro a aMem aMem'
    apply differ
    rw [← (ios.mem_outputs n a).mp aMem, ← (ios.mem_outputs m a).mp aMem']

omit [DecidableEq N] [DecidableEq O] [DecidableEq I] in
theorem outputsOf_eq (nodesUser : ∀ node ∈ g.nodes, ∃ n, node = .node n) :
    g.nodes.flatMap (g.outputsOf ios) = (g.userOutputs ios).map GraphOutput.output := by
  rw [userOutputs, List.map_flatMap]
  apply List.flatMap_congr
  intro node nodeMem
  rcases nodesUser node nodeMem with ⟨n, rfl⟩
  rfl

/-! ### The run of the pass -/

omit [DecidableEq N] in
theorem WellConnected.ownConstraint_iff (connected : WellConnected ios g) {e : FIFOEdge O I F}
    (eMem : e ∈ g.edges) : e.ownConstraint = true ↔ OwnConstraint ios e := by
  rcases connected.constraint e eMem with ⟨own, recorded⟩
  unfold recordedConstraint at recorded
  rw [FIFOEdge.ownConstraint, OwnConstraint]
  cases output : ConnectedGraph.outputConstraint ios e.src <;>
    cases input : ConnectedGraph.inputConstraint ios e.dst <;> cases own <;>
      simp_all

omit [DecidableEq N] in
theorem WellConnected.fannedOut_iff (connected : WellConnected ios g) {e : FIFOEdge O I F}
    (eMem : e ∈ g.edges) {a : O} (srcEq : e.src = .output a) :
    g.FannedOut (.output a) ↔ g.fanned a = true := by
  have leaving : e ∈ g.edgesFrom (.output a) := mem_edgesFrom.mpr ⟨eMem, srcEq⟩
  have nodup := List.Nodup.of_map _ (connected.edgesFrom_dst_nodup (.output a))
  rw [fanned, decide_eq_true_eq]
  constructor
  · rintro ⟨e, eMem, other, otherMem, differ, eSrc, otherSrc⟩ single
    rcases List.length_eq_one_iff.mp single with ⟨only, onlyEq⟩
    have isOnly : ∀ e ∈ g.edges, e.src = .output a → e = only := by
      intro e eMem srcEq
      simpa [onlyEq] using mem_edgesFrom.mpr ⟨eMem, srcEq⟩
    exact differ ((isOnly e eMem eSrc).trans (isOnly other otherMem otherSrc).symm)
  · intro several
    cases edges : g.edgesFrom (.output a) with
    | nil => simp [edges] at leaving
    | cons e rest =>
        cases rest with
        | nil => simp [edges] at several
        | cons other rest =>
            have eMem := mem_edgesFrom.mp (edges ▸ List.mem_cons_self :
              e ∈ g.edgesFrom (.output a))
            have otherMem := mem_edgesFrom.mp (edges ▸ List.mem_cons_of_mem _ List.mem_cons_self :
              other ∈ g.edgesFrom (.output a))
            rw [edges] at nodup
            have differ : e ≠ other := by
              rintro rfl
              exact (List.nodup_cons.mp nodup).1 List.mem_cons_self
            exact ⟨e, eMem.1, other, otherMem.1, differ, eMem.2, otherMem.2⟩

omit [DecidableEq N] in
/-- Nothing has been rewritten at the beginning. -/
theorem WellConnected.insertedUpTo_nil (connected : WellConnected ios g) :
    InsertedUpTo ios mode g [] g where
  edges := by simp [rewrittenEdges]
  duplicates := by simp [connected.duplicates]
  nodes := by simp [connected.duplicates]
  defaultFIFOClass := rfl
  keys := connected.keys
  inputs := fun _ => rfl
  unseen := fun _ _ => rfl
  seen := by
    intro e eMem seen
    rcases connected.source e eMem with ⟨a, srcEq⟩
    exact absurd (seen a srcEq) List.not_mem_nil
  seenInput := by
    intro e eMem seen
    rcases connected.source e eMem with ⟨a, srcEq⟩
    exact absurd (seen a srcEq) List.not_mem_nil
  inputEdge := by
    intro b key isEdge
    rw [connected.inputFifo] at isEdge
    cases isEdge
  seenEdge := by
    intro e eMem seen
    rcases connected.source e eMem with ⟨a, srcEq⟩
    exact absurd (seen a srcEq) List.not_mem_nil
  noEdge := by
    intro b unconnected
    rw [connected.inputFifo, edgesInto, List.filter_eq_nil_iff.mpr (by simpa using unconnected)]
    rfl

/-- The pass raises an error on an edge with a constraint of its own, or rewrites every output. -/
theorem WellConnected.insertDuplicates_run (connected : WellConnected ios g)
    (nonempty : mode.asynchronous = true ∨ mode.fullyAsynchronous = true →
      ∀ a ∈ g.userOutputs ios, g.edgesFrom (.output a) ≠ []) :
    (∃ e ∈ g.edges, (g.FannedOut e.src ∧ OwnConstraint ios e) ∧ g.insertDuplicates ios mode =
      .error (.cantHaveBufferConstraintOnFIFOWhenDuplicateIsInserted e.src e.dst)) ∨
    (∀ e ∈ g.edges, ¬ (g.FannedOut e.src ∧ OwnConstraint ios e)) ∧
      ∃ g', g.insertDuplicates ios mode = .ok g' ∧
        InsertedUpTo ios mode g (g.userOutputs ios) g' := by
  have run := Dataflow.foldlM_raises_or_ok (f := fun h a => insertDuplicate ios mode h (.output a))
    (P := InsertedUpTo ios mode g) (l := g.userOutputs ios) (s := g)
    (R := fun a error => ∃ e ∈ g.edgesFrom (.output a), g.fanned a = true ∧
      e.ownConstraint = true ∧
      error = .cantHaveBufferConstraintOnFIFOWhenDuplicateIsInserted e.src e.dst)
    ?_ connected.insertedUpTo_nil
  · rw [insertDuplicates, outputsOf_eq connected.nodesUser, List.foldlM_map]
    rcases run with
      ⟨a, aMem, error, ⟨e, eMem, fanned, own, rfl⟩, raised⟩ | ⟨quiet, g', ok, inserted⟩
    · have inGraph := mem_edgesFrom.mp eMem
      have fannedOut := (connected.fannedOut_iff inGraph.1 inGraph.2).mpr fanned
      rw [← inGraph.2] at fannedOut
      exact .inl ⟨e, inGraph.1, ⟨fannedOut, (connected.ownConstraint_iff inGraph.1).mp own⟩, raised⟩
    · refine .inr ⟨?_, g', ok, inserted⟩
      rintro e eMem ⟨fannedOut, own⟩
      rcases connected.source e eMem with ⟨a, srcEq⟩
      rw [srcEq] at fannedOut
      have ownerMem := (connected.owners e eMem).1
      rw [srcEq] at ownerMem
      exact quiet a (mem_userOutputs.mpr ownerMem) _ ⟨e, mem_edgesFrom.mpr ⟨eMem, srcEq⟩,
        (connected.fannedOut_iff eMem srcEq).mp fannedOut,
        (connected.ownConstraint_iff eMem).mpr own, rfl⟩
  · intro done a rest h split inserted
    have aMem : a ∈ g.userOutputs ios := by simp [split]
    have unseen : a ∉ done := by
      have nodup := connected.userOutputs_nodup
      rw [split] at nodup
      exact fun mem => (List.nodup_append.mp nodup).2.2 a mem a List.mem_cons_self rfl
    by_cases fanned : g.fanned a = true
    · rcases inserted.insertDuplicate_fanned connected unseen fanned
        (fun asynchronous => nonempty asynchronous a aMem) with
        ⟨e, eMem, own, raised⟩ | ⟨quiet, ok⟩
      · exact .inl ⟨_, ⟨e, eMem, fanned, own, rfl⟩, raised⟩
      · refine .inr ⟨?_, _, ok, inserted.fannedOut connected unseen fanned
          (mem_userOutputs.mp aMem)⟩
        rintro error ⟨e, eMem, -, own, -⟩
        rw [quiet e eMem] at own
        exact Bool.noConfusion own
    · have single : (g.edgesFrom (.output a)).length = 1 := by
        simpa [ConnectedGraph.fanned] using fanned
      rcases List.length_eq_one_iff.mp single with ⟨e, edges⟩
      refine .inr ⟨?_, inserted.single connected unseen edges⟩
      rintro error ⟨_, -, isFanned, -⟩
      exact fanned isFanned

/-! ### The graph at the end of the pass -/

section Final

variable (inserted : InsertedUpTo ios mode g (g.userOutputs ios) g')
  (connected : WellConnected ios g)

omit [DecidableEq N] [DecidableEq I] in
theorem mem_split {a : O} :
    a ∈ (g.userOutputs ios).filter g.fanned ↔
      GraphNode.node (ios.owner a) ∈ g.nodes ∧ g.fanned a = true := by
  rw [List.mem_filter, mem_userOutputs]

include connected in
omit [DecidableEq N] in
theorem WellConnected.owner_mem {e : FIFOEdge O I F} (eMem : e ∈ g.edges) {a : O}
    (srcEq : e.src = .output a) : GraphNode.node (ios.owner a) ∈ g.nodes := by
  have owner := (connected.owners e eMem).1
  rwa [srcEq] at owner

include inserted connected in
omit [DecidableEq N] in
/-- The edges of the graph which are still there are those whose output has no other. -/
theorem mem_final_of_old {e : FIFOEdge O I F} (eMem : e ∈ g.edges) {a : O}
    (srcEq : e.src = .output a) : e ∈ g'.edges ↔ ¬ g.fanned a = true := by
  rw [inserted.mem_edges]
  constructor
  · rintro (⟨-, notSplit⟩ | ⟨d, b, -, new⟩) fanned
    · exact notSplit a (mem_split.mpr ⟨connected.owner_mem eMem srcEq, fanned⟩) srcEq
    · rcases mem_dupEdges.mp new with rfl | ⟨i, orig, -, rfl⟩
      · exact connected.dst_ne_duplicate eMem d rfl
      · exact connected.src_ne_duplicate eMem d i rfl
  · intro notFanned
    refine .inl ⟨eMem, ?_⟩
    intro b bMem sameSrc
    rw [srcEq] at sameSrc
    cases sameSrc
    exact notFanned (mem_split.mp bMem).2

omit [DecidableEq N] in
theorem split_index_unique (connected : WellConnected ios g) {a : O} {d d' : ℕ}
    (found : ((g.userOutputs ios).filter g.fanned)[d]? = some a)
    (found' : ((g.userOutputs ios).filter g.fanned)[d']? = some a) : d = d' :=
  (List.getElem?_inj (List.getElem?_eq_some_iff.mp found).1
    (connected.userOutputs_nodup.filter _)).mp (found.trans found'.symm)

include inserted connected in
omit [DecidableEq N] in
/-- The edges at the end are identified by their outputs. -/
theorem src_unique {e e' : FIFOEdge O I F} (eMem : e ∈ g'.edges) (eMem' : e' ∈ g'.edges)
    (sameSrc : e.src = e'.src) : e = e' := by
  have oldNotNew : ∀ {old new : FIFOEdge O I F} {d : ℕ} {a : O}, old ∈ g.edges →
      (∀ a ∈ (g.userOutputs ios).filter g.fanned, old.src ≠ .output a) →
      ((g.userOutputs ios).filter g.fanned)[d]? = some a → new ∈ g.dupEdges ios mode d a →
      old.src ≠ new.src := by
    intro old new d a oldMem notSplit found newMem sameSrc
    rcases src_of_mem_dupEdges newMem with isOutput | ⟨i, isDuplicate⟩
    · exact notSplit a (List.mem_of_getElem? found) (sameSrc.trans isOutput)
    · exact connected.src_ne_duplicate oldMem d i (sameSrc.trans isDuplicate)
  rcases inserted.mem_edges.mp eMem with ⟨old, notSplit⟩ | ⟨d, a, found, new⟩
  · rcases inserted.mem_edges.mp eMem' with ⟨old', notSplit'⟩ | ⟨d', a', found', new'⟩
    · rcases connected.source e old with ⟨a, srcEq⟩
      have notFanned := (mem_final_of_old inserted connected old srcEq).mp eMem
      rw [← connected.fannedOut_iff old srcEq] at notFanned
      by_contra differ
      exact notFanned ⟨e, old, e', old', differ, srcEq, sameSrc.symm.trans srcEq⟩
    · exact absurd sameSrc (oldNotNew old notSplit found' new')
  · rcases inserted.mem_edges.mp eMem' with ⟨old', notSplit'⟩ | ⟨d', a', found', new'⟩
    · exact absurd sameSrc.symm (oldNotNew old' notSplit' found new)
    · have sameDuplicate : d = d' := by
        rcases src_of_mem_dupEdges new with srcEq | ⟨i, srcEq⟩ <;>
          rcases src_of_mem_dupEdges new' with srcEq' | ⟨i', srcEq'⟩ <;>
          rw [srcEq, srcEq'] at sameSrc <;> cases sameSrc
        · exact split_index_unique connected found found'
        · rfl
      subst sameDuplicate
      obtain rfl := Option.some.inj (found.symm.trans found')
      exact List.inj_on_of_nodup_map (dupEdges_src_nodup d a) new new' sameSrc

include inserted connected in
omit [DecidableEq N] in
theorem existsUnique_src {e : FIFOEdge O I F} (eMem : e ∈ g'.edges) :
    ∃! e', e' ∈ g'.edges ∧ e'.src = e.src :=
  ⟨e, ⟨eMem, rfl⟩, fun _ other => src_unique inserted connected other.1 eMem other.2⟩

include inserted connected in
omit [DecidableEq N] in
/-- An edge from or to a duplicate node belongs to it. -/
theorem mem_dupEdges_of_duplicate {e : FIFOEdge O I F} (eMem : e ∈ g'.edges) {d : ℕ}
    (isDuplicate : e.dst = .duplicate d ∨ ∃ i, e.src = .duplicate d i) :
    ∃ a, ((g.userOutputs ios).filter g.fanned)[d]? = some a ∧ e ∈ g.dupEdges ios mode d a := by
  rcases inserted.mem_edges.mp eMem with ⟨old, -⟩ | ⟨d', a, found, new⟩
  · rcases isDuplicate with dstEq | ⟨i, srcEq⟩
    · exact absurd dstEq (connected.dst_ne_duplicate old d)
    · exact absurd srcEq (connected.src_ne_duplicate old d i)
  · have same : d = d' := by
      rcases mem_dupEdges.mp new with rfl | ⟨j, orig, isLeaving, rfl⟩
      · rcases isDuplicate with dstEq | ⟨i, srcEq⟩
        · exact (GraphInput.duplicate.inj dstEq).symm
        · cases srcEq
      · rcases isDuplicate with dstEq | ⟨i, srcEq⟩
        · exact absurd dstEq (connected.dst_ne_duplicate
            (mem_edgesFrom.mp (List.mem_of_getElem? isLeaving)).1 d)
        · exact (GraphOutput.duplicate.inj srcEq).1.symm
    subst same
    exact ⟨a, found, new⟩

include inserted connected in
omit [DecidableEq N] in
/-- The edges of a duplicate node enter different inputs. -/
theorem dst_unique {e e' : FIFOEdge O I F} (eMem : e ∈ g'.edges) (eMem' : e' ∈ g'.edges) {d : ℕ}
    (isDuplicate : e.dst = .duplicate d ∨ ∃ i, e.src = .duplicate d i)
    (isDuplicate' : e'.dst = .duplicate d ∨ ∃ i, e'.src = .duplicate d i)
    (sameDst : e.dst = e'.dst) : e = e' := by
  rcases mem_dupEdges_of_duplicate inserted connected eMem isDuplicate with ⟨a, found, mem⟩
  rcases mem_dupEdges_of_duplicate inserted connected eMem' isDuplicate' with ⟨a', found', mem'⟩
  obtain rfl := Option.some.inj (found.symm.trans found')
  exact List.inj_on_of_nodup_map (connected.dupEdges_dst_nodup d a) mem mem' sameDst

omit [DecidableEq N] [DecidableEq O] in
theorem length_edgesInto (b : GraphInput I) :
    (g.edgesInto b).length = (g.edges.map FIFOEdge.dst).count b := by
  rw [edgesInto, List.count, List.countP_map, List.countP_eq_length_filter]
  rfl

/-- The edge from an output to its duplicate node. -/
def firstEdge (ios : StreamingNodes N O I) (mode : SchedulingMode) (g : ConnectedGraph N O I F)
    (d : ℕ) (a : O) : FIFOEdge O I F :=
  g.newEdge ios (.output a) (.duplicate d) (g.dupOptions mode a) none

include inserted in
omit [DecidableEq N] in
theorem firstEdge_mem {d : ℕ} {a : O}
    (found : ((g.userOutputs ios).filter g.fanned)[d]? = some a) :
    g.firstEdge ios mode d a ∈ g'.edges :=
  inserted.mem_edges.mpr (.inr ⟨d, a, found, mem_dupEdges.mpr (.inl rfl)⟩)

include inserted in
omit [DecidableEq N] in
theorem dupOutputEdge_mem {d i : ℕ} {a : O} {e : FIFOEdge O I F}
    (found : ((g.userOutputs ios).filter g.fanned)[d]? = some a)
    (isLeaving : (g.edgesFrom (.output a))[i]? = some e) :
    dupOutputEdge ios d i e ∈ g'.edges :=
  inserted.mem_edges.mpr (.inr ⟨d, a, found, mem_dupEdges.mpr (.inr ⟨i, e, isLeaving, rfl⟩)⟩)

include inserted in
omit [DecidableEq N] in
/-- An edge of an output with a duplicate node is replaced by a path. -/
theorem pathThrough {d i : ℕ} {a : O} {e : FIFOEdge O I F}
    (found : ((g.userOutputs ios).filter g.fanned)[d]? = some a)
    (isLeaving : (g.edgesFrom (.output a))[i]? = some e) :
    g'.PathThrough e d i (g.firstEdge ios mode d a) (dupOutputEdge ios d i e) where
  firstMem := firstEdge_mem inserted found
  lastMem := dupOutputEdge_mem inserted found isLeaving
  firstSrc := (mem_edgesFrom.mp (List.mem_of_getElem? isLeaving)).2.symm
  firstDst := rfl
  lastSrc := rfl
  lastDst := rfl

omit [DecidableEq N] [DecidableEq I] in
theorem isGreatest_maximum {α E : Type} [LinearOrder α] {valueError : E} {a : GraphOutput O}
    {value : FIFOEdge O I F → α} {greatest : α}
    (ok : maximum valueError ((g.edgesFrom a).map value) = .ok greatest) :
    IsGreatest {x | ∃ other ∈ g.edges, other.src = a ∧ value other = x} greatest := by
  rcases maximum_spec ok with ⟨mem, above⟩
  constructor
  · rcases List.mem_map.mp mem with ⟨e, eMem, rfl⟩
    exact ⟨e, (mem_edgesFrom.mp eMem).1, (mem_edgesFrom.mp eMem).2, rfl⟩
  · rintro x ⟨e, eMem, srcEq, rfl⟩
    exact above _ (List.mem_map_of_mem (mem_edgesFrom.mpr ⟨eMem, srcEq⟩))

omit [DecidableEq N] [DecidableEq I] in
/-- The edge to a duplicate node has the maximum of the scales or lengths it replaces. -/
theorem dupOptions_maximum {a : O} {e : FIFOEdge O I F}
    (leaving : e ∈ g.edgesFrom (.output a)) :
    (mode.asynchronous = true →
      IsGreatest {scale | ∃ other ∈ g.edges, other.src = .output a ∧ other.fifoScale = scale}
        (g.dupOptions mode a).fifoScale) ∧
    (mode.asynchronous = false → mode.fullyAsynchronous = true →
      IsGreatest
        {length | ∃ other ∈ g.edges, other.src = .output a ∧ other.fifoAsyncLength = length}
        (g.dupOptions mode a).fifoAsyncLength) := by
  rcases List.exists_cons_of_ne_nil (List.ne_nil_of_mem leaving) with ⟨first, rest, edges⟩
  have options : mode.dupInputOptions (O := O) (I := I)
      ((g.edgesFrom (.output a)).map FIFOEdge.dupDestination) = .ok (g.dupOptions mode a) :=
    InsertedUpTo.dupInputOptions_eq fun _ => List.ne_nil_of_mem leaving
  unfold SchedulingMode.dupInputOptions at options
  constructor
  · intro asynchronous
    rw [if_pos asynchronous, List.map_map] at options
    change (maximum _ ((g.edgesFrom (.output a)).map FIFOEdge.fifoScale) >>= _) = _ at options
    refine isGreatest_maximum (?_ : maximum (GraphError.valueError (O := O) (I := I)) _ = .ok _)
    rw [edges, List.map_cons, maximum] at options ⊢
    rw [← Except.ok.inj options]
  · intro notAsynchronous fullyAsynchronous
    rw [if_neg (by simp [notAsynchronous]), if_pos fullyAsynchronous, List.map_map] at options
    change (maximum _ ((g.edgesFrom (.output a)).map FIFOEdge.fifoAsyncLength) >>= _) = _
      at options
    refine isGreatest_maximum (?_ : maximum (GraphError.valueError (O := O) (I := I)) _ = .ok _)
    rw [edges, List.map_cons, maximum] at options ⊢
    rw [← Except.ok.inj options]

omit [DecidableEq N] [DecidableEq I] in
/-- The edge to a duplicate node is not weak and asks for no buffer. -/
theorem dupOptions_plain (a : O) :
    (g.dupOptions mode a).weak = false ∧ (g.dupOptions mode a).constraint = none := by
  unfold dupOptions SchedulingMode.dupInputOptions
  cases g.edgesFrom (.output a) with
  | nil => split_ifs <;> exact ⟨rfl, rfl⟩
  | cons e leaving => split_ifs <;> exact ⟨rfl, rfl⟩

omit [DecidableEq N] [DecidableEq I] in
/-- The path carries the attributes of the edge which it replaces. -/
theorem carries {d i : ℕ} {a : O} {e : FIFOEdge O I F}
    (leaving : e ∈ g.edgesFrom (.output a)) :
    Carries ios mode g e (g.firstEdge ios mode d a) (dupOutputEdge ios d i e) where
  delay := by
    unfold dupOutputEdge
    by_cases delayed : e.delayValue ≠ 0
    · rw [if_pos delayed]
      rfl
    · rw [if_neg delayed]
      exact (not_ne_iff.mp delayed).symm
  fifoClass := rfl
  fifoScale := rfl
  fifoAsyncLength := rfl
  weak := rfl
  inputDelay := rfl
  inputWeak := (dupOptions_plain a).1
  maxScale := by
    rw [(mem_edgesFrom.mp leaving).2]
    exact (dupOptions_maximum leaving).1
  maxAsyncLength := by
    rw [(mem_edgesFrom.mp leaving).2]
    exact (dupOptions_maximum leaving).2
  outputConstraint := by
    rw [(mem_edgesFrom.mp leaving).2]
    change (recordedConstraint ios (.output a) (.duplicate d) (g.dupOptions mode a).constraint
      (none, false)).1 = _
    rw [(dupOptions_plain a).2]
    cases constraint : ConnectedGraph.outputConstraint ios (.output a) <;>
      simp [recordedConstraint, constraint, ConnectedGraph.inputConstraint]
  inputConstraint := rfl

include inserted connected in
omit [DecidableEq N] in
/-- Each output of the nodes of the graph has an edge at the end. -/
theorem exists_edge_of_output {a : O} (owner : GraphNode.node (ios.owner a) ∈ g.nodes) :
    ∃ e ∈ g'.edges, e.src = .output a := by
  by_cases fanned : g.fanned a = true
  · rcases List.mem_iff_getElem?.mp (mem_split.mpr ⟨owner, fanned⟩) with ⟨d, found⟩
    exact ⟨_, firstEdge_mem inserted found, rfl⟩
  · have single : (g.edgesFrom (.output a)).length = 1 := by
      simpa [ConnectedGraph.fanned] using fanned
    rcases List.length_eq_one_iff.mp single with ⟨e, edges⟩
    have inGraph := mem_edgesFrom.mp (edges ▸ List.mem_singleton_self e)
    exact ⟨e, (mem_final_of_old inserted connected inGraph.1 inGraph.2).mpr fanned, inGraph.2⟩

include inserted connected in
omit [DecidableEq N] in
/-- An edge is kept, or replaced by exactly one path. -/
theorem kept_or_replaced {e : FIFOEdge O I F} (eMem : e ∈ g.edges) :
    (¬ g.FannedOut e.src ∧ e ∈ g'.edges ∧ ∀ d i first last, ¬ g'.PathThrough e d i first last) ∨
    (g.FannedOut e.src ∧ e ∉ g'.edges ∧ ∃ d i first last,
      g'.PathThrough e d i first last ∧ Carries ios mode g e first last ∧
        ∀ d' i' first' last', g'.PathThrough e d' i' first' last' →
          d' = d ∧ i' = i ∧ first' = first ∧ last' = last) := by
  rcases connected.source e eMem with ⟨a, srcEq⟩
  have leaving := mem_edgesFrom.mpr ⟨eMem, srcEq⟩
  have fannedOut := connected.fannedOut_iff eMem srcEq
  have old := mem_final_of_old inserted connected eMem srcEq
  rw [← srcEq] at fannedOut
  by_cases fanned : g.fanned a = true
  · rcases List.mem_iff_getElem?.mp (mem_split.mpr ⟨connected.owner_mem eMem srcEq, fanned⟩)
      with ⟨d, found⟩
    rcases List.mem_iff_getElem?.mp leaving with ⟨i, isLeaving⟩
    have path := pathThrough inserted found isLeaving
    refine .inr ⟨fannedOut.mpr fanned, fun kept => old.mp kept fanned, d, i, _, _, path,
      carries leaving, ?_⟩
    intro d' i' first' last' other
    have sameFirst := src_unique inserted connected other.firstMem path.firstMem
      (other.firstSrc.trans path.firstSrc.symm)
    subst sameFirst
    obtain rfl := GraphInput.duplicate.inj (other.firstDst.symm.trans path.firstDst)
    have sameLast := dst_unique inserted connected other.lastMem path.lastMem
      (.inr ⟨i', other.lastSrc⟩) (.inr ⟨i, path.lastSrc⟩)
      (other.lastDst.trans path.lastDst.symm)
    subst sameLast
    exact ⟨rfl, (GraphOutput.duplicate.inj (other.lastSrc.symm.trans path.lastSrc)).2, rfl, rfl⟩
  · refine .inl ⟨fun out => fanned (fannedOut.mp out), old.mpr fanned, ?_⟩
    intro d i first last path
    have sameFirst := src_unique inserted connected path.firstMem (old.mpr fanned) path.firstSrc
    rw [sameFirst] at path
    exact connected.dst_ne_duplicate eMem d path.firstDst

include inserted connected in
omit [DecidableEq N] in
theorem src_seen {e : FIFOEdge O I F} (eMem : e ∈ g'.edges) (a : O)
    (srcEq : e.src = .output a) : a ∈ g.userOutputs ios := by
  rcases inserted.mem_edges.mp eMem with ⟨old, -⟩ | ⟨d, b, found, new⟩
  · exact mem_userOutputs.mpr (connected.owner_mem old srcEq)
  · rcases src_of_mem_dupEdges new with isOutput | ⟨i, isDuplicate⟩
    · rw [isOutput] at srcEq
      cases srcEq
      exact (List.mem_filter.mp (List.mem_of_getElem? found)).1
    · rw [isDuplicate] at srcEq
      cases srcEq

include inserted connected in
omit [DecidableEq N] in
/-- The graph at the end of the pass. -/
theorem duplicated : Duplicated ios mode g g' where
  outputs := by
    intro a owner
    rcases exists_edge_of_output inserted connected owner with ⟨e, eMem, srcEq⟩
    rw [← srcEq]
    exact existsUnique_src inserted connected eMem
  inputs := by
    intro b
    rw [length_edgesInto, length_edgesInto, inserted.inputs]
  duplicateOutputs := by
    intro d dup isDup i less
    rw [inserted.duplicates, List.getElem?_map, Option.map_eq_some_iff] at isDup
    rcases isDup with ⟨a, found, rfl⟩
    have isLeaving := List.getElem?_eq_getElem (l := g.edgesFrom (.output a)) less
    exact existsUnique_src inserted connected (dupOutputEdge_mem inserted found isLeaving)
  duplicateInputs := by
    intro d less
    rw [inserted.nbDuplicates] at less
    refine ⟨_, ⟨firstEdge_mem inserted (List.getElem?_eq_getElem less), rfl⟩, ?_⟩
    rintro e ⟨eMem, dstEq⟩
    exact dst_unique inserted connected eMem
      (firstEdge_mem inserted (List.getElem?_eq_getElem less)) (.inl dstEq) (.inl rfl) dstEq
  original := fun e eMem => kept_or_replaced inserted connected eMem
  only := by
    intro e eMem
    rcases inserted.mem_edges.mp eMem with ⟨old, -⟩ | ⟨d, a, found, new⟩
    · exact .inl old
    · rcases mem_dupEdges.mp new with rfl | ⟨i, orig, isLeaving, rfl⟩
      · refine .inr (.inl ⟨d, ?_, a, rfl, rfl⟩)
        rw [inserted.nbDuplicates]
        exact (List.getElem?_eq_some_iff.mp found).1
      · exact .inr (.inr ⟨orig, (mem_edgesFrom.mp (List.mem_of_getElem? isLeaving)).1, d, i, _,
          pathThrough inserted found isLeaving⟩)
  duplicates := by
    intro d dup isDup
    rw [inserted.duplicates, List.getElem?_map, Option.map_eq_some_iff] at isDup
    rcases isDup with ⟨a, found, rfl⟩
    exact ⟨a, rfl, _, firstEdge_mem inserted found, rfl, rfl⟩
  outputFifo := fun e eMem => inserted.seen e eMem (src_seen inserted connected eMem)
  inputFifo := fun e eMem => inserted.seenInput e eMem (src_seen inserted connected eMem)

end Final

/-- The insertion of the duplicate nodes in a graph in which no pair of IOs is connected twice.
The asynchronous modes need an edge on each output. -/
theorem insertDuplicates_duplicated {defaultFIFOClass : F} {steps : List (BuildStep O I F)}
    (built : BuildStep.build ios defaultFIFOClass steps = .ok g)
    (connectedOnce : (steps.filterMap BuildStep.key).Nodup)
    (outputsConnected : mode.asynchronous = true ∨ mode.fullyAsynchronous = true →
      ∀ a, GraphNode.node (ios.owner a) ∈ g.nodes → ∃ e ∈ g.edges, e.src = .output a) :
    ((∃ e ∈ g.edges, g.FannedOut e.src ∧ OwnConstraint ios e) →
      ∃ e ∈ g.edges, (g.FannedOut e.src ∧ OwnConstraint ios e) ∧ g.insertDuplicates ios mode =
        .error (.cantHaveBufferConstraintOnFIFOWhenDuplicateIsInserted e.src e.dst)) ∧
    ((¬ ∃ e ∈ g.edges, g.FannedOut e.src ∧ OwnConstraint ios e) →
      ∃ g', g.insertDuplicates ios mode = .ok g' ∧ Duplicated ios mode g g') := by
  have connected := WellConnected.of_build connectedOnce built
  have nonempty : mode.asynchronous = true ∨ mode.fullyAsynchronous = true →
      ∀ a ∈ g.userOutputs ios, g.edgesFrom (.output a) ≠ [] := by
    intro asynchronous a aMem
    rcases outputsConnected asynchronous a (mem_userOutputs.mp aMem) with ⟨e, eMem, srcEq⟩
    exact List.ne_nil_of_mem (mem_edgesFrom.mpr ⟨eMem, srcEq⟩)
  rcases connected.insertDuplicates_run nonempty with raised | ⟨quiet, g', ok, inserted⟩
  · refine ⟨fun _ => raised, ?_⟩
    rintro quiet
    rcases raised with ⟨e, eMem, bad, -⟩
    exact absurd ⟨e, eMem, bad⟩ quiet
  · refine ⟨?_, fun _ => ⟨g', ok, duplicated inserted connected⟩⟩
    rintro ⟨e, eMem, bad⟩
    exact absurd bad (quiet e eMem)

/-- Two sources with one output each; the other nodes have one input and no output. -/
def twoSourceOutputs (n : ℕ) : List Bool :=
  if n = 0 then [false] else if n = 1 then [true] else []

/-- The source of an output. -/
def twoSourceOwner (output : Bool) : ℕ := if output then 1 else 0

theorem twoSourceOutputs_nodup (n : ℕ) : (twoSourceOutputs n).Nodup := by
  unfold twoSourceOutputs
  split_ifs <;> simp

theorem mem_twoSourceOutputs (n : ℕ) (output : Bool) :
    output ∈ twoSourceOutputs n ↔ twoSourceOwner output = n := by
  rcases n with _ | _ | n <;> cases output <;> simp [twoSourceOutputs, twoSourceOwner]

/-- Two sources, and sinks whose input `b` is that of the node `b + 2`; the input `3` is that
of the second source. -/
def twoSources : StreamingNodes ℕ Bool ℕ where
  owner := twoSourceOwner
  inputOwner := fun b => if b = 3 then 1 else b + 2
  outputs := twoSourceOutputs
  outputs_nodup := twoSourceOutputs_nodup
  mem_outputs := mem_twoSourceOutputs
  outputType := fun _ => .cType 0
  inputType := fun _ => .cType 0
  nbSamples := fun _ => .int 1
  outputConstraint := fun _ => none
  inputConstraint := fun b => if b = 1 then some ⟨0, some "input", true, true, true⟩ else none

/-- The graph built by some steps, or the empty graph. -/
def builtGraph (steps : List (BuildStep Bool ℕ ℕ)) : ConnectedGraph ℕ Bool ℕ ℕ :=
  match BuildStep.build twoSources 0 steps with
  | .ok g => g
  | .error _ => empty 0

/-- The first source is connected to two sinks and the second one to a third sink. -/
def sharedOutput : List (BuildStep Bool ℕ ℕ) :=
  [.connectWithDelay false 0 3 { ConnectOptions.default ℕ with fifoAsyncLength := 4 },
    .connect true 2 (ConnectOptions.default ℕ),
    .connect false 1 { ConnectOptions.default ℕ with fifoAsyncLength := 9, weak := true }]

theorem sharedOutput_duplicated :
    ∃ g', (builtGraph sharedOutput).insertDuplicates twoSources ⟨false, true⟩ = .ok g' ∧
      Duplicated twoSources ⟨false, true⟩ (builtGraph sharedOutput) g' := by
  have outputsConnected : ∀ a, GraphNode.node (twoSources.owner a) ∈
      (builtGraph sharedOutput).nodes → ∃ e ∈ (builtGraph sharedOutput).edges,
        e.src = .output a := by
    decide
  have inherited : ∀ e ∈ (builtGraph sharedOutput).edges,
      ¬ (e.customBuffer.isSome = true ∧ inputConstraint twoSources e.dst = none) := by
    decide
  have built : BuildStep.build twoSources 0 sharedOutput = .ok (builtGraph sharedOutput) := rfl
  refine (insertDuplicates_duplicated built (by decide) fun _ => outputsConnected).2 ?_
  rintro ⟨e, eMem, -, own⟩
  exact inherited e eMem ⟨own.1, own.2.2⟩

/-- Both sources are connected to the same sink. -/
def sharedInput : List (BuildStep Bool ℕ ℕ) :=
  [.connect false 0 (ConnectOptions.default ℕ), .connect true 0 (ConnectOptions.default ℕ)]

/-- The first source is connected twice to the same sink. -/
def connectedTwice : List (BuildStep Bool ℕ ℕ) :=
  [.connect false 0 (ConnectOptions.default ℕ), .connect false 0 (ConnectOptions.default ℕ)]

/-- The output of the second source is not connected. -/
def unconnectedOutput : List (BuildStep Bool ℕ ℕ) :=
  [.connect false 3 (ConnectOptions.default ℕ)]

/-- Nothing prevents the connection of two outputs to one input, which keeps both edges, nor
graphs on which the pass raises another error. -/
theorem sharedInput_keeps_both :
    ¬ ((∃ a b, (builtGraph sharedInput).insertDuplicates twoSources ⟨false, false⟩ =
        .error (.cantHaveBufferConstraintOnFIFOWhenDuplicateIsInserted a b)) ∨
      ∃ g', (builtGraph sharedInput).insertDuplicates twoSources ⟨false, false⟩ = .ok g' ∧
        ∀ e ∈ g'.edges, ∃! e', e' ∈ g'.edges ∧ e'.dst = e.dst) ∧
    (builtGraph connectedTwice).insertDuplicates twoSources ⟨false, false⟩ = .error .keyError ∧
    (builtGraph unconnectedOutput).insertDuplicates twoSources ⟨true, false⟩ =
      .error .valueError := by
  refine ⟨?_, rfl, rfl⟩
  have bothKept : ∃ g', (builtGraph sharedInput).insertDuplicates twoSources ⟨false, false⟩ =
      .ok g' ∧ ∃ e ∈ g'.edges, ∃ other ∈ g'.edges, e ≠ other ∧ other.dst = e.dst :=
    ⟨_, rfl, by decide⟩
  rcases bothKept with ⟨final, ok, e, eMem, other, otherMem, differ, sameDst⟩
  rw [ok]
  rintro (⟨a, b, raised⟩ | ⟨g', same, unique⟩)
  · cases raised
  · obtain rfl := Except.ok.inj same
    exact differ ((unique e eMem).unique ⟨eMem, rfl⟩ ⟨otherMem, sameDst⟩)

end CmsisStream.Scheduler.ConnectedGraph
