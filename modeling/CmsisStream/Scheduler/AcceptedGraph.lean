import CmsisStream.Scheduler.DuplicatePaths

/-!
# The graphs in which the duplicate nodes can be inserted

The pass disconnects the edges of an output one after the other and looks for the maximum of
their attributes.  So it only succeeds when no pair of IOs was connected twice and, in the
asynchronous modes, when no output is left unconnected.  The graph after the pass is then the
one described for such graphs.
-/

namespace CmsisStream.Scheduler.ConnectedGraph

variable {N O I F : Type} [DecidableEq N] [DecidableEq O] [DecidableEq I]
variable {ios : StreamingNodes N O I} {mode : SchedulingMode} {g next : ConnectedGraph N O I F}

/-- The edges in the `fifo` field of an output are its own. -/
def OwnFifos (g : ConnectedGraph N O I F) : Prop :=
  ∀ a fifo, g.outputFifo (.output a) = .list fifo → ∀ key ∈ fifo, key.1 = .output a

omit [DecidableEq N] in
/-- Disconnecting an output fails when one of its edges is there twice. -/
theorem disconnect_ok {fifo : List (EdgeKey O I)} {x : GraphOutput O}
    {destinations : List (DupDestination I F)} (own : ∀ key ∈ fifo, key.1 = x)
    (ok : g.disconnect fifo = .ok (destinations, next)) :
    fifo.Nodup ∧ (∀ key ∈ fifo, ∃ e ∈ g.edges, e.key = key) ∧
      ∀ y, y ≠ x → next.outputFifo y = g.outputFifo y := by
  induction fifo generalizing g destinations with
  | nil =>
      cases ok
      exact ⟨List.nodup_nil, by simp, fun _ _ => rfl⟩
  | cons key fifo ih =>
      rw [disconnect, disconnectEdge] at ok
      cases found : g.edge? key with
      | none => simp [found, bind, Except.bind] at ok
      | some e =>
          have keyEq : e.key = key := by simpa using List.find?_some found
          have eMem : e ∈ g.edges := List.mem_of_find?_eq_some found
          simp only [found] at ok
          split_ifs at ok
          · cases ok
          · simp only [bind, Except.bind] at ok
            cases rest : (g.withoutEdge e).disconnect fifo with
            | error error => simp [rest] at ok
            | ok result =>
                simp only [rest, pure, Except.pure] at ok
                cases ok
                rcases ih (fun key mem => own key (List.mem_cons_of_mem _ mem)) rest with
                  ⟨nodup, present, unchanged⟩
                have remains : ∀ key ∈ fifo, ∃ other ∈ g.edges, other.key = key ∧ key ≠ e.key := by
                  intro other otherMem
                  rcases present other otherMem with ⟨edge, edgeMem, rfl⟩
                  rcases List.mem_filter.mp edgeMem with ⟨inGraph, differs⟩
                  exact ⟨edge, inGraph, rfl, of_decide_eq_true differs⟩
                refine ⟨List.nodup_cons.mpr ⟨?_, nodup⟩, ?_, ?_⟩
                · intro again
                  rcases remains key again with ⟨-, -, -, differs⟩
                  exact differs keyEq.symm
                · intro other otherMem
                  rcases List.mem_cons.mp otherMem with rfl | later
                  · exact ⟨e, eMem, keyEq⟩
                  · rcases remains other later with ⟨edge, inGraph, same, -⟩
                    exact ⟨edge, inGraph, same⟩
                · intro y differs
                  have src : e.src = x := by
                    rw [← own key List.mem_cons_self, ← keyEq]
                    rfl
                  rw [unchanged y differs]
                  exact Function.update_of_ne (src ▸ differs) _ _

theorem connect_outputFifo {a : GraphOutput O} {b : GraphInput I} {options : ConnectOptions F}
    (ok : g.connect ios a b false options = .ok next) :
    next.outputFifo = Function.update g.outputFifo a (.edge (a, b)) := by
  unfold connect at ok
  split_ifs at ok
  cases ok
  rfl

theorem connectDup_outputFifo {destination : DupDestination I F} {x : GraphOutput O}
    (ok : g.connectDup ios destination x = .ok next) :
    next.outputFifo = Function.update g.outputFifo x (.edge (x, destination.node)) := by
  unfold connectDup at ok
  split_ifs at ok
  · unfold connectWithDelay at ok
    cases connected : g.connect ios x destination.node false destination.options with
    | error error => simp [connected, bind, Except.bind] at ok
    | ok result =>
        simp only [connected, bind, Except.bind, pure, Except.pure] at ok
        cases ok
        change result.outputFifo = _
        exact connect_outputFifo connected
  · exact connect_outputFifo ok

/-- Connecting the outputs of a duplicate node leaves the outputs of the user as they are. -/
theorem connectDestinations_outputFifo {d i : ℕ} {destinations : List (DupDestination I F)}
    (ok : g.connectDestinations ios d i destinations = .ok next) (a : O) :
    next.outputFifo (.output a) = g.outputFifo (.output a) := by
  induction destinations generalizing g i with
  | nil =>
      cases ok
      rfl
  | cons destination destinations ih =>
      rw [connectDestinations] at ok
      cases connected : g.connectDup ios destination (.duplicate d i) with
      | error error => simp [connected, bind, Except.bind] at ok
      | ok result =>
          simp only [connected, bind, Except.bind] at ok
          rw [ih ok, connectDup_outputFifo connected]
          exact Function.update_of_ne (by simp) _ _

/-- The edges of an output which the pass accepts: none is there twice, and there is one in the
asynchronous modes. -/
structure AcceptedFifo (mode : SchedulingMode) (fifo : List (EdgeKey O I)) : Prop where
  nodup : fifo.Nodup
  nonempty : mode.asynchronous = true ∨ mode.fullyAsynchronous = true → fifo ≠ []

/-- What the pass does to the `fifo` fields of the outputs of the user. -/
theorem insertDuplicate_ok {a : O} (own : OwnFifos g)
    (ok : g.insertDuplicate ios mode (.output a) = .ok next) :
    (∃ fifo, g.outputFifo (.output a) = .list fifo ∧ AcceptedFifo mode fifo) ∧
      (∃ key, next.outputFifo (.output a) = .edge key) ∧
      ∀ other, other ≠ a → next.outputFifo (.output other) = g.outputFifo (.output other) := by
  have outputNe : ∀ other, other ≠ a → GraphOutput.output other ≠ .output a :=
    fun other differs same => differs (GraphOutput.output.inj same)
  unfold insertDuplicate at ok
  split at ok
  · rename_i fifo isList
    cases ok
    have srcEq : fifo.1 = .output a := own a _ isList fifo (List.mem_singleton_self _)
    refine ⟨⟨_, isList, List.nodup_singleton _, fun _ => List.cons_ne_nil _ _⟩, ⟨fifo, ?_⟩, ?_⟩
    · rw [← srcEq]
      exact Function.update_self _ _ _
    · intro other differs
      exact Function.update_of_ne (srcEq ▸ outputNe other differs) _ _
  · rename_i fifo several isList
    split at ok
    · cases ok
    · simp only [bind, Except.bind] at ok
      split at ok
      · cases ok
      rename_i disconnected
      split at ok
      · cases ok
      rename_i chosen
      split at ok
      · cases ok
      rename_i connected
      rcases disconnect_ok (own a fifo isList) disconnected with ⟨nodup, -, unchanged⟩
      refine ⟨⟨fifo, isList, nodup, ?_⟩, ⟨(.output a, .duplicate g.duplicates.length), ?_⟩, ?_⟩
      · rintro asynchronous rfl
        cases disconnected
        unfold SchedulingMode.dupInputOptions at chosen
        rcases asynchronous with asynchronous | asynchronous
        · simp [asynchronous, maximum, bind, Except.bind] at chosen
        · split_ifs at chosen <;> simp [maximum, bind, Except.bind] at chosen
      · rw [connectDestinations_outputFifo ok, connect_outputFifo connected]
        exact Function.update_self _ _ _
      · intro other differs
        rw [connectDestinations_outputFifo ok, connect_outputFifo connected,
          Function.update_of_ne (outputNe other differs), unchanged _ (outputNe other differs)]
  · cases ok

/-- When the pass succeeds, it has accepted the edges of every output. -/
theorem acceptedFifo_of_ok {h : ConnectedGraph N O I F} (own : OwnFifos g)
    (nodesUser : ∀ node ∈ g.nodes, ∃ n, node = .node n)
    (ok : g.insertDuplicates ios mode = .ok h) {a : O}
    (owner : GraphNode.node (ios.owner a) ∈ g.nodes) :
    ∃ fifo, g.outputFifo (.output a) = .list fifo ∧ AcceptedFifo mode fifo := by
  rw [insertDuplicates, outputsOf_eq nodesUser, List.foldlM_map] at ok
  have run := Dataflow.foldlM_invariant
    (P := fun (done : List O) (s : ConnectedGraph N O I F) => OwnFifos s ∧
      ∀ a, (a ∉ done ∧ s.outputFifo (.output a) = g.outputFifo (.output a)) ∨
        (∃ key, s.outputFifo (.output a) = .edge key) ∧
          ∃ fifo, g.outputFifo (.output a) = .list fifo ∧ AcceptedFifo mode fifo)
    (l := g.userOutputs ios) (s := g) ?_ ⟨own, fun a => .inl ⟨List.not_mem_nil, rfl⟩⟩ ok
  · rcases run.2 a with ⟨unseen, -⟩ | ⟨-, accepted⟩
    · exact absurd (mem_userOutputs.mpr owner) unseen
    · exact accepted
  · rintro done x s next ⟨ownNow, soFar⟩ stepsTo
    rcases insertDuplicate_ok ownNow stepsTo with ⟨accepted, ⟨key, isEdge⟩, unchanged⟩
    refine ⟨?_, ?_⟩
    · intro other fifo isList
      by_cases same : other = x
      · subst same
        rw [isEdge] at isList
        cases isList
      · rw [unchanged other same] at isList
        exact ownNow other fifo isList
    · intro other
      by_cases same : other = x
      · subst same
        right
        refine ⟨⟨key, isEdge⟩, ?_⟩
        rcases soFar other with ⟨-, notYet⟩ | ⟨-, already⟩
        · rwa [notYet] at accepted
        · exact already
      · rw [unchanged other same]
        refine (soFar other).imp_left ?_
        rintro ⟨unseen, notYet⟩
        exact ⟨by simp [unseen, same], notYet⟩

/-- The graph built by some steps, which may connect a pair of IOs several times. -/
structure BuiltBy (ios : StreamingNodes N O I) (steps : List (BuildStep O I F))
    (g : ConnectedGraph N O I F) : Prop where
  nodesUser : ∀ node ∈ g.nodes, ∃ n, node = .node n
  outputFifo : ∀ a, g.outputFifo (.output a) =
    .list ((steps.filterMap BuildStep.key).filter fun key => key.1 = .output a)
  owner : ∀ a b, (.output a, .input b) ∈ steps.filterMap BuildStep.key →
    GraphNode.node (ios.owner a) ∈ g.nodes

/-- A connection that is accepted appends its key to the `fifo` field of the output. -/
theorem BuiltBy.connect {steps : List (BuildStep O I F)} (built : BuiltBy ios steps g) {a : O}
    {b : I} {options : ConnectOptions F}
    (ok : g.connect ios (.output a) (.input b) true options = .ok next) {step : BuildStep O I F}
    (isKey : step.key = some (.output a, .input b)) : BuiltBy ios (steps ++ [step]) next := by
  unfold ConnectedGraph.connect at ok
  split_ifs at ok
  have appended : (g.outputFifo (.output a)).connected (.output a, .input b) true = .ok (.list
      (((steps.filterMap BuildStep.key).filter fun key => key.1 = .output a) ++
        [(.output a, .input b)])) := by
    rw [built.outputFifo]
    rfl
  rw [appended] at ok
  cases inputFifo : (g.inputFifo (.input b)).connected (.output a, .input b) true with
  | error error => simp [inputFifo, bind, Except.bind] at ok
  | ok fifo =>
      simp only [inputFifo, bind, Except.bind, pure, Except.pure] at ok
      cases ok
      have keys : (steps ++ [step]).filterMap BuildStep.key =
          steps.filterMap BuildStep.key ++ [(.output a, .input b)] := by
        simp [List.filterMap_append, isKey]
      refine ⟨?_, ?_, ?_⟩
      · intro node nodeMem
        rcases mem_addNode.mp nodeMem with mem | rfl
        · rcases mem_addNode.mp mem with old | rfl
          · exact built.nodesUser node old
          · exact ⟨ios.owner a, rfl⟩
        · exact ⟨ios.inputOwner b, rfl⟩
      · intro other
        rw [keys, List.filter_append]
        change Function.update g.outputFifo _ _ _ = _
        by_cases same : other = a
        · subst same
          simp
        · rw [Function.update_of_ne fun eq => same (GraphOutput.output.inj eq), built.outputFifo]
          simp [Ne.symm same]
      · intro other input mem
        rw [keys, List.mem_append] at mem
        apply mem_addNode.mpr
        left
        apply mem_addNode.mpr
        rcases mem with old | new
        · exact .inl (built.owner other input old)
        · cases List.mem_singleton.mp new
          exact .inr rfl

theorem BuiltBy.of_build {defaultFIFOClass : F} {steps : List (BuildStep O I F)}
    (built : BuildStep.build ios defaultFIFOClass steps = .ok g) : BuiltBy ios steps g := by
  refine Dataflow.foldlM_invariant (P := BuiltBy ios) (f := BuildStep.run ios) ?_ ?_ built
  · intro done step h next holds stepsTo
    have other : step.key = none → next.nodes = h.nodes → next.outputFifo = h.outputFifo →
        BuiltBy ios (done ++ [step]) next := by
      intro noKey nodes outputFifo
      have keys : (done ++ [step]).filterMap BuildStep.key = done.filterMap BuildStep.key := by
        simp [List.filterMap_append, noKey]
      exact ⟨by rw [nodes]; exact holds.nodesUser, by rw [outputFifo, keys]; exact holds.outputFifo,
        by rw [nodes, keys]; exact holds.owner⟩
    cases step with
    | connect a b options => exact holds.connect stepsTo rfl
    | connectWithDelay a b delay options =>
        rw [BuildStep.run, connectWithDelay] at stepsTo
        cases connected : h.connect ios (.output a) (.input b) true options with
        | error error => simp [connected, bind, Except.bind] at stepsTo
        | ok result =>
            simp only [connected, bind, Except.bind, pure, Except.pure] at stepsTo
            cases stepsTo
            have after : BuiltBy ios (done ++ [.connectWithDelay a b delay options]) result :=
              holds.connect connected rfl
            exact ⟨after.nodesUser, after.outputFifo, after.owner⟩
    | connectConstant constant b =>
        cases stepsTo
        exact other rfl rfl rfl
    | connectConstantWithDelay constant b delay => cases stepsTo
    | setDefaultFIFOClass fifoClass =>
        cases stepsTo
        exact other rfl rfl rfl
  · exact ⟨by simp [ConnectedGraph.empty], by simp [ConnectedGraph.empty], by simp⟩

omit [DecidableEq O] [DecidableEq I] in
theorem key_of_filterMap {steps : List (BuildStep O I F)} {key : EdgeKey O I}
    (mem : key ∈ steps.filterMap BuildStep.key) : ∃ a b, key = (.output a, .input b) := by
  rcases List.mem_filterMap.mp mem with ⟨step, -, isKey⟩
  cases step <;> cases isKey <;> exact ⟨_, _, rfl⟩

/-- When the pass succeeds, no pair of IOs was connected twice and, in the asynchronous modes,
every output is connected. -/
theorem BuiltBy.connectedOnce {steps : List (BuildStep O I F)} {h : ConnectedGraph N O I F}
    (built : BuiltBy ios steps g) (ok : g.insertDuplicates ios mode = .ok h) :
    (steps.filterMap BuildStep.key).Nodup ∧
      (mode.asynchronous = true ∨ mode.fullyAsynchronous = true →
        ∀ a ∈ g.userOutputs ios, g.outputFifo (.output a) ≠ .list []) := by
  have own : OwnFifos g := by
    intro a fifo isList key keyMem
    rw [built.outputFifo] at isList
    cases isList
    exact of_decide_eq_true (List.mem_filter.mp keyMem).2
  have accepted : ∀ a, GraphNode.node (ios.owner a) ∈ g.nodes → ∃ fifo,
      g.outputFifo (.output a) = .list fifo ∧ AcceptedFifo mode fifo :=
    fun a owner => acceptedFifo_of_ok own built.nodesUser ok owner
  refine ⟨?_, ?_⟩
  · rw [List.nodup_iff_count_le_one]
    intro key
    by_cases mem : key ∈ steps.filterMap BuildStep.key
    · rcases key_of_filterMap mem with ⟨a, b, rfl⟩
      rcases accepted a (built.owner a b mem) with ⟨fifo, isList, isAccepted⟩
      rw [built.outputFifo] at isList
      cases isList
      have once := List.nodup_iff_count_le_one.mp isAccepted.nodup (.output a, .input b)
      rwa [List.count_filter (by simp)] at once
    · rw [List.count_eq_zero_of_not_mem mem]
      exact Nat.zero_le _
  · intro asynchronous a aMem empty
    rcases accepted a (mem_userOutputs.mp aMem) with ⟨fifo, isList, isAccepted⟩
    rw [empty] at isList
    cases isList
    exact isAccepted.nonempty asynchronous rfl

/-- The pass on a graph of the user, when it succeeds. -/
theorem InsertedUpTo.of_ok {defaultFIFOClass : F} {steps : List (BuildStep O I F)}
    {h : ConnectedGraph N O I F} (built : BuildStep.build ios defaultFIFOClass steps = .ok g)
    (ok : g.insertDuplicates ios mode = .ok h) :
    WellConnected ios g ∧ InsertedUpTo ios mode g (g.userOutputs ios) h := by
  rcases (BuiltBy.of_build built).connectedOnce ok with ⟨connectedOnce, outputsConnected⟩
  have connected := WellConnected.of_build connectedOnce built
  refine ⟨connected, ?_⟩
  have nonempty : mode.asynchronous = true ∨ mode.fullyAsynchronous = true →
      ∀ a ∈ g.userOutputs ios, g.edgesFrom (.output a) ≠ [] := by
    intro asynchronous a aMem empty
    apply outputsConnected asynchronous a aMem
    rw [connected.outputFifo, empty]
    rfl
  rcases connected.insertDuplicates_run nonempty with
    ⟨e, -, -, raised⟩ | ⟨-, final, run, inserted⟩
  · rw [ok] at raised
    cases raised
  · rw [ok] at run
    cases run
    exact inserted

end CmsisStream.Scheduler.ConnectedGraph
