import CmsisStream.Concurrency.Commuting
import CmsisStream.Dataflow.Net
import Mathlib.Data.Fintype.Basic

/-!
# Networks of processes

The nodes of a network have a state and exchange samples through bounded queues.  The state
of a node says how many samples it takes and adds when it is executed, and it is only executed
when its inputs have these samples and its outputs have this room.  Then what a node does in
its executions is the same in all the runs of the network, whatever the order of the nodes.
-/

namespace Dataflow

/-- Processes joined by queues. -/
structure ProcessNet (Node Edge σ α : Type) where
  src : Edge → Node
  dst : Edge → Node
  capacity : Edge → ℤ
  /-- How many samples an execution takes from its inputs, and how many it adds to its outputs. -/
  taken : Node → σ → Edge → ℕ
  added : Node → σ → Edge → ℕ
  /-- The state after an execution and the samples it adds, given the samples it takes. -/
  run : Node → σ → (Edge → List α) → σ × (Edge → List α)
  length_run : ∀ node state inputs e, ((run node state inputs).2 e).length = added node state e

/-- The states of the nodes and the samples in the queues, and what was taken and added. -/
@[ext]
structure ProcessState (Node Edge σ α : Type) where
  nodes : Node → σ
  queues : Edge → List α
  consumed : Edge → List α
  produced : Edge → List α

namespace ProcessNet

variable {Node Edge σ α : Type} [DecidableEq Node] (net : ProcessNet Node Edge σ α)
  (s : ProcessState Node Edge σ α)

/-- The inputs of a node have its samples, and its outputs have room. -/
def Ready (node : Node) : Prop :=
  ∀ e, (net.dst e = node → net.taken node (s.nodes node) e ≤ (s.queues e).length) ∧
    (net.src e = node →
      ((s.queues e).length : ℤ) + net.added node (s.nodes node) e ≤ net.capacity e)

instance [Fintype Edge] (node : Node) : Decidable (net.Ready s node) :=
  inferInstanceAs (Decidable (∀ e, (net.dst e = node → _) ∧ (net.src e = node → _)))

/-- The samples that an execution takes. -/
def inputs (node : Node) (e : Edge) : List α :=
  if net.dst e = node then (s.queues e).take (net.taken node (s.nodes node) e) else []

/-- The samples that an execution adds. -/
def outputs (node : Node) (e : Edge) : List α :=
  if net.src e = node then (net.run node (s.nodes node) (net.inputs s node)).2 e else []

/-- The samples which an execution leaves in the queues. -/
def left (node : Node) (e : Edge) : List α :=
  if net.dst e = node then (s.queues e).drop (net.taken node (s.nodes node) e) else s.queues e

/-- The state after an execution of a node. -/
def fire (node : Node) : ProcessState Node Edge σ α where
  nodes := Function.update s.nodes node (net.run node (s.nodes node) (net.inputs s node)).1
  queues e := net.left s node e ++ net.outputs s node e
  consumed e := s.consumed e ++ net.inputs s node e
  produced e := s.produced e ++ net.outputs s node e

/-- The network started in a state; a node is executed when it is ready. -/
def machine [Fintype Edge] : Machine (ProcessState Node Edge σ α) Node where
  init := s
  next s node := if net.Ready s node then some (net.fire s node) else none

variable {net s} {node other : Node}

theorem nodes_fire_of_ne (ne : other ≠ node) : (net.fire s node).nodes other = s.nodes other :=
  Function.update_of_ne ne ..

/-- An execution keeps what another node is going to take. -/
theorem inputs_fire (ne : node ≠ other) (ready : net.Ready s other) :
    net.inputs (net.fire s node) other = net.inputs s other := by
  funext e
  simp only [inputs, nodes_fire_of_ne ne.symm]
  split_ifs with isInput
  · have enough := (ready e).1 isInput
    have notInput : net.dst e ≠ node := fun eq => ne (eq.symm.trans isInput)
    simp only [fire, left, if_neg notInput]
    exact List.take_append_of_le_length enough
  · rfl

theorem outputs_fire (ne : node ≠ other) (ready : net.Ready s other) :
    net.outputs (net.fire s node) other = net.outputs s other := by
  funext e
  rw [outputs, inputs_fire ne ready, nodes_fire_of_ne ne.symm]
  rfl

/-- A node which is ready stays ready when another node is executed. -/
theorem Ready.fire (ready : net.Ready s other) (ne : node ≠ other) :
    net.Ready (net.fire s node) other := by
  intro e
  rw [nodes_fire_of_ne ne.symm]
  refine ⟨fun isInput => ?_, fun isOutput => ?_⟩
  · have enough := (ready e).1 isInput
    have notInput : net.dst e ≠ node := fun eq => ne (eq.symm.trans isInput)
    simp only [ProcessNet.fire, left, if_neg notInput, List.length_append]
    omega
  · have room := (ready e).2 isOutput
    have notOutput : net.src e ≠ node := fun eq => ne (eq.symm.trans isOutput)
    have fewer : (net.left s node e).length ≤ (s.queues e).length := by
      unfold left
      split_ifs
      · simp
      · exact le_rfl
    simp only [ProcessNet.fire, outputs, if_neg notOutput, List.append_nil]
    omega

/-- Two nodes do not add samples to the same edge. -/
theorem outputs_append_comm (ne : node ≠ other) (e : Edge) :
    net.outputs s node e ++ net.outputs s other e =
      net.outputs s other e ++ net.outputs s node e := by
  by_cases isOutput : net.src e = node
  · have nothing : net.outputs s other e = [] := by
      rw [outputs, if_neg fun eq => ne (isOutput.symm.trans eq)]
    simp [nothing]
  · have nothing : net.outputs s node e = [] := by rw [outputs, if_neg isOutput]
    simp [nothing]

/-- Two executions take and add the same samples in both orders. -/
theorem fire_fire (ne : node ≠ other) (ready : net.Ready s node)
    (readyOther : net.Ready s other) :
    net.fire (net.fire s node) other = net.fire (net.fire s other) node := by
  have inputsNode := inputs_fire ne.symm ready
  have inputsOther := inputs_fire ne readyOther
  have outputsNode := outputs_fire ne.symm ready
  have outputsOther := outputs_fire ne readyOther
  ext1
  · change Function.update (Function.update s.nodes node _) other _ =
      Function.update (Function.update s.nodes other _) node _
    rw [nodes_fire_of_ne ne.symm, nodes_fire_of_ne ne, inputsNode, inputsOther]
    exact Function.update_comm ne _ _ _
  · funext e
    change net.left (net.fire s node) other e ++ net.outputs (net.fire s node) other e =
      net.left (net.fire s other) node e ++ net.outputs (net.fire s other) node e
    rw [outputsNode, outputsOther]
    simp only [left, nodes_fire_of_ne ne, nodes_fire_of_ne ne.symm]
    simp only [fire, left]
    -- an edge is the input of at most one of the nodes, and the output of at most one
    by_cases isInput : net.dst e = node
    · have notOther : net.dst e ≠ other := fun eq => ne (isInput.symm.trans eq)
      simp only [if_pos isInput, if_neg notOther,
        List.drop_append_of_le_length ((ready e).1 isInput), List.append_assoc,
        outputs_append_comm ne e]
    · by_cases isOther : net.dst e = other
      · simp only [if_neg isInput, if_pos isOther,
          List.drop_append_of_le_length ((readyOther e).1 isOther), List.append_assoc,
          outputs_append_comm ne e]
      · simp only [if_neg isInput, if_neg isOther, List.append_assoc, outputs_append_comm ne e]
  · funext e
    change s.consumed e ++ net.inputs s node e ++ net.inputs (net.fire s node) other e =
      s.consumed e ++ net.inputs s other e ++ net.inputs (net.fire s other) node e
    rw [inputsNode, inputsOther]
    by_cases isInput : net.dst e = node
    · have nothing : net.inputs s other e = [] := by
        rw [inputs, if_neg fun eq => ne (isInput.symm.trans eq)]
      simp [nothing]
    · have nothing : net.inputs s node e = [] := by rw [inputs, if_neg isInput]
      simp [nothing]
  · funext e
    change s.produced e ++ net.outputs s node e ++ net.outputs (net.fire s node) other e =
      s.produced e ++ net.outputs s other e ++ net.outputs (net.fire s other) node e
    rw [outputsNode, outputsOther, List.append_assoc, outputs_append_comm ne e,
      List.append_assoc]

variable [Fintype Edge] {start t u : ProcessState Node Edge σ α} {first second : List Node}

theorem next_eq_some_iff :
    (net.machine start).next s node = some t ↔ net.Ready s node ∧ net.fire s node = t := by
  simp only [machine]
  split_ifs with ready
  · simp [ready]
  · simp [ready]

theorem machine_commutes : (net.machine start).Commutes := by
  intro s node other t u ne next nextOther
  rcases next_eq_some_iff.mp next with ⟨ready, rfl⟩
  rcases next_eq_some_iff.mp nextOther with ⟨readyOther, rfl⟩
  refine ⟨net.fire (net.fire s node) other, ?_, ?_⟩
  · exact next_eq_some_iff.mpr ⟨readyOther.fire ne, rfl⟩
  · exact next_eq_some_iff.mpr ⟨ready.fire ne.symm, (fire_fire ne ready readyOther).symm⟩

/-- What is taken and added in a run goes on from what was taken and added before. -/
theorem prefix_of_run (run : (net.machine start).run s first = some t) (e : Edge) :
    s.consumed e <+: t.consumed e ∧ s.produced e <+: t.produced e := by
  induction first generalizing s with
  | nil =>
      cases run
      exact ⟨List.prefix_rfl, List.prefix_rfl⟩
  | cons node first ih =>
      rcases Machine.run_cons_eq_some run with ⟨u, next, rest⟩
      rcases next_eq_some_iff.mp next with ⟨-, rfl⟩
      rcases ih rest with ⟨consumed, produced⟩
      exact ⟨(List.prefix_append _ _).trans consumed, (List.prefix_append _ _).trans produced⟩

/-- A node which is not executed takes and adds nothing. -/
theorem unchanged_of_run (run : (net.machine start).run s first = some t) (notIn : node ∉ first) :
    t.nodes node = s.nodes node ∧ (∀ e, net.dst e = node → t.consumed e = s.consumed e) ∧
      ∀ e, net.src e = node → t.produced e = s.produced e := by
  induction first generalizing s with
  | nil =>
      cases run
      exact ⟨rfl, fun _ _ => rfl, fun _ _ => rfl⟩
  | cons other first ih =>
      rcases Machine.run_cons_eq_some run with ⟨u, next, rest⟩
      rcases next_eq_some_iff.mp next with ⟨-, rfl⟩
      have ne : node ≠ other := fun eq => notIn (by simp [eq])
      rcases ih rest (fun mem => notIn (by simp [mem])) with ⟨nodes, consumed, produced⟩
      refine ⟨nodes.trans (nodes_fire_of_ne ne), fun e isInput => ?_, fun e isOutput => ?_⟩
      · rw [consumed e isInput]
        simp [fire, inputs, show net.dst e ≠ other from fun eq => ne (isInput.symm.trans eq)]
      · rw [produced e isOutput]
        simp [fire, outputs, show net.src e ≠ other from fun eq => ne (isOutput.symm.trans eq)]

/-- What a node does only depends on how many times it is executed. -/
theorem same_of_count_eq (run₁ : (net.machine start).run s first = some t)
    (run₂ : (net.machine start).run s second = some u)
    (same : first.count node = second.count node) :
    t.nodes node = u.nodes node ∧ (∀ e, net.dst e = node → t.consumed e = u.consumed e) ∧
      ∀ e, net.src e = node → t.produced e = u.produced e := by
  rcases machine_commutes.join run₁ run₂ with ⟨v, left, right⟩
  have notLeft : node ∉ second.diff first := by
    apply List.count_eq_zero.mp
    rw [List.count_diff]
    omega
  have notRight : node ∉ first.diff second := by
    apply List.count_eq_zero.mp
    rw [List.count_diff]
    omega
  rcases unchanged_of_run left notLeft with ⟨nodes, consumed, produced⟩
  rcases unchanged_of_run right notRight with ⟨nodes', consumed', produced'⟩
  exact ⟨nodes.symm.trans nodes',
    fun e isInput => (consumed e isInput).symm.trans (consumed' e isInput),
    fun e isOutput => (produced e isOutput).symm.trans (produced' e isOutput)⟩

/-- In two runs the samples which go through an edge are the same, as far as both have come. -/
theorem comparable_of_run (run₁ : (net.machine start).run s first = some t)
    (run₂ : (net.machine start).run s second = some u) (e : Edge) :
    (t.consumed e <+: u.consumed e ∨ u.consumed e <+: t.consumed e) ∧
      (t.produced e <+: u.produced e ∨ u.produced e <+: t.produced e) := by
  rcases machine_commutes.join run₁ run₂ with ⟨v, left, right⟩
  rcases prefix_of_run left e with ⟨consumed, produced⟩
  rcases prefix_of_run right e with ⟨consumed', produced'⟩
  exact ⟨List.prefix_or_prefix_of_prefix consumed consumed',
    List.prefix_or_prefix_of_prefix produced produced'⟩

end ProcessNet

end Dataflow
