import CmsisStream.Dataflow.Periodic
import CmsisStream.Dataflow.Processes

/-!
# Progress of a network of processes

When the processes of a network take and add what a counting net says, the numbers of samples in
the queues are those of the counting net.  Then a firing order which stays within the capacities
is executed without a skip; and in every other order in which all the nodes are tried again and
again, no node falls behind for ever.
-/

namespace Dataflow

namespace ProcessNet

variable {Node Edge σ α : Type} [DecidableEq Node] [Fintype Edge]

/-- The processes have the rates of a counting net; the state of a node says how many times it
has been executed. -/
structure Follows (net : ProcessNet Node Edge σ α) (rates : Net Node Edge)
    (executions : Node → σ → ℕ) : Prop where
  src : net.src = rates.src
  dst : net.dst = rates.dst
  taken : ∀ state e, rates.consumed e (executions (rates.dst e) state + 1) =
    rates.consumed e (executions (rates.dst e) state) + net.taken (rates.dst e) state e
  added : ∀ state e, rates.produced e (executions (rates.src e) state + 1) =
    rates.produced e (executions (rates.src e) state) + net.added (rates.src e) state e
  run : ∀ node state inputs,
    executions node (net.run node state inputs).1 = executions node state + 1

/-- How many times the nodes have been executed. -/
def executed (executions : Node → σ → ℕ) (s : ProcessState Node Edge σ α) (node : Node) : ℕ :=
  executions node (s.nodes node)

/-- The capacities of the queues. -/
def capacities (net : ProcessNet Node Edge σ α) (e : Edge) : WithTop ℤ := net.capacity e

/-- The queues have the samples of the counting net, and these stay within the capacities. -/
structure Counted (net : ProcessNet Node Edge σ α) (rates : Net Node Edge)
    (executions : Node → σ → ℕ) (s : ProcessState Node Edge σ α) : Prop where
  length : ∀ e, ((s.queues e).length : ℤ) = rates.level (executed executions s) e
  within : rates.Within net.capacities (executed executions s)

variable {net : ProcessNet Node Edge σ α} {rates : Net Node Edge} {executions : Node → σ → ℕ}
  {s start t : ProcessState Node Edge σ α} {node : Node}

omit [Fintype Edge] in
theorem executed_fire (follows : net.Follows rates executions) :
    executed executions (net.fire s node) = bump (executed executions s) node := by
  funext other
  by_cases same : other = node
  · subst same
    simp only [executed, fire, Function.update_self, bump_self]
    exact follows.run ..
  · rw [executed, nodes_fire_of_ne same, bump_of_ne _ same]
    rfl

omit [Fintype Edge] in
/-- The level of an input after an execution. -/
theorem level_input (follows : net.Follows rates executions) {e : Edge}
    (noLoop : rates.src e ≠ rates.dst e) :
    rates.level (bump (executed executions s) (rates.dst e)) e =
      rates.level (executed executions s) e -
        net.taken (rates.dst e) (s.nodes (rates.dst e)) e := by
  have taken := follows.taken (s.nodes (rates.dst e)) e
  simp only [Net.level, bump_self, bump_of_ne _ noLoop, executed, taken]
  omega

omit [Fintype Edge] in
/-- The level of an output after an execution. -/
theorem level_output (follows : net.Follows rates executions) {e : Edge}
    (noLoop : rates.src e ≠ rates.dst e) :
    rates.level (bump (executed executions s) (rates.src e)) e =
      rates.level (executed executions s) e +
        net.added (rates.src e) (s.nodes (rates.src e)) e := by
  have added := follows.added (s.nodes (rates.src e)) e
  simp only [Net.level, bump_self, bump_of_ne _ noLoop.symm, executed, added]
  omega

variable (follows : net.Follows rates executions) (noLoop : ∀ e, rates.src e ≠ rates.dst e)

include follows noLoop

omit [Fintype Edge] in
/-- A node is ready when its firing stays within the capacities. -/
theorem Counted.ready_iff (counted : net.Counted rates executions s) :
    net.Ready s node ↔ rates.Within net.capacities (bump (executed executions s) node) := by
  constructor
  · intro ready e
    rcases counted.within e with ⟨low, high⟩
    have below : rates.level (executed executions s) e ≤ net.capacity e :=
      WithTop.coe_le_coe.mp high
    have number := counted.length e
    have each := ready e
    simp only [follows.src, follows.dst] at each
    by_cases isInput : rates.dst e = node
    · subst isInput
      have enough := each.1 rfl
      rw [level_input follows (noLoop e)]
      refine ⟨by omega, WithTop.coe_le_coe.mpr (by omega)⟩
    · by_cases isOutput : rates.src e = node
      · subst isOutput
        have room := each.2 rfl
        rw [level_output follows (noLoop e)]
        refine ⟨by omega, WithTop.coe_le_coe.mpr (by omega)⟩
      · rw [Net.level_bump_of_ne isOutput isInput]
        exact ⟨low, high⟩
  · intro within e
    rcases within e with ⟨low, high⟩
    have below : rates.level (bump (executed executions s) node) e ≤ net.capacity e :=
      WithTop.coe_le_coe.mp high
    have number := counted.length e
    simp only [follows.src, follows.dst]
    refine ⟨?_, ?_⟩
    · rintro rfl
      rw [level_input follows (noLoop e)] at low
      omega
    · rintro rfl
      rw [level_output follows (noLoop e)] at below
      omega

omit [Fintype Edge] in
/-- An execution keeps the samples of the counting net. -/
theorem Counted.fire (counted : net.Counted rates executions s) (ready : net.Ready s node) :
    net.Counted rates executions (net.fire s node) := by
  have fired : executed executions (net.fire s node) = bump (executed executions s) node :=
    executed_fire follows
  refine ⟨fun e => ?_, ?_⟩
  · have number := counted.length e
    have each := ready e
    simp only [follows.src, follows.dst] at each
    rw [fired]
    simp only [ProcessNet.fire, left, outputs, follows.src, follows.dst]
    by_cases isInput : rates.dst e = node
    · subst isInput
      have enough := each.1 rfl
      rw [level_input follows (noLoop e), if_pos rfl, if_neg (noLoop e), List.append_nil,
        List.length_drop]
      omega
    · by_cases isOutput : rates.src e = node
      · subst isOutput
        rw [level_output follows (noLoop e), if_neg isInput, if_pos rfl, List.length_append,
          net.length_run]
        omega
      · rw [Net.level_bump_of_ne isOutput isInput, if_neg isInput, if_neg isOutput,
          List.append_nil]
        exact number
  · rw [fired]
    exact (counted.ready_iff follows noLoop).mp ready

/-- The attempts keep the samples of the counting net. -/
theorem Counted.attempts (counted : net.Counted rates executions s)
    (start : ProcessState Node Edge σ α) (actions : List Node) :
    net.Counted rates executions ((net.machine start).attempts s actions) ∧
      executed executions ((net.machine start).attempts s actions) =
        executed executions s + counts ((net.machine start).performed s actions) := by
  induction actions generalizing s with
  | nil =>
      refine ⟨counted, ?_⟩
      simp only [Machine.attempts, Machine.performed, counts_nil]
      rfl
  | cons node actions ih =>
      simp only [Machine.attempts, Machine.performed]
      cases next : (net.machine start).next s node with
      | none => exact ih counted
      | some t =>
          rcases next_eq_some_iff.mp next with ⟨ready, rfl⟩
          rcases ih (counted.fire follows noLoop ready) with ⟨stillCounted, total⟩
          refine ⟨stillCounted, ?_⟩
          rw [Option.getD_some, total, executed_fire follows]
          funext other
          by_cases same : other = node
          · subst same
            simp only [Pi.add_apply, bump_self, counts, List.count_cons_self]
            omega
          · simp only [Pi.add_apply, bump_of_ne _ same, counts,
              List.count_cons_of_ne (Ne.symm same)]

/-- A firing order which stays within the capacities is executed without a skip. -/
theorem Counted.performed_of_admissible (counted : net.Counted rates executions s)
    (fresh : executed executions s = fun _ => 0) {firings : List Node}
    (admissible : rates.Admissible net.capacities firings) :
    (net.machine start).performed s firings = firings := by
  induction firings using List.reverseRecOn with
  | nil => rfl
  | append_singleton firings node ih =>
      rcases Net.admissible_concat_iff.mp admissible with ⟨before, within⟩
      have all := ih before
      rcases counted.attempts follows noLoop start firings with ⟨later, total⟩
      have isReady : net.Ready ((net.machine start).attempts s firings) node := by
        have reached : (fun _ => 0) + counts firings = counts firings := zero_add _
        rw [later.ready_iff follows noLoop, total, fresh, all, reached]
        exact within
      rw [Machine.performed_append, all]
      simp only [Machine.performed, next_eq_some_iff.mpr ⟨isReady, rfl⟩]

omit [Fintype Edge] in
/-- As long as a node has not been executed as often as in a firing order which stays within the
capacities, such a node is ready. -/
theorem Counted.exists_ready (counted : net.Counted rates executions s) {firings : List Node}
    (admissible : rates.Admissible net.capacities firings)
    (behind : ¬counts firings ≤ executed executions s) :
    ∃ node, executed executions s node < counts firings node ∧ net.Ready s node := by
  rcases exists_first_excess behind with ⟨before, node, isPrefix, smaller, same⟩
  refine ⟨node, ?_, ?_⟩
  · rcases isPrefix with ⟨rest, rfl⟩
    rw [counts_append, counts_concat, Pi.add_apply, bump_self, same]
    omega
  · rw [counted.ready_iff follows noLoop]
    have possible : rates.Within net.capacities (bump (counts before) node) := by
      simpa using (admissible _ isPrefix)
    exact Net.within_bump_of_le noLoop smaller same counted.within possible

/-- How many executions are missing. -/
def missing [Fintype Node] (firings : List Node) (x : Node → ℕ) : ℕ :=
  ∑ node, (counts firings node - x node)

/-- Progress.  When all the nodes are tried again and again, in orders which may change, they are
executed as often as in any firing order which stays within the capacities. -/
theorem Counted.progress [Fintype Node] (counted : net.Counted rates executions s)
    {firings : List Node} (admissible : rates.Admissible net.capacities firings)
    {sweeps : List (List Node)} (complete : ∀ sweep ∈ sweeps, ∀ node, node ∈ sweep)
    (enough : missing firings (executed executions s) ≤ sweeps.length) :
    counts firings ≤ executed executions ((net.machine start).attempts s sweeps.flatten) := by
  induction sweeps generalizing s with
  | nil =>
      have none : ∀ node ∈ Finset.univ, counts firings node - executed executions s node = 0 :=
        Finset.sum_eq_zero_iff.mp (Nat.le_zero.mp enough)
      intro node
      have reached := none node (Finset.mem_univ node)
      exact Nat.sub_eq_zero_iff_le.mp reached
  | cons sweep sweeps ih =>
      rw [List.flatten_cons, Machine.attempts_append]
      rcases counted.attempts follows noLoop start sweep with ⟨later, total⟩
      refine ih later (fun other mem => complete other (List.mem_cons_of_mem _ mem)) ?_
      have more : executed executions s ≤
          executed executions ((net.machine start).attempts s sweep) := by
        intro node
        rw [total, Pi.add_apply]
        exact Nat.le_add_right _ _
      by_cases behind : counts firings ≤ executed executions s
      · have none : missing firings
            (executed executions ((net.machine start).attempts s sweep)) = 0 :=
          Finset.sum_eq_zero fun node _ => Nat.sub_eq_zero_of_le ((behind node).trans (more node))
        omega
      · -- a node which is behind is executed in this sweep
        rcases counted.exists_ready follows noLoop admissible behind with ⟨node, less, ready⟩
        have performed : node ∈ (net.machine start).performed s sweep :=
          machine_commutes.mem_performed (next_eq_some_iff.mpr ⟨ready, rfl⟩)
            (complete sweep (by simp) node)
        have once : executed executions s node <
            executed executions ((net.machine start).attempts s sweep) node := by
          rw [total, Pi.add_apply]
          have positive := List.count_pos_iff.mpr performed
          simp only [counts]
          omega
        have fewer : missing firings
            (executed executions ((net.machine start).attempts s sweep)) <
              missing firings (executed executions s) := by
          apply Finset.sum_lt_sum
          · intro other _
            exact Nat.sub_le_sub_left (more other) _
          · refine ⟨node, Finset.mem_univ node, ?_⟩
            omega
        simp only [List.length_cons] at enough
        omega

end ProcessNet

end Dataflow
