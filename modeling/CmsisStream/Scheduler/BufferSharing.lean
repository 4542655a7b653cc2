import CmsisStream.Scheduler.SharedRun

/-!
# Memory optimization preserves the meaning of a schedule

A FIFO which contains a block at some time of the schedule is live at this time,
and so is a FIFO which is written.  When both have the same storage they do not
interfere, so they must be an exception for a `Duplicate` node.  The live
intervals required by the exceptions only leave the case of a `Duplicate` which
is executed once per period and copies the block to its own place.
-/

namespace CmsisStream.Scheduler

open Dataflow Platform

universe v w

variable {g : Graph} {q : Fin g.nbNodes → ℤ} {s : SchedState g}

section Live

variable {before after : List (Fin g.nbNodes)} {node : Fin g.nbNodes} {e : Fin g.nbEdges}
  {nb : ℕ}

theorem Graph.BlockRate.writes (rate : g.BlockRate e nb) (before : List (Fin g.nbNodes)) :
    g.Writes before e := by
  rw [Graph.Writes, rate.period.1, Nat.mod_one, rate.value.1]
  exact rate.positive

theorem Graph.BlockRate.reads (rate : g.BlockRate e nb) (before : List (Fin g.nbNodes)) :
    g.Reads before e := by
  rw [Graph.Reads, rate.period.2, Nat.mod_one, rate.value.2]
  exact rate.positive

theorem Graph.BlockRate.level_eq_zero_iff (rate : g.BlockRate e nb) (x : Fin g.nbNodes → ℕ) :
    g.net.level x e = 0 ↔ x (g.edge e).srcOwner = x (g.edge e).dstOwner := by
  have positive : (nb : ℤ) ≠ 0 := by exact_mod_cast rate.positive.ne'
  rw [rate.level, mul_eq_zero, or_iff_left positive, sub_eq_zero]
  exact Int.ofNat_inj

namespace SchedulePeriod

/-- At each time of the schedule a FIFO working as an array has at most one block. -/
theorem blocks_of_prefix (period : SchedulePeriod q s) (rate : g.BlockRate e nb)
    (isMax : s.bMax e = nb) (isPrefix : before <+: s.schedule) :
    counts before (g.edge e).srcOwner = counts before (g.edge e).dstOwner ∨
      counts before (g.edge e).srcOwner = counts before (g.edge e).dstOwner + 1 := by
  obtain ⟨low, high⟩ := period.invariant.admissible before isPrefix e
  exact rate.blocks_of_within low (isMax ▸ WithTop.coe_le_coe.mp high)

/-- The whole schedule reads each block it writes. -/
theorem all_read (period : SchedulePeriod q s) (noLoop : g.NoLoop)
    (balanced : ∀ e, ∑ node, g.topologyMatrix e node * q node = 0) (rate : g.BlockRate e nb) :
    counts s.schedule (g.edge e).srcOwner = counts s.schedule (g.edge e).dstOwner := by
  have level := period.level_after noLoop balanced 1 e
  rw [List.replicate_one, List.flatten_singleton, rate.delay, Nat.cast_zero] at level
  exact (rate.level_eq_zero_iff _).mp level

end SchedulePeriod

/-- Something executed in the first part of a schedule and not in the second. -/
theorem exists_firing_of_counts_pos {firings : List (Fin g.nbNodes)} {node : Fin g.nbNodes}
    (positive : 0 < counts firings node) :
    ∃ early late, firings = early ++ node :: late :=
  List.append_of_mem (List.count_pos_iff.mp positive)

/-- The block in a FIFO is read later. -/
theorem stop_of_pending (period : SchedulePeriod q s) (noLoop : g.NoLoop)
    (balanced : ∀ e, ∑ node, g.topologyMatrix e node * q node = 0) (rate : g.BlockRate e nb)
    (split : s.schedule = before ++ after)
    (pending : counts before (g.edge e).dstOwner < counts before (g.edge e).srcOwner) :
    before.length ≤ (s.liveInterval e).2 := by
  have total := period.all_read noLoop balanced rate
  rw [split, counts_append, Pi.add_apply, Pi.add_apply] at total
  have readAfter : 0 < counts after (g.edge e).dstOwner := by omega
  obtain ⟨early, late, rfl⟩ := exists_firing_of_counts_pos readAfter
  have isRead := period.recorded.read (before ++ early) _ late
    (by rw [split, List.append_assoc]) e rfl (rate.reads _)
  rw [List.length_append] at isRead
  omega

/-- A block in a FIFO was written before, and the FIFO is live. -/
theorem live_of_full (period : SchedulePeriod q s) (noLoop : g.NoLoop)
    (balanced : ∀ e, ∑ node, g.topologyMatrix e node * q node = 0) (rate : g.BlockRate e nb)
    (isMax : s.bMax e = nb) (split : s.schedule = before ++ after)
    (full : g.net.level (counts before) e ≠ 0) :
    (s.liveInterval e).1 < before.length ∧ (before.length : ℤ) ≤ (s.liveInterval e).2 := by
  rw [ne_eq, rate.level_eq_zero_iff] at full
  have pending := (period.blocks_of_prefix rate isMax (split ▸ List.prefix_append _ _)).resolve_left
    full
  refine ⟨?_, stop_of_pending period noLoop balanced rate split (by omega)⟩
  have writtenBefore : 0 < counts before (g.edge e).srcOwner := by omega
  obtain ⟨early, late, rfl⟩ := exists_firing_of_counts_pos writtenBefore
  have isWritten := period.recorded.write early _ (late ++ after)
    (by rw [split, List.append_assoc, List.cons_append]) e rfl (rate.writes _)
  rw [List.length_append, List.length_cons]
  push_cast
  omega

/-- A FIFO is live when it is written, and until it is read. -/
theorem live_of_written (period : SchedulePeriod q s) (noLoop : g.NoLoop)
    (balanced : ∀ e, ∑ node, g.topologyMatrix e node * q node = 0) (rate : g.BlockRate e nb)
    (isMax : s.bMax e = nb) (split : s.schedule = before ++ node :: after)
    (isOutput : (g.edge e).srcOwner = node) :
    (s.liveInterval e).1 ≤ before.length ∧ (before.length : ℤ) < (s.liveInterval e).2 := by
  have isWritten := period.recorded.write before node after split e isOutput (rate.writes _)
  refine ⟨isWritten.2, ?_⟩
  have split' : s.schedule = (before ++ [node]) ++ after := by simpa using split
  have notInput : (g.edge e).dstOwner ≠ node := fun isInput =>
    noLoop e (isOutput.trans isInput.symm)
  have earlier := period.blocks_of_prefix rate isMax (split ▸ List.prefix_append _ _)
  have pending : counts (before ++ [node]) (g.edge e).dstOwner <
      counts (before ++ [node]) (g.edge e).srcOwner := by
    rw [counts_concat, bump_of_ne _ notInput, isOutput, bump_self]
    rw [isOutput] at earlier
    omega
  have stop := stop_of_pending period noLoop balanced rate split' pending
  rw [List.length_append, List.length_singleton] at stop
  push_cast at stop
  omega

/-- An input of a node is live until the node is executed. -/
theorem stop_of_read (period : SchedulePeriod q s) (rate : g.BlockRate e nb)
    (split : s.schedule = before ++ node :: after) (isInput : (g.edge e).dstOwner = node) :
    (before.length : ℤ) ≤ (s.liveInterval e).2 :=
  period.recorded.read before node after split e isInput (rate.reads _)

end Live

/-! ### Schedules with shared buffers -/

section Computed

variable {nullspace : Nullspace} {score : Score g} {coloring : Coloring g}
  {config : Configuration} {result : Schedule g}

/-- The FIFO works as an array. -/
def Schedule.isArray (result : Schedule g) (e : Fin g.nbEdges) : Bool :=
  (result.fifos.fifo e).isArray

/-- What is used of a computed schedule: its period, and that FIFOs which have the same
storage work as arrays and are an exception for a `Duplicate` when they are live together. -/
structure SharingSchedule (config : Configuration) (result : Schedule g) : Prop where
  noLoop : g.NoLoop
  period : SchedulePeriod result.initN result.state
  balanced : ∀ e, ∑ node, g.topologyMatrix e node * result.initN node = 0
  rate : ∀ e, result.isArray e = true → ∃ nb, g.BlockRate e nb ∧ result.bMax e = nb
  shared : ∀ e o, e ≠ o → result.fifos.storage e = result.fifos.storage o →
    result.isArray e = true ∧ result.isArray o = true
  exception : ∀ (t : ℕ) e o, e ≠ o → result.fifos.storage e = result.fifos.storage o →
    t ≤ result.schedule.length → LiveAt g result.state.liveInterval t e →
    LiveAt g result.state.liveInterval t o →
    g.noExceptionForDuplicate config result.isArray result.state.liveInterval e o = false ∨
      g.noExceptionForDuplicate config result.isArray result.state.liveInterval o e = false

theorem computeSchedule_sharing (noLoop : g.NoLoop)
    (balanced : ∀ e, ∑ node, g.topologyMatrix e node * result.initN node = 0)
    (proper : ProperColoring coloring) (given : g.CustomBuffersGiven)
    (computed : computeSchedule nullspace score coloring config = .ok result) :
    SharingSchedule config result := by
  obtain ⟨-, period, described⟩ := computeSchedule_ok noLoop computed
  have isArray : result.isArray = fun e => g.isArray (toInt32 (result.bMax e)) e := by
    obtain ⟨-, -, -, eq⟩ := initializeFIFODescriptions_ok described
    funext e
    rw [Schedule.isArray, eq]
    rfl
  refine ⟨noLoop, period, balanced, ?_, ?_, ?_⟩
  · intro e eArray
    obtain ⟨nb, rate, -, isMax⟩ := Schedule.blockRate noLoop computed eArray
    exact ⟨nb, rate, isMax⟩
  · intro e o ne same
    obtain ⟨eArray, oArray, -⟩ := storage_shared given proper described ne same
    rw [isArray]
    exact ⟨eArray, oArray⟩
  · intro t e o ne same inTime eLive oLive
    obtain ⟨eArray, oArray, notAdjacent⟩ := storage_shared given proper described ne same
    have related := interferenceGraph_related config
      (fun e => g.isArray (toInt32 (result.bMax e)) e) (fun e => toInt32 (result.bMax e)) inTime
      eArray oArray ne eLive oLive
    rw [isArray]
    exact related.resolve_left notAdjacent

namespace SharingSchedule

variable {before after : List (Fin g.nbNodes)} {node : Fin g.nbNodes} {e o : Fin g.nbEdges}

/-- A `Duplicate` reads its input while the outputs are not yet live, so that it has no
output which was written before. -/
theorem not_output_of_live (sharing : SharingSchedule config result)
    (split : result.schedule = before ++ node :: after) {input : Fin g.nbEdges}
    (duplicate : g.duplicateInput node = some input) (inputArray : result.isArray input = true)
    (apart : (result.state.liveInterval input).2 ≤ (result.state.liveInterval e).1) :
    (before.length : ℤ) ≤ (result.state.liveInterval e).1 := by
  obtain ⟨nb, rate, -⟩ := sharing.rate input inputArray
  have isInput := (g.duplicateInput_iff node input duplicate input).mpr rfl
  exact (stop_of_read sharing.period rate split isInput).trans apart

/-- No execution writes over a block which is still to be read, except a `Duplicate` over
its own input. -/
theorem clobber (sharing : SharingSchedule config result)
    (split : result.schedule = before ++ node :: after) (oArray : result.isArray o = true)
    (eArray : result.isArray e = true) (isOutput : (g.edge o).srcOwner = node)
    (full : g.net.level (counts before) e ≠ 0) (ne : o ≠ e)
    (same : result.fifos.storage o = result.fifos.storage e) :
    g.duplicateInput node = some e := by
  obtain ⟨nb, oRate, oMax⟩ := sharing.rate o oArray
  obtain ⟨nb', eRate, eMax⟩ := sharing.rate e eArray
  have oLive := live_of_written sharing.period sharing.noLoop sharing.balanced oRate oMax split
    isOutput
  have eLive := live_of_full sharing.period sharing.noLoop sharing.balanced eRate eMax split full
  have inTime : before.length ≤ result.schedule.length := by
    rw [split, List.length_append]
    omega
  -- an output of the same `Duplicate` would be live before the `Duplicate` is executed
  have notSibling : ∀ input, g.duplicateInput node = some input →
      result.isArray input = true →
      ¬(result.state.liveInterval input).2 ≤ (result.state.liveInterval e).1 := by
    intro input duplicate inputArray apart
    have later := sharing.not_output_of_live split duplicate inputArray apart
    omega
  rcases sharing.exception before.length o e ne same inTime ⟨oLive.1, oLive.2.le⟩
      ⟨eLive.1.le, eLive.2⟩ with exception | exception
  · rcases noExceptionForDuplicate_eq_false exception with
      ⟨input, duplicate, -, inputArray, -, apart⟩ | ⟨-, apart⟩ | ⟨duplicate, -⟩
    · rw [isOutput] at duplicate
      exact absurd apart (notSibling input duplicate inputArray)
    · omega
    · rwa [isOutput] at duplicate
  · rcases noExceptionForDuplicate_eq_false exception with
      ⟨input, duplicate, sameSrc, inputArray, apart, -⟩ | ⟨duplicate, -⟩ | ⟨-, apart⟩
    · rw [← sameSrc, isOutput] at duplicate
      exact absurd apart (notSibling input duplicate inputArray)
    · rwa [isOutput] at duplicate
    · omega

/-- Only a `Duplicate` writes several outputs to the same storage. -/
theorem siblings (sharing : SharingSchedule config result)
    (split : result.schedule = before ++ node :: after) (oArray : result.isArray o = true)
    (eArray : result.isArray e = true) (oOutput : (g.edge o).srcOwner = node)
    (eOutput : (g.edge e).srcOwner = node) (ne : o ≠ e)
    (same : result.fifos.storage o = result.fifos.storage e) :
    (g.duplicateInput node).isSome := by
  obtain ⟨nb, oRate, oMax⟩ := sharing.rate o oArray
  obtain ⟨nb', eRate, eMax⟩ := sharing.rate e eArray
  have oLive := live_of_written sharing.period sharing.noLoop sharing.balanced oRate oMax split
    oOutput
  have eLive := live_of_written sharing.period sharing.noLoop sharing.balanced eRate eMax split
    eOutput
  have inTime : before.length ≤ result.schedule.length := by
    rw [split, List.length_append]
    omega
  have isDuplicate : ∀ k input, (g.edge k).srcOwner = node →
      g.duplicateInput (g.edge k).srcOwner = some input → (g.duplicateInput node).isSome := by
    intro k input output duplicate
    rw [← output, duplicate]
    rfl
  rcases sharing.exception before.length o e ne same inTime ⟨oLive.1, oLive.2.le⟩
      ⟨eLive.1, eLive.2.le⟩ with exception | exception
  · rcases noExceptionForDuplicate_eq_false exception with
      ⟨input, duplicate, -⟩ | ⟨duplicate, -⟩ | ⟨duplicate, -⟩
    · exact isDuplicate o input oOutput duplicate
    · exact isDuplicate e o eOutput duplicate
    · exact isDuplicate o e oOutput duplicate
  · rcases noExceptionForDuplicate_eq_false exception with
      ⟨input, duplicate, -⟩ | ⟨duplicate, -⟩ | ⟨duplicate, -⟩
    · exact isDuplicate e input eOutput duplicate
    · exact isDuplicate o e oOutput duplicate
    · exact isDuplicate e o eOutput duplicate

/-- After some whole iterations the FIFOs have the samples they have in the first one. -/
theorem level_iterations (sharing : SharingSchedule config result) (cycles : ℕ)
    (early : List (Fin g.nbNodes)) (e : Fin g.nbEdges) :
    g.net.level (counts ((List.replicate cycles result.schedule).flatten ++ early)) e =
      g.net.level (counts early) e := by
  have executed : counts result.schedule = g.repetitions result.initN := sharing.period.executed
  have isBalanced :=
    Graph.balanced_repetitions sharing.noLoop sharing.period.nonneg sharing.balanced
  rw [counts_append, Net.counts_flatten_replicate, add_comm, executed, isBalanced.nsmul cycles]

end SharingSchedule

/-- The run of a schedule with the storages of its FIFOs. -/
def Schedule.runConfig {β : Type v} {σ : Type w} (result : Schedule g)
    (behaviour : NodeBehaviour g β σ)
    (scratch : List (Fin g.nbNodes) → Fin g.nbEdges → ℕ → β) :
    RunConfig g (Storage g) β σ where
  store := result.fifos.storage
  array := result.isArray
  behaviour := behaviour
  scratch := scratch

/-- Each execution in a repeated schedule is safe. -/
theorem SharingSchedule.safeFiring {β : Type v} {σ : Type w}
    (sharing : SharingSchedule config result) (behaviour : NodeBehaviour g β σ)
    (scratch : List (Fin g.nbNodes) → Fin g.nbEdges → ℕ → β) {iterations : ℕ}
    {before : List (Fin g.nbNodes)} {node : Fin g.nbNodes}
    (isPrefix : before ++ [node] <+: (List.replicate iterations result.schedule).flatten) :
    (result.runConfig behaviour scratch).SafeFiring before node := by
  obtain ⟨cycles, early, rfl, earlyPrefix⟩ := Net.firing_of_flatten_replicate isPrefix
  obtain ⟨after, eq⟩ := earlyPrefix
  have split : result.schedule = early ++ node :: after := by simpa using eq.symm
  have blocks : ∀ {e nb}, g.BlockRate e nb → result.bMax e = nb → (g.edge e).dstOwner = node →
      counts early (g.edge e).srcOwner = counts early node + 1 := by
    intro e nb rate isMax isInput
    have notOutput : (g.edge e).srcOwner ≠ node := fun isOutput =>
      sharing.noLoop e (isOutput.trans isInput.symm)
    have first := sharing.period.blocks_of_prefix rate isMax (split ▸ List.prefix_append _ _)
    have second := sharing.period.blocks_of_prefix rate isMax (eq ▸ List.prefix_append _ _)
    rw [counts_concat, isInput, bump_self, bump_of_ne _ notOutput] at second
    rw [isInput] at first
    omega
  refine ⟨?_, ?_, ?_, ?_⟩
  · intro e isArray isInput
    obtain ⟨nb, rate, isMax⟩ := sharing.rate e isArray
    have oneMore := blocks rate isMax isInput
    rw [sharing.level_iterations, ne_eq, rate.level_eq_zero_iff, isInput]
    omega
  · intro e isArray isInput
    obtain ⟨nb, rate, isMax⟩ := sharing.rate e isArray
    have notOutput : (g.edge e).srcOwner ≠ node := fun isOutput =>
      sharing.noLoop e (isOutput.trans isInput.symm)
    rw [List.append_assoc, sharing.level_iterations, rate.level_eq_zero_iff, counts_concat,
      isInput, bump_self, bump_of_ne _ notOutput]
    exact blocks rate isMax isInput
  · intro o e oArray eArray isOutput full ne same
    rw [sharing.level_iterations] at full
    exact sharing.clobber split oArray eArray isOutput full ne same
  · intro o e oArray eArray oOutput eOutput ne same
    exact sharing.siblings split oArray eArray oOutput eOutput ne same

theorem SharingSchedule.safeStorage {β : Type v} {σ : Type w}
    (sharing : SharingSchedule config result) (behaviour : NodeBehaviour g β σ)
    (scratch : List (Fin g.nbNodes) → Fin g.nbEdges → ℕ → β) :
    (result.runConfig behaviour scratch).SafeStorage := by
  refine ⟨?_, sharing.shared⟩
  intro e isArray
  obtain ⟨nb, rate, -⟩ := sharing.rate e isArray
  exact ⟨nb, rate⟩

/-- The state after the construction of the FIFOs, for some content of the buffers. -/
def initialRun (g : Graph) {S β σ : Type*} (memory : S → Memory β)
    (nodes : Fin g.nbNodes → σ) : RunState g S β σ where
  memory := memory
  readPos _ := 0
  writePos e := (g.edge e).bytes * (g.edge e).delay
  nodes := nodes

/-- Memory optimization preserves meaning.  With the storages chosen for the FIFOs, and any
proper colouring, each execution of each iteration of a schedule reads the same bytes as
with a private buffer for each FIFO, and a FIFO whose samples are less than `2 ^ 31` bytes fits
in its storage. -/
theorem computeSchedule_preserves_reads (noLoop : g.NoLoop) (sound : nullspace.Sound)
    (proper : ProperColoring coloring) (given : g.CustomBuffersGiven)
    (computed : computeSchedule nullspace score coloring config = .ok result)
    {β : Type v} {σ : Type w} (behaviour : NodeBehaviour g β σ)
    (scratch scratch' : List (Fin g.nbNodes) → Fin g.nbEdges → ℕ → β)
    (memory : Storage g → Memory β) (nodes : Fin g.nbNodes → σ) (iterations : ℕ) :
    (initialRun g memory nodes).trace (result.runConfig behaviour scratch) []
        (List.replicate iterations result.schedule).flatten =
      (initialRun g (fun e => memory (result.fifos.storage e)) nodes).trace
        ((result.runConfig behaviour scratch).withPrivate scratch') []
        (List.replicate iterations result.schedule).flatten ∧
    ∀ userBytes, (∀ e, (g.edge e).customBuffer.isSome →
        g.bytesNeeded result.bMax e ≤ userBytes (result.fifos.storage e)) →
      ∀ e, g.bytesNeeded result.bMax e < 2 ^ 31 →
        g.bytesNeeded result.bMax e ≤
          result.fifos.bytesOf userBytes (result.fifos.storage e) := by
  obtain ⟨solved, period, described⟩ := computeSchedule_ok noLoop computed
  have sharing := computeSchedule_sharing noLoop (nullVector_balanced (sound _ _ _) solved) proper
    given computed
  refine ⟨?_, ?_⟩
  · have simulates : Simulates (result.runConfig behaviour scratch) []
        (initialRun g memory nodes)
        (initialRun g (fun e => memory (result.fifos.storage e)) nodes) := by
      refine ⟨rfl, rfl, rfl, fun _ _ => rfl, ?_⟩
      intro e nb _ rate full
      simp [rate.level_eq_zero_iff] at full
    exact simulates.trace scratch' noLoop (sharing.safeStorage behaviour scratch) _
      fun early node isPrefix => by simpa using sharing.safeFiring behaviour scratch isPrefix
  · intro userBytes enough e small
    have nonneg : ∀ e, 0 ≤ result.bMax e := period.bMax_nonneg
    have needed : 0 ≤ g.bytesNeeded result.bMax e :=
      mul_nonneg (Int.natCast_nonneg _) (nonneg e)
    have same := bytesNeeded_toInt32 (nonneg e) small
    rw [← same] at small needed ⊢
    exact fits proper described
      (fun o custom => (bytesNeeded_toInt32_le (nonneg o)).trans (enough o custom)) needed small

end Computed

/-! ### Example -/

/-- A source whose output is duplicated for two sinks. -/
def fanOut : Graph where
  nbNodes := 4
  nbEdges := 3
  edge e := match e with
    | 0 => ⟨0, 1, ⟨.int 4, by decide⟩, ⟨.int 4, by decide⟩, 0, 2, none⟩
    | 1 => ⟨1, 2, ⟨.int 4, by decide⟩, ⟨.int 4, by decide⟩, 0, 2, none⟩
    | 2 => ⟨1, 3, ⟨.int 4, by decide⟩, ⟨.int 4, by decide⟩, 0, 2, none⟩
  constantInputs _ := []
  duplicateInput node := if node = 1 then some 0 else none
  duplicateInput_iff := by decide
  duplicateOutput := by decide

instance {g : Graph} (d : ColorDict g) (nodes : List (Fin g.nbEdges)) (edges : Interference g) :
    Decidable (d.Proper nodes edges) :=
  decidable_of_iff ((d.map Prod.fst).Perm nodes ∧ ∀ x ∈ d, ∀ y ∈ d,
      edges.Adjacent x.1 y.1 → x.2 ≠ y.2)
    ⟨fun h => ⟨h.1, fun e color o color' mem mem' => h.2 (e, color) mem (o, color') mem'⟩,
      fun h => ⟨h.nodes, fun x mem y mem' => h.proper x.1 x.2 y.1 y.2 mem mem'⟩⟩

theorem ownColors_proper (g : Graph) : ProperColoring (ownColors g) := by
  intro nodes edges _ irreflexive
  refine ⟨by simp [ownColors, Function.comp_def], ?_⟩
  intro e color o color' mem mem' adjacent same
  simp only [ownColors, List.mem_map, Prod.mk.injEq] at mem mem'
  rcases mem with ⟨_, -, rfl, rfl⟩
  rcases mem' with ⟨_, -, rfl, rfl⟩
  obtain rfl := Fin.ext same
  exact irreflexive _ adjacent

/-- The given colours where they are proper, and otherwise a colour for each FIFO. -/
def tryColors {g : Graph} (d : ColorDict g) : Coloring g := fun nodes edges =>
  if d.Proper nodes edges then d else ownColors g nodes edges

theorem tryColors_proper {g : Graph} (d : ColorDict g) : ProperColoring (tryColors d) := by
  intro nodes edges nodup irreflexive
  unfold tryColors
  split_ifs with isProper
  · exact isProper
  · exact ownColors_proper g nodes edges nodup irreflexive

/-- The three FIFOs around the `Duplicate` share one buffer of eight bytes. -/
theorem fanOut_preserves_reads :
    ∃ result : Schedule fanOut,
      computeSchedule onesNullspace (occupancy fanOut)
        (tryColors [((0 : Fin 3), 0), ((1 : Fin 3), 0), ((2 : Fin 3), 0)])
        ⟨false, true, false⟩ = .ok result ∧
      (∀ e, result.fifos.storage e = .allocated 0) ∧
      (initialRun fanOut (fun _ _ => 0) fun _ => 1).trace
          (result.runConfig (fun _ state _ => (state + 1, fun _ i => state + i))
            fun _ _ _ => 255) [] (List.replicate 2 result.schedule).flatten =
        (initialRun fanOut (fun _ _ => 0) fun _ => 1).trace
          ((result.runConfig (fun _ state _ => (state + 1, fun _ i => state + i))
            fun _ _ _ => 255).withPrivate fun _ _ _ => 0) []
          (List.replicate 2 result.schedule).flatten := by
  have evaluated : (computeSchedule onesNullspace (occupancy fanOut)
      (tryColors [((0 : Fin 3), 0), ((1 : Fin 3), 0), ((2 : Fin 3), 0)])
      ⟨false, true, false⟩).toOption.map
        (fun result => decide (∀ e, result.fifos.storage e = .allocated 0)) = some true := by
    decide +kernel
  obtain ⟨result, computed, oneBuffer⟩ := Option.map_eq_some_iff.mp evaluated
  have ok := toOption_eq_some.mp computed
  have noLoop : fanOut.NoLoop := by
    unfold Graph.NoLoop
    decide
  have given : fanOut.CustomBuffersGiven := by
    have noCustom : ∀ e, (fanOut.edge e).customBuffer = none := by decide
    intro e constraint custom
    simp [noCustom e] at custom
  exact ⟨result, ok, of_decide_eq_true oneBuffer, (computeSchedule_preserves_reads noLoop
    onesNullspace_sound (tryColors_proper _) given ok _ _ _ _ _ 2).1⟩

/-- The delay of a graph does not fit in the buffer of its FIFO, whose length is negative. -/
theorem longDelay_exceeds_buffer :
    longDelay.NoLoop ∧ longDelay.CustomBuffersGiven ∧ ProperColoring (ownColors longDelay) ∧
      ∃ result : Schedule longDelay,
        computeSchedule onesNullspace (occupancy longDelay) (ownColors longDelay)
          ⟨false, true, false⟩ = .ok result ∧
        ∃ userBytes, (∀ e, (longDelay.edge e).customBuffer.isSome →
            longDelay.bytesNeeded result.bMax e ≤ userBytes (result.fifos.storage e)) ∧
          ∃ e, ¬longDelay.bytesNeeded result.bMax e ≤
            result.fifos.bytesOf userBytes (result.fifos.storage e) := by
  have noCustom : ∀ e, (longDelay.edge e).customBuffer = none := by decide
  have evaluated : (computeSchedule onesNullspace (occupancy longDelay) (ownColors longDelay)
      ⟨false, true, false⟩).toOption.map
        (fun result => decide (result.fifos.bytesOf (fun _ => 0)
            (result.fifos.storage (0 : Fin 1)) <
          longDelay.bytesNeeded result.bMax (0 : Fin 1))) = some true := by
    decide +kernel
  obtain ⟨result, computed, exceeds⟩ := Option.map_eq_some_iff.mp evaluated
  refine ⟨sourceSink_noLoop _ _ _, ?_, ownColors_proper _, result,
    toOption_eq_some.mp computed, fun _ => 0, ?_, (0 : Fin 1),
    not_le.mpr (of_decide_eq_true exceeds)⟩
  · intro e constraint custom
    simp [noCustom e] at custom
  · intro e custom
    simp [noCustom e] at custom

end CmsisStream.Scheduler
