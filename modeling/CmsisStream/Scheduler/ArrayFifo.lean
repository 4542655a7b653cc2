import CmsisStream.Platform.Fifo
import CmsisStream.Scheduler.Schedule

/-!
# FIFOs working as arrays

A FIFO is flagged `isArray` from its rates, its delay and its length.  The
schedule keeps the samples of the FIFO between zero and one block, so that the
block is always read before the next one is written.  On such accesses the array
specialization of the C++ FIFO reads the same samples as the general one.
-/

namespace CmsisStream.Scheduler

open Dataflow Platform

universe u

variable {g : Graph}

namespace Graph

variable (g) {α : Type u} (e : Fin g.nbEdges)

/-- The accesses to a FIFO by an execution of a node after the given ones.  The `k`-th
execution of the source writes the samples `samples k`. -/
def access (samples : ℕ → ℕ → α) (before : List (Fin g.nbNodes)) (node : Fin g.nbNodes) :
    List (Access α) :=
  if (g.edge e).srcOwner = node then
    let k := counts before node
    let nb := (g.edge e).src.nbSamples.cycleValue (k % (g.edge e).src.nbSamples.cyclePeriod)
    [.write ((List.range nb).map (samples k))]
  else if (g.edge e).dstOwner = node then
    let k := counts before node
    [.read ((g.edge e).dst.nbSamples.cycleValue (k % (g.edge e).dst.nbSamples.cyclePeriod))]
  else []

/-- The accesses to a FIFO along a schedule, after the given executions. -/
def accesses (samples : ℕ → ℕ → α) :
    List (Fin g.nbNodes) → List (Fin g.nbNodes) → List (Access α)
  | _, [] => []
  | before, node :: rest =>
      g.access e samples before node ++ accesses samples (before ++ [node]) rest

theorem accesses_append (samples : ℕ → ℕ → α) (before first second : List (Fin g.nbNodes)) :
    g.accesses e samples before (first ++ second) =
      g.accesses e samples before first ++ g.accesses e samples (before ++ first) second := by
  induction first generalizing before with
  | nil => simp [accesses]
  | cons node first ih => simp [accesses, ih, List.append_assoc]

end Graph

/-- A FIFO working as an array: both ends transfer its whole length and there is no
delay. -/
structure Graph.BlockRate (g : Graph) (e : Fin g.nbEdges) (nb : ℕ) : Prop where
  positive : 0 < nb
  period : (g.edge e).src.nbSamples.cyclePeriod = 1 ∧ (g.edge e).dst.nbSamples.cyclePeriod = 1
  value : (g.edge e).src.nbSamples.cycleValue 0 = nb ∧
    (g.edge e).dst.nbSamples.cycleValue 0 = nb
  delay : (g.edge e).delay = 0

/-- The rates of a FIFO flagged `isArray`. -/
theorem Graph.blockRate_of_isArray {length : ℤ} {e : Fin g.nbEdges}
    (isArray : g.isArray length e = true) : ∃ nb : ℕ, length = nb ∧ g.BlockRate e nb := by
  simp only [Graph.isArray, Bool.and_eq_true, decide_eq_true_eq] at isArray
  obtain ⟨⟨sameRate, eqLength⟩, delay⟩ := isArray
  have positive := (g.edge e).src.positive
  cases rate : (g.edge e).src.nbSamples with
  | int nb =>
      rw [rate] at sameRate eqLength positive
      simp only [NbSamples.eqLength, decide_eq_true_eq] at eqLength
      refine ⟨nb, eqLength.symm, positive, ?_, ?_, delay⟩
      · rw [rate, ← sameRate]
        exact ⟨rfl, rfl⟩
      · rw [rate, ← sameRate]
        exact ⟨rfl, rfl⟩
  | list l =>
      rw [rate] at sameRate eqLength positive
      simp only [NbSamples.eqLength, decide_eq_true_eq] at eqLength
      obtain ⟨nb, rfl⟩ : ∃ nb, l = [nb] := by
        apply List.length_eq_one_iff.mp
        simpa using congrArg List.length eqLength
      refine ⟨nb, by simpa using eqLength.symm, by simpa [NbSamples.cycleTotal] using positive,
        ?_, ?_, delay⟩
      · rw [rate, ← sameRate]
        exact ⟨rfl, rfl⟩
      · rw [rate, ← sameRate]
        exact ⟨rfl, rfl⟩

namespace Graph.BlockRate

variable {e : Fin g.nbEdges} {nb : ℕ}

theorem transferred (rate : g.BlockRate e nb) (k : ℕ) :
    (g.edge e).src.nbSamples.transferred k = k * nb ∧
      (g.edge e).dst.nbSamples.transferred k = k * nb := by
  constructor <;> induction k with
  | zero => simp [NbSamples.transferred]
  | succ k ih =>
      rw [NbSamples.transferred_succ, ih, Nat.succ_mul]
      simp only [rate.period, Nat.mod_one, rate.value]

/-- The samples in the FIFO are the blocks written and not yet read. -/
theorem level (rate : g.BlockRate e nb) (x : Fin g.nbNodes → ℕ) :
    g.net.level x e = (x (g.edge e).srcOwner - x (g.edge e).dstOwner : ℤ) * nb := by
  simp only [Net.level, Graph.net, rate.delay, rate.transferred]
  push_cast
  ring

/-- Between zero and one block is in the FIFO. -/
theorem blocks_of_within (rate : g.BlockRate e nb) {x : Fin g.nbNodes → ℕ}
    (low : 0 ≤ g.net.level x e) (high : g.net.level x e ≤ nb) :
    x (g.edge e).srcOwner = x (g.edge e).dstOwner ∨
      x (g.edge e).srcOwner = x (g.edge e).dstOwner + 1 := by
  have positive : (0 : ℤ) < nb := by exact_mod_cast rate.positive
  rw [rate.level] at low high
  have atLeast : (0 : ℤ) ≤ x (g.edge e).srcOwner - x (g.edge e).dstOwner :=
    nonneg_of_mul_nonneg_left low positive
  have atMost : (x (g.edge e).srcOwner - x (g.edge e).dstOwner : ℤ) ≤ 1 := by
    by_contra more
    have twice : (2 : ℤ) * nb ≤ (x (g.edge e).srcOwner - x (g.edge e).dstOwner) * nb :=
      Int.mul_le_mul_of_nonneg_right (by omega) positive.le
    omega
  omega

variable {α : Type u} (samples : ℕ → ℕ → α)

/-- The block written by the `k`-th execution of the source. -/
def block (nb : ℕ) (samples : ℕ → ℕ → α) (k : ℕ) : List α :=
  (List.range nb).map (samples k)

/-- Along an admissible schedule, each block is read before the next one is written. -/
theorem accesses_alternating (rate : g.BlockRate e nb) (noLoop : g.NoLoop)
    (firings : List (Fin g.nbNodes))
    (within : ∀ before, before <+: firings →
      0 ≤ g.net.level (counts before) e ∧ g.net.level (counts before) e ≤ nb) :
    g.accesses e samples [] firings =
      alternating ((List.range (counts firings (g.edge e).dstOwner)).map (block nb samples)) ++
        if counts firings (g.edge e).srcOwner = counts firings (g.edge e).dstOwner then []
        else [.write (block nb samples (counts firings (g.edge e).dstOwner))] := by
  induction firings using List.reverseRecOn with
  | nil => simp [Graph.accesses, alternating]
  | append_singleton firings node ih =>
      have earlier := ih fun before isPrefix =>
        within before (isPrefix.trans (List.prefix_append _ _))
      obtain ⟨low, high⟩ := within firings (List.prefix_append _ _)
      obtain ⟨low', high'⟩ := within (firings ++ [node]) List.prefix_rfl
      have blocks := rate.blocks_of_within low high
      have blocks' := rate.blocks_of_within low' high'
      rw [Graph.accesses_append, earlier, List.nil_append, Graph.accesses, Graph.accesses,
        List.append_nil]
      rw [counts_concat] at blocks' ⊢
      unfold Graph.access
      by_cases isSrc : (g.edge e).srcOwner = node
      · -- the block written before has been read, and a new one is written
        have notDst : (g.edge e).dstOwner ≠ node := fun isDst =>
          noLoop e (isSrc.trans isDst.symm)
        rw [isSrc] at blocks blocks' ⊢
        rw [bump_self, bump_of_ne _ notDst] at blocks'
        rw [if_pos rfl, bump_self, bump_of_ne _ notDst]
        have same : counts firings node = counts firings (g.edge e).dstOwner := by omega
        rw [if_pos same, if_neg (by omega)]
        simp only [rate.period, Nat.mod_one, rate.value, same, List.append_nil]
        rfl
      · rw [if_neg isSrc, bump_of_ne _ isSrc]
        by_cases isDst : (g.edge e).dstOwner = node
        · -- the block in the FIFO is read
          rw [isDst] at blocks blocks' ⊢
          rw [bump_self, bump_of_ne _ isSrc] at blocks'
          rw [if_pos rfl, bump_self]
          have one : counts firings (g.edge e).srcOwner = counts firings node + 1 := by omega
          rw [if_neg (by omega), if_pos one, List.range_succ, List.map_append]
          simp only [rate.period, Nat.mod_one, rate.value, List.map_cons, List.map_nil,
            alternating, List.flatMap_append, List.flatMap_cons, List.flatMap_nil,
            List.append_nil, List.append_assoc, List.cons_append, List.nil_append, block,
            List.length_map, List.length_range]
        · rw [if_neg isDst, bump_of_ne _ isDst, List.append_nil]

end Graph.BlockRate

/-- An access without its samples. -/
inductive AccessSize where
  | write (nb : ℕ)
  | read (nb : ℕ)
deriving DecidableEq, Repr

/-- The size of an access. -/
def accessSize {α : Type u} : Access α → AccessSize
  | .write block => .write block.length
  | .read nb => .read nb

theorem map_accessSize_alternating {α : Type u} {nb : ℕ} {blocks : List (List α)}
    (sizes : ∀ block ∈ blocks, block.length = nb) :
    (alternating blocks).map accessSize =
      (List.replicate blocks.length [.write nb, .read nb]).flatten := by
  induction blocks with
  | nil => rfl
  | cons block blocks ih =>
      have rest := ih fun other mem => sizes other (List.mem_cons_of_mem _ mem)
      have size := sizes block List.mem_cons_self
      simp only [alternating, List.flatMap_cons, List.map_append, List.map_cons, List.map_nil,
        accessSize, size, List.length_cons, List.replicate_succ, List.flatten_cons] at rest ⊢
      rw [rest]

theorem eq_of_toInt32 {x : ℤ} {nb : ℕ} (eq : toInt32 x = nb) : x = nb := by
  unfold toInt32 at eq
  split_ifs at eq <;> omega

/-- In a schedule, a FIFO flagged `isArray` transfers blocks of its length, and never has
more than one. -/
theorem Schedule.blockRate (noLoop : g.NoLoop) {nullspace : Nullspace} {score : Score g}
    {coloring : Coloring g} {config : Configuration} {result : Schedule g}
    (computed : computeSchedule nullspace score coloring config = .ok result)
    {e : Fin g.nbEdges} (isArray : (result.fifos.fifo e).isArray = true) :
    ∃ nb : ℕ, g.BlockRate e nb ∧ result.fifoLength e = nb ∧ result.bMax e = nb := by
  obtain ⟨-, -, described⟩ := computeSchedule_ok noLoop computed
  have length := Schedule.fifoLength_eq described e
  obtain ⟨-, -, -, eq⟩ := initializeFIFODescriptions_ok described
  rw [eq] at isArray
  obtain ⟨nb, isLength, rate⟩ := Graph.blockRate_of_isArray isArray
  exact ⟨nb, rate, length.trans isLength, eq_of_toInt32 isLength⟩

/-- Array FIFOs refine queues.  Along any number of iterations of a schedule, a FIFO flagged
`isArray` is written and read in turn, by blocks of its length, starting with a write; and
the array specialization gives the nodes the same samples as the general FIFO. -/
theorem arrayFIFO_refines_syncFIFO (noLoop : g.NoLoop) {nullspace : Nullspace}
    (sound : nullspace.Sound) {score : Score g} {coloring : Coloring g}
    {config : Configuration} {result : Schedule g}
    (computed : computeSchedule nullspace score coloring config = .ok result)
    {e : Fin g.nbEdges} (isArray : (result.fifos.fifo e).isArray = true) (iterations : ℕ)
    {α : Type u} (samples : ℕ → ℕ → α) (queue array : Memory α) :
    let accesses := g.accesses e samples [] (List.replicate iterations result.schedule).flatten
    (∃ nb rounds : ℕ, result.fifoLength e = nb ∧
      accesses.map accessSize = (List.replicate rounds [.write nb, .read nb]).flatten) ∧
    (ArrayFIFO.mk array).reads accesses = (SyncFIFO.mk' queue 0).reads accesses := by
  intro accesses
  obtain ⟨nb, rate, isLength, isMax⟩ := Schedule.blockRate noLoop computed isArray
  obtain ⟨solved, period, -⟩ := computeSchedule_ok noLoop computed
  have balanced := nullVector_balanced (sound _ _ _) solved
  have within : ∀ before, before <+: (List.replicate iterations result.schedule).flatten →
      0 ≤ g.net.level (counts before) e ∧ g.net.level (counts before) e ≤ nb := by
    intro before isPrefix
    obtain ⟨low, high⟩ := period.repeats noLoop balanced iterations before isPrefix e
    exact ⟨low, isMax ▸ WithTop.coe_le_coe.mp high⟩
  have allRead := period.level_after noLoop balanced iterations e
  have positive : (nb : ℤ) ≠ 0 := by exact_mod_cast rate.positive.ne'
  rw [rate.level, rate.delay, Nat.cast_zero, mul_eq_zero, or_iff_left positive] at allRead
  have pattern := rate.accesses_alternating samples noLoop _ within
  rw [if_pos (by exact_mod_cast sub_eq_zero.mp allRead), List.append_nil] at pattern
  have sizes : ∀ rounds, ∀ block ∈ (List.range rounds).map (Graph.BlockRate.block nb samples),
      block.length = nb := by
    intro rounds block mem
    obtain ⟨k, -, rfl⟩ := List.mem_map.mp mem
    simp [Graph.BlockRate.block]
  have eqAccesses : accesses = _ := pattern
  refine ⟨⟨nb, counts (List.replicate iterations result.schedule).flatten
    (g.edge e).dstOwner, isLength, ?_⟩, ?_⟩
  · rw [eqAccesses, map_accessSize_alternating (sizes _), List.length_map, List.length_range]
  · rw [eqAccesses, ArrayFIFO.reads_alternating,
      SyncFIFO.reads_alternating _ (le_refl (0 : ℤ)) rfl]

/-- A source and a sink of the same rate. -/
def blockSourceSink : Graph :=
  sourceSink ⟨.list [4], by decide⟩ ⟨.list [4], by decide⟩ 0

theorem blockSourceSink_arrayFIFO :
    ∃ result : Schedule blockSourceSink,
      computeSchedule onesNullspace (occupancy blockSourceSink) (ownColors blockSourceSink)
        ⟨false, true, false⟩ = .ok result ∧
      let accesses := blockSourceSink.accesses (0 : Fin 1) (fun k i => (10 * k + i : ℤ)) []
        (List.replicate 3 result.schedule).flatten
      (ArrayFIFO.mk fun _ => 7).reads accesses = (SyncFIFO.mk' (fun _ => 0) 0).reads accesses := by
  have evaluated : (computeSchedule onesNullspace (occupancy blockSourceSink)
      (ownColors blockSourceSink) ⟨false, true, false⟩).toOption.map
        (fun result => (result.fifos.fifo (0 : Fin 1)).isArray) = some true := by
    decide +kernel
  obtain ⟨result, computed, isArray⟩ := Option.map_eq_some_iff.mp evaluated
  have ok := toOption_eq_some.mp computed
  exact ⟨result, ok, (arrayFIFO_refines_syncFIFO (sourceSink_noLoop _ _ _) onesNullspace_sound ok
    isArray 3 _ _ _).2⟩

end CmsisStream.Scheduler
