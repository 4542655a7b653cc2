import CmsisStream.Scheduler.Interference
import CmsisStream.Scheduler.SinkPriority

/-!
# Live intervals along a schedule

While a schedule is computed, the FIFOs record the time of their first write and
of their last read.  The pass which gives the final schedule is the one which
records, so in the end no write of the schedule comes before the live interval
and no read after it.
-/

namespace CmsisStream.Scheduler

open Dataflow

variable {g : Graph}

/-- After the given executions, an execution of the source writes samples to the FIFO. -/
def Graph.Writes (g : Graph) (before : List (Fin g.nbNodes)) (e : Fin g.nbEdges) : Prop :=
  0 < (g.edge e).src.nbSamples.cycleValue
    (counts before (g.edge e).srcOwner % (g.edge e).src.nbSamples.cyclePeriod)

/-- After the given executions, an execution of the destination reads samples. -/
def Graph.Reads (g : Graph) (before : List (Fin g.nbNodes)) (e : Fin g.nbEdges) : Prop :=
  0 < (g.edge e).dst.nbSamples.cycleValue
    (counts before (g.edge e).dstOwner % (g.edge e).dst.nbSamples.cyclePeriod)

/-- The live intervals contain the writes and reads of the schedule. -/
structure SchedState.LiveRecorded (s : SchedState g) : Prop where
  start : ∀ e, (s.liveInterval e).1 = -1 ∨
    (0 ≤ (s.liveInterval e).1 ∧ (s.liveInterval e).1 < s.schedule.length)
  write : ∀ before node after, s.schedule = before ++ node :: after → ∀ e,
    (g.edge e).srcOwner = node → g.Writes before e →
      0 ≤ (s.liveInterval e).1 ∧ (s.liveInterval e).1 ≤ before.length
  read : ∀ before node after, s.schedule = before ++ node :: after → ∀ e,
    (g.edge e).dstOwner = node → g.Reads before e → before.length ≤ (s.liveInterval e).2

/-- No FIFO was used yet. -/
def SchedState.Unused (s : SchedState g) : Prop :=
  ∀ e, s.liveInterval e = (-1, -1)

theorem SchedState.Unused.liveRecorded {s : SchedState g} (unused : s.Unused)
    (empty : s.schedule = []) : s.LiveRecorded := by
  refine ⟨fun e => Or.inl (by rw [unused e]), ?_, ?_⟩
  · intro before node after split
    simp [empty] at split
  · intro before node after split
    simp [empty] at split

section Record

variable (theTime : ℤ) (interval : Interval)

@[simp]
theorem recordWrite_start :
    (recordWrite theTime interval).1 = if interval.1 = -1 then theTime else interval.1 := by
  unfold recordWrite
  split_ifs <;> rfl

@[simp]
theorem recordWrite_stop : (recordWrite theTime interval).2 = interval.2 := by
  unfold recordWrite
  split_ifs <;> rfl

@[simp]
theorem recordRead_start : (recordRead theTime interval).1 = interval.1 := by
  unfold recordRead
  split_ifs <;> rfl

@[simp]
theorem recordRead_stop : (recordRead theTime interval).2 = max interval.2 theTime := by
  unfold recordRead
  split_ifs with later
  · exact (max_eq_right later.le).symm
  · exact (max_eq_left (not_lt.mp later)).symm

variable {theTime} {vec : Fin g.nbEdges → ℤ} {intervals : Fin g.nbEdges → Interval}
  {e : Fin g.nbEdges}

theorem analyzeStep_start :
    (analyzeStep vec theTime intervals e).1 =
      if 0 < vec e ∧ (intervals e).1 = -1 then theTime else (intervals e).1 := by
  unfold analyzeStep
  by_cases written : 0 < vec e <;> by_cases isRead : vec e < 0 <;> simp [written, isRead]

theorem analyzeStep_stop :
    (analyzeStep vec theTime intervals e).2 =
      if vec e < 0 then max (intervals e).2 theTime else (intervals e).2 := by
  unfold analyzeStep
  by_cases written : 0 < vec e <;> by_cases isRead : vec e < 0 <;> simp [written, isRead]

end Record

/-- A schedule with one more execution ends with it. -/
theorem concat_eq_split {l before after : List (Fin g.nbNodes)} {last node : Fin g.nbNodes}
    (split : l ++ [last] = before ++ node :: after) :
    (after = [] ∧ before = l ∧ node = last) ∨ ∃ after', l = before ++ node :: after' := by
  rcases List.eq_nil_or_concat after with rfl | ⟨after', final, rfl⟩
  · left
    obtain ⟨rfl, eq⟩ := List.append_inj' split rfl
    exact ⟨rfl, rfl, (List.singleton_inj.mp eq).symm⟩
  · right
    rw [List.concat_eq_append, ← List.cons_append, ← List.append_assoc] at split
    exact ⟨after', (List.append_inj' split rfl).1⟩

/-- An execution which is analyzed keeps the live intervals up to date. -/
theorem SchedState.LiveRecorded.execute {q : Fin g.nbNodes → ℤ} {s : SchedState g}
    (noLoop : g.NoLoop) (tracks : s.Tracks q) (recorded : s.LiveRecorded)
    (selected : Fin g.nbNodes) : (s.execute true selected).LiveRecorded := by
  have interval : (s.execute true selected).liveInterval =
      analyzeStep (s.evolutionVectorForNode selected) s.schedule.length s.liveInterval := rfl
  have startLe : ∀ e, (analyzeStep (s.evolutionVectorForNode selected) s.schedule.length
      s.liveInterval e).1 = (s.liveInterval e).1 ∨ (s.liveInterval e).1 = -1 := by
    intro e
    rw [analyzeStep_start]
    split_ifs with written
    · exact Or.inr written.2
    · exact Or.inl rfl
  have stopLe : ∀ e, (s.liveInterval e).2 ≤ (analyzeStep (s.evolutionVectorForNode selected)
      s.schedule.length s.liveInterval e).2 := by
    intro e
    rw [analyzeStep_stop]
    split_ifs
    · exact le_max_left _ _
    · exact le_rfl
  refine ⟨?_, ?_, ?_⟩
  · intro e
    rw [interval, SchedState.execute_schedule, analyzeStep_start, List.length_append,
      List.length_singleton]
    rcases recorded.start e with unset | ⟨low, high⟩
    · split_ifs with written
      · right
        push_cast
        omega
      · exact Or.inl unset
    · rw [if_neg (by omega)]
      right
      push_cast
      omega
  · intro before node after split e isSrc writes
    rw [SchedState.execute_schedule] at split
    rw [interval]
    rcases concat_eq_split split with ⟨-, rfl, rfl⟩ | ⟨after', split'⟩
    · have positive : 0 < s.evolutionVectorForNode node e := by
        rw [SchedState.evolutionVectorForNode, if_pos isSrc, tracks.srcPosition e]
        exact_mod_cast writes
      rw [analyzeStep_start]
      rcases recorded.start e with unset | ⟨low, high⟩
      · rw [if_pos ⟨positive, unset⟩]
        omega
      · rw [if_neg (by omega)]
        omega
    · obtain ⟨low, high⟩ := recorded.write before node after' split' e isSrc writes
      rcases startLe e with same | unset
      · rw [same]
        exact ⟨low, high⟩
      · omega
  · intro before node after split e isDst reads
    rw [SchedState.execute_schedule] at split
    rw [interval]
    rcases concat_eq_split split with ⟨-, rfl, rfl⟩ | ⟨after', split'⟩
    · have negative : s.evolutionVectorForNode node e < 0 := by
        have notSrc : (g.edge e).srcOwner ≠ node := fun isSrc =>
          noLoop e (isSrc.trans isDst.symm)
        rw [SchedState.evolutionVectorForNode, if_neg notSrc, if_pos isDst,
          tracks.dstPosition e]
        have positive : (0 : ℤ) < ((g.edge e).dst.nbSamples.cycleValue
            (counts s.schedule (g.edge e).dstOwner %
              (g.edge e).dst.nbSamples.cyclePeriod) : ℕ) := by exact_mod_cast reads
        exact neg_neg_of_pos positive
      rw [analyzeStep_stop, if_pos negative]
      exact le_max_right _ _
    · exact (recorded.read before node after' split' e isDst reads).trans (stopLe e)

/-- The first pass records the live intervals when there is no second one. -/
theorem greedyLoop_liveRecorded (noLoop : g.NoLoop) {q : Fin g.nbNodes → ℤ} {score : Score g}
    {s : SchedState g} (reached : (greedyLoop score true).Reached (initialState g q) s) :
    s.LiveRecorded := by
  induction reached with
  | init => exact SchedState.Unused.liveRecorded (fun _ => rfl) rfl
  | step reached _ stepsTo ih =>
      obtain ⟨node, -, rfl⟩ := Option.map_eq_some_iff.mp stepsTo
      have next := ih.execute noLoop (greedyLoop_reached noLoop reached).tracks node
      exact ⟨next.start, next.write, next.read⟩

/-- The first pass leaves the live intervals unset for the second one. -/
theorem greedyLoop_unused {q : Fin g.nbNodes → ℤ} {score : Score g} {s : SchedState g}
    (reached : (greedyLoop score false).Reached (initialState g q) s) : s.Unused := by
  apply reached.invariant (P := SchedState.Unused)
  · exact fun _ => rfl
  · intro s next unused stepsTo
    obtain ⟨node, -, rfl⟩ := Option.map_eq_some_iff.mp stepsTo
    exact unused

/-- The second pass records the live intervals. -/
theorem sinkLoop_liveRecorded (noLoop : g.NoLoop) {q : Fin g.nbNodes → ℤ}
    {bMax : Fin g.nbEdges → ℤ} {score : Score g}
    {start s : List (List (Fin g.nbNodes)) × SchedState g} (initial : SinkInvariant q bMax start.2)
    (recorded : start.2.LiveRecorded) (reached : (sinkLoop score bMax).Reached start s) :
    s.2.LiveRecorded := by
  induction reached with
  | init => exact recorded
  | step reached _ stepsTo ih =>
      obtain ⟨⟨node, rotated⟩, -, rfl⟩ := Option.map_eq_some_iff.mp stepsTo
      exact ih.execute noLoop (sinkLoop_reached noLoop initial reached).1.tracks node

end CmsisStream.Scheduler
