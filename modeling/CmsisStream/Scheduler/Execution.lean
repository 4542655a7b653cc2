import CmsisStream.Scheduler.RepetitionVector
import Mathlib.Algebra.Order.Field.Rat

/-!
# Simulated execution of nodes

Both scheduling loops simulate the execution of nodes on a state made of the
number of samples of each FIFO, the remaining cycles of each node, the cycle
positions of IOs and nodes, and the live intervals of the FIFOs.  This file
defines one such execution and relates the state to the firing counts of the
counting net: after any sequence of executions the state is a function of the
number of times each node was executed (`Tracks`).
-/

namespace CmsisStream.Scheduler

/-- The variables of the scheduling loops and the positions kept in IOs and nodes. -/
structure SchedState (g : Graph) where
  /-- Number of samples in each FIFO. -/
  b : Fin g.nbEdges → ℤ
  /-- Cycles each node still has to execute. -/
  n : Fin g.nbNodes → ℤ
  /-- `_cyclePosition` of the source and of the destination IO of each edge. -/
  srcPosition : Fin g.nbEdges → ℕ
  dstPosition : Fin g.nbEdges → ℕ
  /-- `_positionInCycle` of each node. -/
  positionInCycle : Fin g.nbNodes → ℕ
  /-- Maximum FIFO sizes occurring during the run of the first loop. -/
  bMax : Fin g.nbEdges → ℤ
  schedule : List (Fin g.nbNodes)
  /-- `_liveInterval` of each FIFO. -/
  liveInterval : Fin g.nbEdges → ℤ × ℤ

/-- `FIFODesc.recordWrite` -/
def recordWrite (theTime : ℤ) (interval : ℤ × ℤ) : ℤ × ℤ :=
  if interval.1 = -1 then (theTime, interval.2) else interval

/-- `FIFODesc.recordRead` -/
def recordRead (theTime : ℤ) (interval : ℤ × ℤ) : ℤ × ℤ :=
  if interval.2 < theTime then (interval.1, theTime) else interval

/-- `analyzeStep`: FIFOs with a positive change are written, then those with a negative
change are read. -/
def analyzeStep {nbEdges : ℕ} (vec : Fin nbEdges → ℤ) (theTime : ℤ)
    (intervals : Fin nbEdges → ℤ × ℤ) : Fin nbEdges → ℤ × ℤ := fun e =>
  let written := if 0 < vec e then recordWrite theTime (intervals e) else intervals e
  if vec e < 0 then recordRead theTime written else written

namespace SchedState

variable {g : Graph}

/-- `Graph.evolutionVectorForNode`, its result; outputs are written after inputs. -/
def evolutionVectorForNode (s : SchedState g) (node : Fin g.nbNodes) : Fin g.nbEdges → ℤ :=
  fun e =>
    if (g.edge e).srcOwner = node then (g.edge e).src.nbSamples.cycleValue (s.srcPosition e)
    else if (g.edge e).dstOwner = node then
      -((g.edge e).dst.nbSamples.cycleValue (s.dstPosition e) : ℤ)
    else 0

/-- `Graph.evolutionVectorForNode` with `test=False`: the IOs of the node advance. -/
def advanceCycles (s : SchedState g) (node : Fin g.nbNodes) : SchedState g :=
  { s with
    srcPosition := fun e =>
      if (g.edge e).srcOwner = node then
        (g.edge e).src.nbSamples.advanceCycle (s.srcPosition e)
      else s.srcPosition e
    dstPosition := fun e =>
      if (g.edge e).dstOwner = node then
        (g.edge e).dst.nbSamples.advanceCycle (s.dstPosition e)
      else s.dstPosition e }

/-- `BaseNode.executeNode`: the next position, and 1 when a full cycle was executed. -/
def executeNode (s : SchedState g) (node : Fin g.nbNodes) : ℕ × ℤ :=
  if s.positionInCycle node + 1 = g.cyclePeriod node then (0, 1)
  else (s.positionInCycle node + 1, 0)

/-- The FIFO sizes if the node is executed. -/
def newB (s : SchedState g) (node : Fin g.nbNodes) (e : Fin g.nbEdges) : ℤ :=
  s.evolutionVectorForNode node e + s.b e

/-- The end of the body of both loops: the selected node is executed.  The evolution time
is the length of the schedule; the live intervals are only recorded when `analyze` holds. -/
def execute (analyze : Bool) (s : SchedState g) (selected : Fin g.nbNodes) : SchedState g :=
  let advanced := s.advanceCycles selected
  { advanced with
    b := s.newB selected
    positionInCycle := Function.update s.positionInCycle selected (s.executeNode selected).1
    n := Function.update s.n selected (s.n selected - (s.executeNode selected).2)
    schedule := s.schedule ++ [selected]
    liveInterval :=
      if analyze then
        analyzeStep (s.evolutionVectorForNode selected) s.schedule.length s.liveInterval
      else s.liveInterval }

variable (s : SchedState g) (node : Fin g.nbNodes) (analyze : Bool)

@[simp] theorem execute_b : (s.execute analyze node).b = s.newB node := rfl
@[simp] theorem execute_bMax : (s.execute analyze node).bMax = s.bMax := rfl
@[simp] theorem execute_schedule :
    (s.execute analyze node).schedule = s.schedule ++ [node] := rfl

/-- How often the nodes were executed so far. -/
def executed : Fin g.nbNodes → ℕ := Dataflow.counts s.schedule

@[simp] theorem executed_execute :
    (s.execute analyze node).executed = Dataflow.bump s.executed node :=
  Dataflow.counts_concat _ _

/-- The state is determined by the number of executions of each node. -/
structure Tracks (q : Fin g.nbNodes → ℤ) : Prop where
  b : ∀ e, s.b e = g.net.level s.executed e
  n : ∀ i, s.n i = q i - (s.executed i / g.cyclePeriod i : ℕ)
  srcPosition : ∀ e, s.srcPosition e =
    s.executed (g.edge e).srcOwner % (g.edge e).src.nbSamples.cyclePeriod
  dstPosition : ∀ e, s.dstPosition e =
    s.executed (g.edge e).dstOwner % (g.edge e).dst.nbSamples.cyclePeriod
  positionInCycle : ∀ i, s.positionInCycle i = s.executed i % g.cyclePeriod i

variable {s} {q : Fin g.nbNodes → ℤ}

/-- The tested FIFO sizes are the sample counts after one more firing. -/
theorem Tracks.newB (noLoop : g.NoLoop) (tracks : s.Tracks q) (node : Fin g.nbNodes)
    (e : Fin g.nbEdges) :
    s.newB node e = g.net.level (Dataflow.bump s.executed node) e := by
  have ends := noLoop e
  simp only [SchedState.newB, evolutionVectorForNode, tracks.b e, tracks.srcPosition e,
    tracks.dstPosition e, Dataflow.Net.level, Graph.net]
  by_cases isSrc : (g.edge e).srcOwner = node
  · have notDst : (g.edge e).dstOwner ≠ node := fun isDst => ends (isSrc.trans isDst.symm)
    rw [if_pos isSrc, Dataflow.bump_of_ne _ notDst, isSrc, Dataflow.bump_self,
      NbSamples.transferred_succ]
    push_cast
    ring
  · rw [if_neg isSrc, Dataflow.bump_of_ne _ isSrc]
    by_cases isDst : (g.edge e).dstOwner = node
    · rw [if_pos isDst, isDst, Dataflow.bump_self, NbSamples.transferred_succ]
      push_cast
      ring
    · rw [if_neg isDst, Dataflow.bump_of_ne _ isDst]
      ring

/-- `executeNode` gives the next position of the node and whether a cycle was completed. -/
theorem Tracks.executeNode (tracks : s.Tracks q) (node : Fin g.nbNodes) :
    (s.executeNode node).1 = (s.executed node + 1) % g.cyclePeriod node ∧
      (s.executeNode node).2 = ((s.executed node + 1) / g.cyclePeriod node : ℕ) -
        (s.executed node / g.cyclePeriod node : ℕ) := by
  simp only [SchedState.executeNode, tracks.positionInCycle]
  by_cases last : s.executed node % g.cyclePeriod node + 1 = g.cyclePeriod node
  · rw [if_pos last]
    obtain ⟨position, cycles⟩ := Dataflow.succ_mod_div_of_last _ last
    exact ⟨position.symm, by rw [cycles]; push_cast; ring⟩
  · rw [if_neg last]
    obtain ⟨position, cycles⟩ :=
      Dataflow.succ_mod_div_of_not_last _ (Graph.cyclePeriod_pos node) last
    exact ⟨position.symm, by rw [cycles]; ring⟩

/-- One execution keeps the state determined by the counts. -/
theorem Tracks.execute (noLoop : g.NoLoop) (tracks : s.Tracks q) (node : Fin g.nbNodes) :
    (s.execute analyze node).Tracks q := by
  obtain ⟨nextPosition, completed⟩ := tracks.executeNode node
  constructor
  · intro e
    rw [execute_b, tracks.newB noLoop, executed_execute]
  · intro i
    rw [executed_execute]
    by_cases same : i = node
    · subst same
      simp only [SchedState.execute, Function.update_self, completed, tracks.n,
        Dataflow.bump_self]
      ring
    · simp only [SchedState.execute, Function.update_of_ne same, Dataflow.bump_of_ne _ same]
      exact tracks.n i
  · intro e
    rw [executed_execute]
    have period := NbSamples.cyclePeriod_pos (g.edge e).src.positive
    by_cases same : (g.edge e).srcOwner = node
    · subst same
      simp only [SchedState.execute, advanceCycles, if_true, tracks.srcPosition e,
        NbSamples.advanceCycle_mod period, Dataflow.bump_self]
    · simp only [SchedState.execute, advanceCycles, if_neg same, Dataflow.bump_of_ne _ same]
      exact tracks.srcPosition e
  · intro e
    rw [executed_execute]
    have period := NbSamples.cyclePeriod_pos (g.edge e).dst.positive
    by_cases same : (g.edge e).dstOwner = node
    · subst same
      simp only [SchedState.execute, advanceCycles, if_true, tracks.dstPosition e,
        NbSamples.advanceCycle_mod period, Dataflow.bump_self]
    · simp only [SchedState.execute, advanceCycles, if_neg same, Dataflow.bump_of_ne _ same]
      exact tracks.dstPosition e
  · intro i
    rw [executed_execute]
    by_cases same : i = node
    · subst same
      simp only [SchedState.execute, Function.update_self, nextPosition, Dataflow.bump_self]
    · simp only [SchedState.execute, Function.update_of_ne same, Dataflow.bump_of_ne _ same]
      exact tracks.positionInCycle i

end SchedState

end CmsisStream.Scheduler
