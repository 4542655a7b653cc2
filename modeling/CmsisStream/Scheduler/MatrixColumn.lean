import CmsisStream.Scheduler.Graph
import Mathlib.Logic.Function.Iterate

/-!
# Topology matrix and simulated cycles

`topologyMatrix` goes through the edges, and `evolutionVectorForNode` through
the IOs of a node and the edge kept by each of them.  Here the IOs are explicit,
so that an edge may join two IOs of one node, and an input may be the end of
several edges although it only keeps one of them.  The column of a node is what
the simulation of one of its cycles adds to each edge exactly when neither of
these is the case, up to IOs which transfer nothing.
-/

namespace CmsisStream.Scheduler

open Dataflow

/-- The IOs of the nodes and the edges of `_sortedEdges`, after `insertDuplicates`.  The rates
are not empty lists. -/
structure PortGraph where
  nbNodes : ℕ
  nbPorts : ℕ
  nbEdges : ℕ
  owner : Fin nbPorts → Fin nbNodes
  isOutput : Fin nbPorts → Bool
  nbSamples : Fin nbPorts → NbSamples
  src : Fin nbEdges → Fin nbPorts
  dst : Fin nbEdges → Fin nbPorts
  /-- `IO._fifo`; none for an IO connected to a constant node. -/
  fifo : Fin nbPorts → Option (Fin nbEdges)
  period_pos : ∀ io, 0 < (nbSamples io).cyclePeriod
  src_isOutput : ∀ e, isOutput (src e) = true
  dst_isInput : ∀ e, isOutput (dst e) = false
  /-- An output has one edge. -/
  fifo_src : ∀ e, fifo (src e) = some e
  fifo_end : ∀ io e, fifo io = some e → io = src e ∨ io = dst e

namespace PortGraph

variable (g : PortGraph)

def ports (node : Fin g.nbNodes) : List (Fin g.nbPorts) :=
  (List.finRange g.nbPorts).filter fun io => g.owner io = node

def inputs (node : Fin g.nbNodes) : List (Fin g.nbPorts) :=
  (g.ports node).filter fun io => !g.isOutput io

def outputs (node : Fin g.nbNodes) : List (Fin g.nbPorts) :=
  (g.ports node).filter fun io => g.isOutput io

/-- `BaseNode.computeCyclePeriod` -/
def cyclePeriod (node : Fin g.nbNodes) : ℕ :=
  ((g.ports node).map fun io => (g.nbSamples io).cyclePeriod).foldr Nat.lcm 1

/-- `na.cycleTotal * na.owner.cyclePeriod // na.cyclePeriod` -/
def totalOf (io : Fin g.nbPorts) : ℕ :=
  (g.nbSamples io).cycleTotal * g.cyclePeriod (g.owner io) / (g.nbSamples io).cyclePeriod

/-- `Graph.topologyMatrix`; the entry of the destination is written last. -/
def topologyMatrix (e : Fin g.nbEdges) : Fin g.nbNodes → ℤ :=
  Function.update (Function.update (fun _ => 0) (g.owner (g.src e)) (g.totalOf (g.src e) : ℤ))
    (g.owner (g.dst e)) (-(g.totalOf (g.dst e) : ℤ))

/-- The samples of each edge and the positions in the cycles of the IOs. -/
structure CycleState where
  b : Fin g.nbEdges → ℤ
  position : Fin g.nbPorts → ℕ

/-- The entry of the edge kept by an IO; an IO without edge has none. -/
def writeEntry (value : Fin g.nbPorts → ℤ) (v : Fin g.nbEdges → ℤ) (io : Fin g.nbPorts) :
    Fin g.nbEdges → ℤ :=
  match g.fifo io with
  | some e => Function.update v e (value io)
  | none => v

/-- One loop of `evolutionVectorForNode` on the IOs of a node. -/
def writeEntries (value : Fin g.nbPorts → ℤ) (ios : List (Fin g.nbPorts))
    (v : Fin g.nbEdges → ℤ) : Fin g.nbEdges → ℤ :=
  ios.foldl (g.writeEntry value) v

/-- `Graph.evolutionVectorForNode`, its result. -/
def evolutionVectorForNode (position : Fin g.nbPorts → ℕ) (node : Fin g.nbNodes) :
    Fin g.nbEdges → ℤ :=
  g.writeEntries (fun io => (g.nbSamples io).cycleValue (position io)) (g.outputs node)
    (g.writeEntries (fun io => -((g.nbSamples io).cycleValue (position io) : ℤ)) (g.inputs node)
      fun _ => 0)

/-- The positions after `evolutionVectorForNode` with `test=False`. -/
def advanceCycles (position : Fin g.nbPorts → ℕ) (node : Fin g.nbNodes) : Fin g.nbPorts → ℕ :=
  fun io => if g.owner io = node ∧ (g.fifo io).isSome then
    (g.nbSamples io).advanceCycle (position io) else position io

/-- A node is fired. -/
def fire (node : Fin g.nbNodes) (s : g.CycleState) : g.CycleState where
  b e := g.evolutionVectorForNode s.position node e + s.b e
  position := g.advanceCycles s.position node

variable {g} {node : Fin g.nbNodes} {e : Fin g.nbEdges}

/-- The entry written for an edge, when at most one of the IOs keeps it. -/
theorem writeEntries_apply (value : Fin g.nbPorts → ℤ) {ios : List (Fin g.nbPorts)}
    {io : Fin g.nbPorts} (unique : ∀ other ∈ ios, g.fifo other = some e → other = io)
    (v : Fin g.nbEdges → ℤ) :
    g.writeEntries value ios v e = if io ∈ ios ∧ g.fifo io = some e then value io else v e := by
  induction ios generalizing v with
  | nil => simp [writeEntries]
  | cons first ios ih =>
      have later := ih (fun other mem => unique other (List.mem_cons_of_mem _ mem))
      have step : g.writeEntries value (first :: ios) v =
          g.writeEntries value ios (g.writeEntry value v first) := rfl
      rw [step, later]
      by_cases kept : g.fifo first = some e
      · obtain rfl := unique first List.mem_cons_self kept
        simp [writeEntry, kept]
      · have unchanged : g.writeEntry value v first e = v e := by
          cases isKept : g.fifo first with
          | none => simp only [writeEntry, isKept]
          | some o =>
              have different : e ≠ o := fun same => kept (same ▸ isKept)
              simp only [writeEntry, isKept, Function.update_of_ne different]
        rw [unchanged]
        by_cases same : io = first
        · subst same
          simp [kept]
        · simp [same]

theorem mem_inputs {io : Fin g.nbPorts} :
    io ∈ g.inputs node ↔ g.owner io = node ∧ g.isOutput io = false := by
  simp [inputs, ports, and_comm]

theorem mem_outputs {io : Fin g.nbPorts} :
    io ∈ g.outputs node ↔ g.owner io = node ∧ g.isOutput io = true := by
  simp [outputs, ports, and_comm]

/-- What a firing adds to an edge: the outputs are written last. -/
theorem evolutionVectorForNode_apply (position : Fin g.nbPorts → ℕ) :
    g.evolutionVectorForNode position node e =
      if g.owner (g.src e) = node then
        ((g.nbSamples (g.src e)).cycleValue (position (g.src e)) : ℤ)
      else if g.owner (g.dst e) = node ∧ g.fifo (g.dst e) = some e then
        -((g.nbSamples (g.dst e)).cycleValue (position (g.dst e)) : ℤ)
      else 0 := by
  have isSrc : ∀ other ∈ g.outputs node, g.fifo other = some e → other = g.src e := by
    intro other mem kept
    rcases g.fifo_end other e kept with same | same
    · exact same
    · have isOutput := (mem_outputs.mp mem).2
      rw [same, g.dst_isInput] at isOutput
      exact absurd isOutput Bool.false_ne_true
  have isDst : ∀ other ∈ g.inputs node, g.fifo other = some e → other = g.dst e := by
    intro other mem kept
    rcases g.fifo_end other e kept with same | same
    · have isInput := (mem_inputs.mp mem).2
      rw [same, g.src_isOutput] at isInput
      exact absurd isInput.symm Bool.false_ne_true
    · exact same
  rw [evolutionVectorForNode, writeEntries_apply _ isSrc, writeEntries_apply _ isDst]
  simp only [mem_outputs, mem_inputs, g.src_isOutput, g.dst_isInput, g.fifo_src, and_true]

/-! ### A full cycle -/

theorem cyclePeriod_dvd (io : Fin g.nbPorts) :
    (g.nbSamples io).cyclePeriod ∣ g.cyclePeriod (g.owner io) := by
  apply Graph.dvd_foldr_lcm
  exact List.mem_map.mpr ⟨io, by simp [ports], rfl⟩

theorem cyclePeriod_pos (node : Fin g.nbNodes) : 0 < g.cyclePeriod node := by
  apply Graph.foldr_lcm_pos
  intro period mem
  rcases List.mem_map.mp mem with ⟨io, -, rfl⟩
  exact g.period_pos io

theorem topologyMatrix_apply (e : Fin g.nbEdges) (node : Fin g.nbNodes) :
    g.topologyMatrix e node =
      if g.owner (g.dst e) = node then -(g.totalOf (g.dst e) : ℤ)
      else if g.owner (g.src e) = node then (g.totalOf (g.src e) : ℤ)
      else 0 := by
  simp only [topologyMatrix, Function.update_apply, eq_comm (a := node)]

end PortGraph

end CmsisStream.Scheduler
