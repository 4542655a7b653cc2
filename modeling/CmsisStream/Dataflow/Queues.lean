import Mathlib.Data.List.Basic
import Mathlib.Logic.Function.Basic

/-!
# Nets of queues

The edges of a net are queues of samples.  A firing takes samples from the front
of the queues and adds samples to their back; how much it takes may depend on
how many samples are there, and what it adds only depends on the samples taken.
So a run is a function of the samples which are in the queues at the beginning,
and these are the first samples taken.
-/

namespace Dataflow

universe u v w

variable {Firing : Type u} {Edge : Type v} {α : Type w}

/-- What each firing takes from the queues and adds to them. -/
structure QueueNet (Firing : Type u) (Edge : Type v) (α : Type w) where
  /-- How many samples are taken, given how many are in the queues. -/
  taken : Firing → (Edge → ℕ) → Edge → ℕ
  /-- The samples added, given how many were in the queues and which were taken. -/
  added : Firing → (Edge → ℕ) → (Edge → List α) → Edge → List α

namespace QueueNet

variable (net : QueueNet Firing Edge α)

/-- The samples taken by a firing. -/
def inputs (firing : Firing) (queues : Edge → List α) (e : Edge) : List α :=
  (queues e).take (net.taken firing (fun e => (queues e).length) e)

/-- The queues after a firing. -/
def fire (firing : Firing) (queues : Edge → List α) (e : Edge) : List α :=
  (queues e).drop (net.taken firing (fun e => (queues e).length) e) ++
    net.added firing (fun e => (queues e).length) (net.inputs firing queues) e

/-- The samples taken by each firing of a run. -/
def trace : List Firing → (Edge → List α) → List (Edge → List α)
  | [], _ => []
  | firing :: rest, queues => net.inputs firing queues :: trace rest (net.fire firing queues)

end QueueNet

/-- All the samples taken from an edge in a run. -/
def samplesRead (trace : List (Edge → List α)) (e : Edge) : List α :=
  trace.flatMap fun inputs => inputs e

namespace QueueNet

variable {net : QueueNet Firing Edge α}

/-- The samples taken, and those which are left, are the initial ones and then those which
were added. -/
theorem samplesRead_append (firings : List Firing) (queues : Edge → List α) (e : Edge) :
    ∃ left added, samplesRead (net.trace firings queues) e ++ left = queues e ++ added := by
  induction firings generalizing queues with
  | nil => exact ⟨queues e, [], by simp [trace, samplesRead]⟩
  | cons firing rest ih =>
      rcases ih (net.fire firing queues) with ⟨left, added, eq⟩
      refine ⟨left, net.added firing (fun e => (queues e).length) (net.inputs firing queues) e
        ++ added, ?_⟩
      have first : net.inputs firing queues e ++ net.fire firing queues e =
          queues e ++ net.added firing (fun e => (queues e).length)
            (net.inputs firing queues) e := by
        simp [inputs, fire, ← List.append_assoc]
      calc samplesRead (net.trace (firing :: rest) queues) e ++ left
          = net.inputs firing queues e ++
              (samplesRead (net.trace rest (net.fire firing queues)) e ++ left) := by
            simp [trace, samplesRead]
        _ = net.inputs firing queues e ++ net.fire firing queues e ++ added := by
            rw [eq, List.append_assoc]
        _ = _ := by rw [first, List.append_assoc]

/-- The first samples taken from an edge are those which were in its queue. -/
theorem mem_of_mem_take_samplesRead {firings : List Firing} {queues : Edge → List α} {e : Edge}
    {x : α} (mem : x ∈ (samplesRead (net.trace firings queues) e).take (queues e).length) :
    x ∈ queues e := by
  rcases net.samplesRead_append firings queues e with ⟨left, added, eq⟩
  have early : (samplesRead (net.trace firings queues) e).take (queues e).length <+:
      queues e := by
    have isTaken : (samplesRead (net.trace firings queues) e).take (queues e).length <+:
        queues e ++ added := by
      rw [← eq]
      exact (List.take_prefix _ _).trans (List.prefix_append _ _)
    exact List.prefix_of_prefix_length_le isTaken (List.prefix_append _ _)
      (List.length_take_le _ _)
  exact early.subset mem

end QueueNet

end Dataflow
