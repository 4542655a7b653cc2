import CmsisStream.Scheduler.Execution
import Mathlib.Data.List.Nodup

/-!
# Array FIFOs and the interference graph

`initializeFIFODescriptions` decides which FIFOs work as arrays and, when memory
optimizations are enabled, builds a graph telling which of these FIFOs may not
share a buffer: FIFOs whose buffers are constrained by the user, and FIFOs whose
live intervals meet.  The FIFOs of a `Duplicate` node are an exception to the
second rule.
-/

namespace CmsisStream.Scheduler

/-- The fields of `Configuration` used by the synchronous scheduler. -/
structure Configuration where
  sinkPriority : Bool
  memoryOptimization : Bool
  disableDuplicateOptimization : Bool
deriving DecidableEq, Repr

/-- The product of a Python integer and an `np.int32`, which is an `np.int32`. -/
def wrapInt32 (x : ℤ) : ℤ := x.bmod (2 ^ 32)

theorem wrapInt32_of_fits {x : ℤ} (nonneg : 0 ≤ x) (fits : x < 2 ^ 31) : wrapInt32 x = x :=
  Int.bmod_eq_of_le (by omega) (by omega)

theorem wrapInt32_le {x : ℤ} (nonneg : 0 ≤ x) : wrapInt32 x ≤ x := by
  unfold wrapInt32 Int.bmod
  simp only
  split_ifs <;> omega

/-- A live interval; `(-1, -1)` when the FIFO is never used. -/
abbrev Interval := ℤ × ℤ

namespace NbSamples

/-- Whether `nbSamples == length` for an integer length; only meaningful for an integer and
for a list of one element. -/
def eqLength : NbSamples → ℤ → Bool
  | .int n, length => n = length
  | .list l, length => l.map Nat.cast = [length]

/-- Comparing a list of several elements with a length gives several truth values. -/
def ambiguous : NbSamples → Bool
  | .int _ => false
  | .list l => 1 < l.length

end NbSamples

namespace Graph

variable (g : Graph)

/-- The test for `fifo.isArray` raises `ValueError`. -/
def ambiguousFIFO (e : Fin g.nbEdges) : Bool :=
  (g.edge e).src.nbSamples = (g.edge e).dst.nbSamples && (g.edge e).src.nbSamples.ambiguous

/-- `fifo.isArray` for the computed FIFO length. -/
def isArray (length : ℤ) (e : Fin g.nbEdges) : Bool :=
  (g.edge e).src.nbSamples = (g.edge e).dst.nbSamples &&
    (g.edge e).src.nbSamples.eqLength length && (g.edge e).delay = 0

/-- The node is a `Duplicate`. -/
def isDuplicate (node : Fin g.nbNodes) : Bool := (g.duplicateInput node).isSome

/-- The input of the duplicate node of which both FIFOs are outputs. -/
def commonDuplicateInput (k f : Fin g.nbEdges) : Option (Fin g.nbEdges) :=
  if (g.edge k).srcOwner = (g.edge f).srcOwner then g.duplicateInput (g.edge k).srcOwner
  else none

/-- `Graph.no_exception_for_duplicate` -/
def noExceptionForDuplicate (config : Configuration) (array : Fin g.nbEdges → Bool)
    (live : Fin g.nbEdges → Interval) (k f : Fin g.nbEdges) : Bool :=
  if config.disableDuplicateOptimization || !array k || !array f then true
  else match g.commonDuplicateInput k f with
    | some input => !(array input && (live input).2 ≤ (live k).1 && (live input).2 ≤ (live f).1)
    | none =>
        if (g.edge k).dstOwner = (g.edge f).srcOwner && g.isDuplicate (g.edge k).dstOwner then
          !decide ((live k).2 ≤ (live f).1)
        else if (g.edge k).srcOwner = (g.edge f).dstOwner && g.isDuplicate (g.edge f).dstOwner then
          !decide ((live f).2 ≤ (live k).1)
        else true

/-- The bytes of a number of samples of each FIFO. -/
def bytesNeeded (samples : Fin g.nbEdges → ℤ) (e : Fin g.nbEdges) : ℤ :=
  (g.edge e).bytes * samples e

/-- `lengthInBytes`, as it is computed from the length of a FIFO. -/
def lengthInBytes (lengths : Fin g.nbEdges → ℤ) (e : Fin g.nbEdges) : ℤ :=
  wrapInt32 (g.bytesNeeded lengths e)

/-- The condition for an interference due to the buffer constraint of the first FIFO. -/
def customConflict (lengths : Fin g.nbEdges → ℤ) (constraint : BufferConstraint)
    (fifo other : Fin g.nbEdges) : Bool :=
  constraint.assignedByNode || !constraint.canBeShared ||
    g.lengthInBytes lengths fifo ≠ g.lengthInBytes lengths other ||
    match (g.edge other).customBuffer with
    | some otherConstraint => constraint ≠ otherConstraint
    | none => false

end Graph

/-- The edges of the interference graph. -/
abbrev Interference (g : Graph) := List (Fin g.nbEdges × Fin g.nbEdges)

namespace Interference

variable {g : Graph}

/-- `G.has_edge` -/
def Adjacent (edges : Interference g) (e o : Fin g.nbEdges) : Prop :=
  (e, o) ∈ edges ∨ (o, e) ∈ edges

instance (edges : Interference g) (e o : Fin g.nbEdges) : Decidable (edges.Adjacent e o) :=
  inferInstanceAs (Decidable (_ ∨ _))

/-- `G.add_edge`, after the test that there is no such edge yet. -/
def addEdge (edges : Interference g) (e o : Fin g.nbEdges) : Interference g :=
  if edges.Adjacent e o then edges else (e, o) :: edges

theorem Adjacent.symm {edges : Interference g} {e o : Fin g.nbEdges}
    (adjacent : edges.Adjacent e o) : edges.Adjacent o e :=
  Or.symm adjacent

theorem adjacent_addEdge (edges : Interference g) (e o : Fin g.nbEdges) :
    (edges.addEdge e o).Adjacent e o := by
  unfold addEdge
  split_ifs with already
  · exact already
  · exact Or.inl (by simp)

theorem Adjacent.addEdge {edges : Interference g} {e o : Fin g.nbEdges}
    (adjacent : edges.Adjacent e o) (k f : Fin g.nbEdges) : (edges.addEdge k f).Adjacent e o := by
  unfold Interference.addEdge
  split_ifs with already
  · exact adjacent
  · exact adjacent.imp (List.mem_cons_of_mem _) (List.mem_cons_of_mem _)

end Interference

section Custom

variable (g : Graph) (array : Fin g.nbEdges → Bool) (lengths : Fin g.nbEdges → ℤ)

/-- The interferences of a FIFO due to its own buffer constraint. -/
def customEdgesOf (edges : Interference g) (fifo : Fin g.nbEdges) : Interference g :=
  match (g.edge fifo).customBuffer with
  | none => edges
  | some constraint =>
      if array fifo then
        (List.finRange g.nbEdges).foldl (fun edges other =>
          if other ≠ fifo && array other && g.customConflict lengths constraint fifo other then
            edges.addEdge fifo other
          else edges) edges
      else edges

/-- The interferences due to buffer constraints. -/
def customEdges : Interference g :=
  (List.finRange g.nbEdges).foldl (customEdgesOf g array lengths) []

end Custom

section Scheduling

variable (g : Graph) (config : Configuration) (array : Fin g.nbEdges → Bool)
  (live : Fin g.nbEdges → Interval)

/-- The interference graph and the active FIFOs during the scan of the schedule. -/
abbrev ScanState := Interference g × List (Fin g.nbEdges)

/-- A FIFO becoming active interferes with the FIFOs already active. -/
def activate (s : ScanState g) (fifo : Fin g.nbEdges) : ScanState g :=
  (s.2.foldl (fun edges k =>
    if g.noExceptionForDuplicate config array live k fifo then edges.addEdge k fifo else edges)
    s.1, s.2 ++ [fifo])

/-- The FIFO is in use at the given time. -/
def LiveAt (currentTime : ℤ) (fifo : Fin g.nbEdges) : Prop :=
  (live fifo).1 ≤ currentTime ∧ currentTime ≤ (live fifo).2

instance (currentTime : ℤ) (fifo : Fin g.nbEdges) : Decidable (LiveAt g live currentTime fifo) :=
  inferInstanceAs (Decidable (_ ∧ _))

/-- The test of one FIFO at one time of the scan. -/
def scanFIFO (currentTime : ℤ) (s : ScanState g) (fifo : Fin g.nbEdges) : ScanState g :=
  if array fifo && LiveAt g live currentTime fifo && fifo ∉ s.2 then
    activate g config array live s fifo
  else s

/-- One time of the scan. -/
def scanTime (s : ScanState g) (currentTime : ℕ) : ScanState g :=
  (List.finRange g.nbEdges).foldl (scanFIFO g config array live currentTime)
    (s.1, s.2.filter fun k => ¬(live k).2 < (currentTime : ℤ))

/-- The interference graph: the constraints on buffers, then the times of the schedule. -/
def interferenceGraph (lengths : Fin g.nbEdges → ℤ) (maxTime : ℕ) : Interference g :=
  ((List.range (maxTime + 1)).foldl (scanTime g config array live)
    (customEdges g array lengths, [])).1

end Scheduling

/-! ### What the interference graph contains -/

section

variable {g : Graph} {config : Configuration} {array : Fin g.nbEdges → Bool}
  {live : Fin g.nbEdges → Interval} {lengths : Fin g.nbEdges → ℤ}

/-- Every adjacency of the first graph is one of the second graph. -/
def Interference.Le (first second : Interference g) : Prop :=
  ∀ e o, first.Adjacent e o → second.Adjacent e o

theorem Interference.Le.trans {first second third : Interference g} (le : first.Le second)
    (le' : second.Le third) : first.Le third :=
  fun e o adjacent => le' e o (le e o adjacent)

theorem Interference.le_foldl {α : Type*} (step : Interference g → α → Interference g)
    (grows : ∀ (edges : Interference g) a, edges.Le (step edges a)) (l : List α)
    (edges : Interference g) :
    edges.Le (l.foldl step edges) := by
  induction l generalizing edges with
  | nil => exact fun _ _ adjacent => adjacent
  | cons a l ih => exact (grows edges a).trans (ih _)

/-- What a fold of growing steps contains because of one of its elements. -/
theorem Interference.adjacent_foldl {α : Type*} (step : Interference g → α → Interference g)
    (grows : ∀ (edges : Interference g) a, edges.Le (step edges a)) {l : List α} {a : α}
    (mem : a ∈ l)
    {e o : Fin g.nbEdges} (adds : ∀ edges, (step edges a).Adjacent e o)
    (edges : Interference g) : (l.foldl step edges).Adjacent e o := by
  obtain ⟨before, after, rfl⟩ := List.append_of_mem mem
  rw [List.foldl_append, List.foldl_cons]
  exact le_foldl step grows after _ _ _ (adds _)

theorem le_ite_addEdge (condition : Bool) (edges : Interference g) (k f : Fin g.nbEdges) :
    edges.Le (if condition then edges.addEdge k f else edges) := by
  intro e o adjacent
  split_ifs
  · exact adjacent.addEdge k f
  · exact adjacent

theorem le_customEdgesOf (edges : Interference g) (fifo : Fin g.nbEdges) :
    edges.Le (customEdgesOf g array lengths edges fifo) := by
  unfold customEdgesOf
  split
  · exact fun _ _ adjacent => adjacent
  · split_ifs
    · exact Interference.le_foldl _ (fun edges other => le_ite_addEdge _ edges _ _) _ _
    · exact fun _ _ adjacent => adjacent

theorem customEdges_adjacent {constraint : BufferConstraint} {fifo other : Fin g.nbEdges}
    (custom : (g.edge fifo).customBuffer = some constraint) (ne : other ≠ fifo)
    (fifoArray : array fifo = true) (otherArray : array other = true)
    (conflict : g.customConflict lengths constraint fifo other = true) :
    (customEdges g array lengths).Adjacent fifo other := by
  apply Interference.adjacent_foldl _ le_customEdgesOf (List.mem_finRange fifo)
  intro edges
  simp only [customEdgesOf, custom, fifoArray, if_true]
  apply Interference.adjacent_foldl _ (fun edges other => le_ite_addEdge _ edges _ _)
    (List.mem_finRange other)
  intro edges
  simp only [ne_eq, ne, not_false_eq_true, decide_true, otherArray, conflict, Bool.and_self,
    if_true]
  exact Interference.adjacent_addEdge _ _ _

/-- Two FIFOs interfere or are an exception for a `Duplicate` node. -/
def Related (config : Configuration) (array : Fin g.nbEdges → Bool)
    (live : Fin g.nbEdges → Interval) (edges : Interference g) (e o : Fin g.nbEdges) : Prop :=
  edges.Adjacent e o ∨ g.noExceptionForDuplicate config array live e o = false ∨
    g.noExceptionForDuplicate config array live o e = false

theorem Related.symm {edges : Interference g} {e o : Fin g.nbEdges}
    (related : Related config array live edges e o) : Related config array live edges o e := by
  rcases related with adjacent | exception | exception
  · exact Or.inl adjacent.symm
  · exact Or.inr (Or.inr exception)
  · exact Or.inr (Or.inl exception)

theorem Related.mono {edges larger : Interference g} {e o : Fin g.nbEdges}
    (related : Related config array live edges e o) (le : edges.Le larger) :
    Related config array live larger e o :=
  related.imp_left (le e o)

/-- All the active FIFOs are related to each other. -/
def ActiveRelated (config : Configuration) (array : Fin g.nbEdges → Bool)
    (live : Fin g.nbEdges → Interval) (s : ScanState g) : Prop :=
  ∀ e ∈ s.2, ∀ o ∈ s.2, e ≠ o → Related config array live s.1 e o

theorem le_activate (s : ScanState g) (fifo : Fin g.nbEdges) :
    s.1.Le (activate g config array live s fifo).1 :=
  Interference.le_foldl _ (fun edges _ => le_ite_addEdge _ edges _ _) _ _

theorem activate_related {s : ScanState g} (related : ActiveRelated config array live s)
    (fifo : Fin g.nbEdges) :
    ActiveRelated config array live (activate g config array live s fifo) := by
  have withNew : ∀ k ∈ s.2,
      Related config array live (activate g config array live s fifo).1 k fifo := by
    intro k mem
    cases exception : g.noExceptionForDuplicate config array live k fifo with
    | false => exact Or.inr (Or.inl exception)
    | true =>
        left
        apply Interference.adjacent_foldl _ (fun edges _ => le_ite_addEdge _ edges _ _) mem
        intro edges
        simp only [exception, if_true]
        exact Interference.adjacent_addEdge _ _ _
  intro e eMem o oMem ne
  simp only [activate, List.mem_append, List.mem_singleton] at eMem oMem
  rcases eMem with eOld | rfl
  · rcases oMem with oOld | rfl
    · exact (related e eOld o oOld ne).mono (le_activate s fifo)
    · exact withNew e eOld
  · rcases oMem with oOld | rfl
    · exact (withNew o oOld).symm
    · exact absurd rfl ne

theorem le_scanFIFO (currentTime : ℤ) (s : ScanState g) (fifo : Fin g.nbEdges) :
    s.1.Le (scanFIFO g config array live currentTime s fifo).1 := by
  unfold scanFIFO
  split_ifs
  · exact le_activate s fifo
  · exact fun _ _ adjacent => adjacent

theorem scanFIFO_related (currentTime : ℤ) {s : ScanState g}
    (related : ActiveRelated config array live s) (fifo : Fin g.nbEdges) :
    ActiveRelated config array live (scanFIFO g config array live currentTime s fifo) := by
  unfold scanFIFO
  split_ifs
  · exact activate_related related fifo
  · exact related

theorem mem_scanFIFO {currentTime : ℤ} {s : ScanState g} {fifo k : Fin g.nbEdges}
    (mem : k ∈ s.2) : k ∈ (scanFIFO g config array live currentTime s fifo).2 := by
  unfold scanFIFO
  split_ifs
  · exact List.mem_append_left _ mem
  · exact mem

theorem self_mem_scanFIFO {currentTime : ℤ} {s : ScanState g} {fifo : Fin g.nbEdges}
    (isArray : array fifo = true) (isLive : LiveAt g live currentTime fifo) :
    fifo ∈ (scanFIFO g config array live currentTime s fifo).2 := by
  by_cases already : fifo ∈ s.2
  · exact mem_scanFIFO already
  · simp [scanFIFO, isArray, isLive, already, activate]

/-- The scan at one time relates the active FIFOs, to which all the live ones belong. -/
theorem foldl_scanFIFO_spec (currentTime : ℤ) (l : List (Fin g.nbEdges)) {s : ScanState g}
    (related : ActiveRelated config array live s) :
    s.1.Le (l.foldl (scanFIFO g config array live currentTime) s).1 ∧
      ActiveRelated config array live (l.foldl (scanFIFO g config array live currentTime) s) ∧
      (∀ k ∈ s.2, k ∈ (l.foldl (scanFIFO g config array live currentTime) s).2) ∧
      ∀ fifo ∈ l, array fifo = true → LiveAt g live currentTime fifo →
        fifo ∈ (l.foldl (scanFIFO g config array live currentTime) s).2 := by
  induction l generalizing s with
  | nil => exact ⟨fun _ _ adjacent => adjacent, related, fun _ mem => mem, by simp⟩
  | cons first l ih =>
      obtain ⟨grows, relatedAfter, keeps, finds⟩ :=
        ih (scanFIFO_related currentTime related first)
      refine ⟨(le_scanFIFO _ s first).trans grows, relatedAfter, ?_, ?_⟩
      · exact fun k mem => keeps k (mem_scanFIFO mem)
      · intro fifo mem isArray isLive
        rcases List.mem_cons.mp mem with rfl | rest
        · exact keeps fifo (self_mem_scanFIFO isArray isLive)
        · exact finds fifo rest isArray isLive

theorem scanTime_spec {s : ScanState g} (related : ActiveRelated config array live s)
    (currentTime : ℕ) :
    s.1.Le (scanTime g config array live s currentTime).1 ∧
      ActiveRelated config array live (scanTime g config array live s currentTime) ∧
      ∀ fifo, array fifo = true → LiveAt g live currentTime fifo →
        fifo ∈ (scanTime g config array live s currentTime).2 := by
  have stillRelated : ActiveRelated config array live
      (s.1, s.2.filter fun k => ¬(live k).2 < (currentTime : ℤ)) :=
    fun e eMem o oMem ne => related e (List.mem_filter.mp eMem).1 o (List.mem_filter.mp oMem).1 ne
  obtain ⟨grows, relatedAfter, -, finds⟩ :=
    foldl_scanFIFO_spec currentTime (List.finRange g.nbEdges) stillRelated
  exact ⟨grows, relatedAfter, fun fifo => finds fifo (List.mem_finRange fifo)⟩

/-- The scan only adds interferences, and relates FIFOs live at a common time. -/
theorem foldl_scanTime_spec (times : List ℕ) {s : ScanState g}
    (related : ActiveRelated config array live s) :
    s.1.Le (times.foldl (scanTime g config array live) s).1 ∧
      ∀ t ∈ times, ∀ e o, array e = true → array o = true → e ≠ o →
        LiveAt g live t e → LiveAt g live t o →
        Related config array live (times.foldl (scanTime g config array live) s).1 e o := by
  induction times generalizing s with
  | nil => exact ⟨fun _ _ adjacent => adjacent, by simp⟩
  | cons first times ih =>
      obtain ⟨grows, relatedAfter, finds⟩ := scanTime_spec related first
      obtain ⟨growsRest, relatesRest⟩ := ih relatedAfter
      refine ⟨grows.trans growsRest, ?_⟩
      intro t mem e o eArray oArray ne eLive oLive
      rcases List.mem_cons.mp mem with rfl | rest
      · exact (relatedAfter e (finds e eArray eLive) o (finds o oArray oLive) ne).mono growsRest
      · exact relatesRest t rest e o eArray oArray ne eLive oLive

/-- FIFOs live at the same time interfere, unless they are an exception. -/
theorem interferenceGraph_related (config : Configuration) (array : Fin g.nbEdges → Bool)
    (lengths : Fin g.nbEdges → ℤ) {maxTime t : ℕ} (inTime : t ≤ maxTime)
    {e o : Fin g.nbEdges} (eArray : array e = true) (oArray : array o = true) (ne : e ≠ o)
    (eLive : LiveAt g live t e) (oLive : LiveAt g live t o) :
    Related config array live (interferenceGraph g config array live lengths maxTime) e o :=
  (foldl_scanTime_spec _ (by simp [ActiveRelated])).2 t
    (List.mem_range.mpr (Nat.lt_succ_of_le inTime)) e o eArray oArray ne eLive oLive

/-- Conflicting buffer constraints give interferences. -/
theorem interferenceGraph_custom {maxTime : ℕ} {constraint : BufferConstraint}
    {fifo other : Fin g.nbEdges} (custom : (g.edge fifo).customBuffer = some constraint)
    (ne : other ≠ fifo) (fifoArray : array fifo = true) (otherArray : array other = true)
    (conflict : g.customConflict lengths constraint fifo other = true) :
    (interferenceGraph g config array live lengths maxTime).Adjacent fifo other :=
  (foldl_scanTime_spec _ (by simp [ActiveRelated])).1 _ _
    (customEdges_adjacent custom ne fifoArray otherArray conflict)

/-- No FIFO interferes with itself. -/
def Interference.Irreflexive (edges : Interference g) : Prop :=
  ∀ e, ¬edges.Adjacent e e

theorem Interference.Irreflexive.addEdge {edges : Interference g}
    (irreflexive : edges.Irreflexive) {k f : Fin g.nbEdges} (ne : k ≠ f) :
    (edges.addEdge k f).Irreflexive := by
  intro e adjacent
  unfold Interference.addEdge at adjacent
  split_ifs at adjacent with already
  · exact irreflexive e adjacent
  · simp only [Interference.Adjacent, List.mem_cons, Prod.mk.injEq, or_self] at adjacent
    rcases adjacent with ⟨rfl, rfl⟩ | old
    · exact ne rfl
    · exact irreflexive e (Or.inl old)

theorem customEdges_irreflexive : (customEdges g array lengths).Irreflexive := by
  apply List.foldlRecOn (motive := Interference.Irreflexive)
  · simp [Interference.Irreflexive, Interference.Adjacent]
  intro edges irreflexive fifo _
  unfold customEdgesOf
  split
  · exact irreflexive
  · split_ifs
    · apply List.foldlRecOn (motive := Interference.Irreflexive) _ _ irreflexive
      intro edges irreflexive other _
      split_ifs with conflict
      · simp only [ne_eq, Bool.and_eq_true, decide_eq_true_eq] at conflict
        exact irreflexive.addEdge fun same => conflict.1.1 same.symm
      · exact irreflexive
    · exact irreflexive

theorem scanFIFO_irreflexive {currentTime : ℤ} {s : ScanState g}
    (irreflexive : s.1.Irreflexive) (fifo : Fin g.nbEdges) :
    (scanFIFO g config array live currentTime s fifo).1.Irreflexive := by
  unfold scanFIFO
  split_ifs with becomesActive
  · simp only [Bool.and_eq_true, decide_eq_true_eq] at becomesActive
    apply List.foldlRecOn (motive := Interference.Irreflexive) _ _ irreflexive
    intro edges irreflexive k mem
    split_ifs
    · exact irreflexive.addEdge fun same => becomesActive.2 (same ▸ mem)
    · exact irreflexive
  · exact irreflexive

theorem interferenceGraph_irreflexive {maxTime : ℕ} :
    (interferenceGraph g config array live lengths maxTime).Irreflexive := by
  apply List.foldlRecOn (motive := fun s : ScanState g => s.1.Irreflexive) _ _
    customEdges_irreflexive
  intro s irreflexive currentTime _
  unfold scanTime
  apply List.foldlRecOn (motive := fun s : ScanState g => s.1.Irreflexive)
  · exact irreflexive
  · exact fun s irreflexive fifo _ => scanFIFO_irreflexive irreflexive fifo

/-- An exception relates FIFOs of a `Duplicate` node which is executed once. -/
theorem noExceptionForDuplicate_eq_false {k f : Fin g.nbEdges}
    (exception : g.noExceptionForDuplicate config array live k f = false) :
    (∃ input, g.duplicateInput (g.edge k).srcOwner = some input ∧
        (g.edge f).srcOwner = (g.edge k).srcOwner ∧ array input = true ∧
        (live input).2 ≤ (live k).1 ∧ (live input).2 ≤ (live f).1) ∨
      (g.duplicateInput (g.edge f).srcOwner = some k ∧ (live k).2 ≤ (live f).1) ∨
      (g.duplicateInput (g.edge k).srcOwner = some f ∧ (live f).2 ≤ (live k).1) := by
  unfold Graph.noExceptionForDuplicate at exception
  split at exception
  · exact absurd exception (by simp)
  cases common : g.commonDuplicateInput k f with
  | some input =>
      left
      unfold Graph.commonDuplicateInput at common
      split_ifs at common with same
      simp only [Graph.commonDuplicateInput, if_pos same, common] at exception
      simp only [Bool.not_eq_false', Bool.and_eq_true, decide_eq_true_eq] at exception
      exact ⟨input, common, same.symm, exception.1.1, exception.1.2, exception.2⟩
  | none =>
      right
      rw [common] at exception
      simp only at exception
      split_ifs at exception with isInput isOutput
      · left
        simp only [Bool.and_eq_true, decide_eq_true_eq, Graph.isDuplicate] at isInput
        obtain ⟨input, duplicate⟩ := Option.isSome_iff_exists.mp isInput.2
        have same := (g.duplicateInput_iff _ input duplicate k).mp rfl
        subst same
        rw [isInput.1] at duplicate
        exact ⟨duplicate, by simpa using exception⟩
      · right
        simp only [Bool.and_eq_true, decide_eq_true_eq, Graph.isDuplicate] at isOutput
        obtain ⟨input, duplicate⟩ := Option.isSome_iff_exists.mp isOutput.2
        have same := (g.duplicateInput_iff _ input duplicate f).mp rfl
        subst same
        rw [← isOutput.1] at duplicate
        exact ⟨duplicate, by simpa using exception⟩

end

end CmsisStream.Scheduler
