import CmsisStream.Scheduler.BalanceEquations
import CmsisStream.Scheduler.ArrayFifo

/-!
# Lengths and array flags of the FIFOs

After the main loop of `computeSchedule`, the maxima it recorded are converted
to 32-bit integers and given to `initializeFIFODescriptions` as the lengths of
the FIFOs.  The test for `isArray` compares a rate, which may be a list, with a
NumPy integer, and its result has no truth value when the list has several
elements.
-/

namespace CmsisStream.Scheduler

open Dataflow

variable {g : Graph}

/-- The largest number of samples of an edge along a schedule. -/
def Graph.IsMaximum (g : Graph) (schedule : List (Fin g.nbNodes)) (e : Fin g.nbEdges)
    (samples : ℤ) : Prop :=
  IsGreatest {level | ∃ before, before <+: schedule ∧ level = g.net.level (counts before) e} samples

/-- What is expected of the descriptions after the scheduling loop: only the errors about custom
buffers, lengths equal to the maxima, and arrays which transfer their whole length. -/
structure FIFOsDescribed (schedule : List (Fin g.nbNodes))
    (outcome : Except SchedError (FIFODescriptions g)) : Prop where
  errors : ∀ error, outcome = .error error →
    (∃ name, error = .cannotReuseCustomBuffer name) ∨ ∃ fifo, error = .customBufferMustBeArray fifo
  length : ∀ described, outcome = .ok described → ∀ e,
    g.IsMaximum schedule e (described.fifo e).length
  array : ∀ described, outcome = .ok described → ∀ e, (described.fifo e).isArray = true →
    (g.edge e).delay = 0 ∧ ∀ k,
      ((g.edge e).src.nbSamples.cycleValue (k % (g.edge e).src.nbSamples.cyclePeriod) : ℤ) =
        (described.fifo e).length ∧
      ((g.edge e).dst.nbSamples.cycleValue (k % (g.edge e).dst.nbSamples.cyclePeriod) : ℤ) =
        (described.fifo e).length

/-- A custom buffer which must be an array is given to a FIFO which is not one. -/
def Graph.CustomBufferRefused (g : Graph) (lengths : Fin g.nbEdges → ℤ) : Prop :=
  ∃ e, (g.edge e).customBuffer.any BufferConstraint.mustBeArray = true ∧
    g.isArray (lengths e) e = false

/-- A custom buffer name is used twice; or no edge has the same list of several rates at both
ends, and either a custom buffer is refused or the maxima fit in 32 bits. -/
def Graph.LengthsComparable (g : Graph) (bMax : Fin g.nbEdges → ℤ) : Prop :=
  (∃ name, reusedName [] (customNames g) = some name) ∨
    ((∀ e, g.ambiguousFIFO e = false) ∧
      (g.CustomBufferRefused (fun e => toInt32 (bMax e)) ∨ ∀ e, bMax e < 2 ^ 31))

section Outcome

variable {coloring : Coloring g} {config : Configuration} {live : Fin g.nbEdges → Interval}
  {lengths : Fin g.nbEdges → ℤ} {maxTime : ℕ}

/-- A repeated name is reported before anything else. -/
theorem initializeFIFODescriptions_reused {name : String}
    (reused : reusedName [] (customNames g) = some name) :
    initializeFIFODescriptions g coloring config live lengths maxTime =
      .error (.cannotReuseCustomBuffer name) := by
  unfold initializeFIFODescriptions
  rw [reused]

/-- The comparison of a list with a length has no truth value. -/
theorem initializeFIFODescriptions_ambiguous (unique : reusedName [] (customNames g) = none)
    {e : Fin g.nbEdges} (ambiguous : g.ambiguousFIFO e = true) :
    initializeFIFODescriptions g coloring config live lengths maxTime =
      .error .ambiguousTruthValue := by
  unfold initializeFIFODescriptions
  have someAmbiguous : (List.finRange g.nbEdges).any g.ambiguousFIFO = true :=
    List.any_eq_true.mpr ⟨e, List.mem_finRange e, ambiguous⟩
  rw [unique]
  simp only [someAmbiguous, if_true]

variable (coloring config live lengths maxTime) in
/-- Otherwise a custom buffer is refused, or the FIFOs are described. -/
theorem initializeFIFODescriptions_cases (unique : reusedName [] (customNames g) = none)
    (comparable : ∀ e, g.ambiguousFIFO e = false) :
    (g.CustomBufferRefused lengths ∧ ∃ fifo,
      initializeFIFODescriptions g coloring config live lengths maxTime =
        .error (.customBufferMustBeArray fifo)) ∨
    (¬ g.CustomBufferRefused lengths ∧
      initializeFIFODescriptions g coloring config live lengths maxTime =
        .ok (describe g config lengths (colors g coloring config live lengths maxTime))) := by
  have noneAmbiguous : (List.finRange g.nbEdges).any g.ambiguousFIFO = false := by
    simp [comparable]
  unfold initializeFIFODescriptions
  rw [unique]
  simp only [noneAmbiguous, Bool.false_eq_true, if_false]
  split
  · rename_i e found
    have refused := List.find?_some found
    rw [Bool.and_eq_true, Bool.not_eq_true'] at refused
    exact Or.inl ⟨⟨e, refused⟩, e.val, rfl⟩
  · rename_i notFound
    refine Or.inr ⟨?_, rfl⟩
    rintro ⟨e, mustBeArray, notArray⟩
    have kept := List.find?_eq_none.mp notFound e (List.mem_finRange e)
    simp [mustBeArray, notArray] at kept

end Outcome

/-- The maxima recorded by the main loop are those of its schedule. -/
theorem GreedyInvariant.isMaximum {q : Fin g.nbNodes → ℤ} {s : SchedState g}
    (invariant : GreedyInvariant q s) (e : Fin g.nbEdges) :
    g.IsMaximum s.schedule e (s.bMax e) := by
  refine ⟨?_, ?_⟩
  · rcases invariant.bMax_reached e with ⟨before, isPrefix, eq⟩
    exact ⟨before, isPrefix, eq.symm⟩
  · rintro level ⟨before, isPrefix, rfl⟩
    exact WithTop.coe_le_coe.mp (invariant.admissible before isPrefix e).2

/-- FIFO descriptions.  After a scheduling loop which succeeds, the descriptions are as expected
exactly when the lengths can be compared with the rates and fit in 32 bits. -/
theorem fifosDescribed_iff {nullspace : Nullspace}
    (basis : ReducedBasis g.topologyMatrix (nullspace _ _ g.topologyMatrix))
    (isConnected : g.isConnected = true) {q : Fin g.nbNodes → ℤ}
    (solved : nullVector nullspace g.topologyMatrix = .ok q) {score : Score g} {analyze : Bool}
    {fuel : ℕ} {final : SchedState g}
    (finished : (greedyLoop score analyze).run fuel (initialState g q) = .finished final)
    (coloring : Coloring g) (config : Configuration) (live : Fin g.nbEdges → Interval)
    (maxTime : ℕ) :
    FIFOsDescribed final.schedule (initializeFIFODescriptions g coloring config live
        (fun e => toInt32 (final.bMax e)) maxTime) ↔
      g.LengthsComparable final.bMax := by
  have noLoop := noLoop_of_nullVector basis isConnected solved
  have invariant := (greedyLoop_invariant noLoop finished).1
  have nonneg : ∀ e, 0 ≤ final.bMax e := fun e =>
    (Int.natCast_nonneg _).trans (invariant.delay_le e)
  cases reused : reusedName [] (customNames g) with
  | some name =>
      refine iff_of_true ?_ (Or.inl ⟨name, reused⟩)
      rw [initializeFIFODescriptions_reused reused]
      refine ⟨?_, by simp, by simp⟩
      intro error isError
      exact Or.inl ⟨name, (Except.error.inj isError).symm⟩
  | none =>
      by_cases comparable : ∀ e, g.ambiguousFIFO e = false
      · rcases initializeFIFODescriptions_cases coloring config live
            (fun e => toInt32 (final.bMax e)) maxTime reused comparable with
          ⟨refused, fifo, isError⟩ | ⟨notRefused, isOk⟩
        · refine iff_of_true ?_ (Or.inr ⟨comparable, Or.inl refused⟩)
          rw [isError]
          refine ⟨?_, by simp, by simp⟩
          intro error isError
          exact Or.inr ⟨fifo, (Except.error.inj isError).symm⟩
        · rw [isOk]
          constructor
          · intro described
            refine Or.inr ⟨comparable, Or.inr ?_⟩
            intro e
            -- the converted maximum is the maximum
            have same : toInt32 (final.bMax e) = final.bMax e :=
              (described.length _ rfl e).unique (invariant.isMaximum e)
            by_contra tooLarge
            rw [toInt32, if_neg (fun fits => tooLarge fits.2)] at same
            have low := nonneg e
            omega
          · rintro (⟨name, isName⟩ | ⟨-, refused | fits⟩)
            · rw [reused] at isName
              exact absurd isName (by simp)
            · exact absurd refused notRefused
            · refine ⟨by simp, ?_, ?_⟩
              · intro described isDescribed e
                obtain rfl := Except.ok.inj isDescribed
                change g.IsMaximum final.schedule e (toInt32 (final.bMax e))
                rw [toInt32_of_fits (nonneg e) (fits e)]
                exact invariant.isMaximum e
              · intro described isDescribed e isArray
                obtain rfl := Except.ok.inj isDescribed
                rcases Graph.blockRate_of_isArray isArray with ⟨nb, isLength, rate⟩
                refine ⟨rate.delay, ?_⟩
                intro k
                have length : toInt32 (final.bMax e) = nb := isLength
                change _ = toInt32 (final.bMax e) ∧ _ = toInt32 (final.bMax e)
                rw [length, rate.period.1, rate.period.2, Nat.mod_one, rate.value.1,
                  rate.value.2]
                exact ⟨rfl, rfl⟩
      · simp only [not_forall, Bool.not_eq_false] at comparable
        rcases comparable with ⟨e, ambiguous⟩
        rw [initializeFIFODescriptions_ambiguous reused ambiguous]
        refine iff_of_false ?_ ?_
        · intro described
          rcases described.errors _ rfl with ⟨name, isName⟩ | ⟨fifo, isFifo⟩
          · exact absurd isName (by simp)
          · exact absurd isFifo (by simp)
        · rintro (⟨name, isName⟩ | ⟨comparable, -⟩)
          · rw [reused] at isName
            exact absurd isName (by simp)
          · rw [comparable e] at ambiguous
            exact absurd ambiguous Bool.false_ne_true

theorem oneTwoPositive : 0 < (NbSamples.list [1, 2]).cycleTotal := by decide

/-- A cyclo-static source writing one sample and then two, and a sink reading in the same way. -/
def equalCycles : Graph :=
  sourceSink ⟨.list [1, 2], oneTwoPositive⟩ ⟨.list [1, 2], oneTwoPositive⟩ 0

theorem sourceSink_reducedBasis {src dst : IOPort} {delay : ℕ} {ratio : ℚ}
    (isRatio : ((sourceSink src dst delay).totalProduced (0 : Fin 1) : ℚ) * ratio =
      (sourceSink src dst delay).totalConsumed (0 : Fin 1)) :
    ReducedBasis (sourceSink src dst delay).topologyMatrix
      (pairNullspace ratio 1 2 (sourceSink src dst delay).topologyMatrix) := by
  have entries : (sourceSink src dst delay).topologyMatrix (0 : Fin 1) (0 : Fin 2) =
      (sourceSink src dst delay).totalProduced (0 : Fin 1) ∧
      (sourceSink src dst delay).topologyMatrix (0 : Fin 1) (1 : Fin 2) =
        -((sourceSink src dst delay).totalConsumed (0 : Fin 1) : ℤ) := ⟨rfl, rfl⟩
  apply pairNullspace_reducedBasis
  · rw [entries.1]
    exact_mod_cast (Graph.totalProduced_pos _).ne'
  · rw [entries.1, entries.2]
    push_cast
    linear_combination isRatio

theorem cycloSourceSink_reducedBasis :
    ReducedBasis cycloSourceSink.topologyMatrix
      (pairNullspace 1 1 2 cycloSourceSink.topologyMatrix) := by
  apply sourceSink_reducedBasis
  have same : cycloSourceSink.totalProduced (0 : Fin 1) =
      cycloSourceSink.totalConsumed (0 : Fin 1) := by
    decide +kernel
  rw [mul_one]
  exact_mod_cast same

theorem pairNullspace_nullVector (m : Fin 1 → Fin 2 → ℤ) :
    nullVector (pairNullspace 1) m = .ok fun _ => 1 := by
  have values : ∀ j : Fin 2, intValues (fun column : Fin 2 => if column.val = 0 then 1 else 1) j /
      (gcdOfValues fun column : Fin 2 => if column.val = 0 then 1 else 1) = 1 := by
    decide +kernel
  have small : FitsInt64 fun _ : Fin 2 => (1 : ℤ) := by decide
  have vector : nullVector (pairNullspace 1) m = int64Array fun _ => 1 :=
    congrArg int64Array (funext values)
  rw [vector, int64Array, if_pos small]

/-- The source with three samples for each cycle and its sink get their descriptions. -/
theorem cycloSourceSink_fifosDescribed :
    ∃ final, (greedyLoop (occupancy cycloSourceSink) true).run 5
        (initialState cycloSourceSink fun _ => 1) = .finished final ∧
      (FIFOsDescribed final.schedule (initializeFIFODescriptions cycloSourceSink
        (ownColors cycloSourceSink) ⟨false, true, false⟩ final.liveInterval
        (fun e => toInt32 (final.bMax e)) final.schedule.length) ↔
      cycloSourceSink.LengthsComparable final.bMax) := by
  have evaluated : ((greedyLoop (occupancy cycloSourceSink) true).run 5
      (initialState cycloSourceSink fun _ => 1)).final?.isSome = true := by
    decide +kernel
  rcases Option.isSome_iff_exists.mp evaluated with ⟨final, isFinal⟩
  have finished := Loop.Outcome.final?_eq_some.mp isFinal
  exact ⟨final, finished, fifosDescribed_iff cycloSourceSink_reducedBasis (by decide +kernel)
    (pairNullspace_nullVector _) finished _ _ _ _⟩

/-- The loop succeeds for equal cycles at both ends, and the descriptions fail with an error
which is not about a custom buffer. -/
theorem equalCycles_not_fifosDescribed :
    equalCycles.isConnected = true ∧
      nullVector (pairNullspace 1) equalCycles.topologyMatrix = .ok (fun _ => 1) ∧
      ∃ final, (greedyLoop (occupancy equalCycles) true).run 5
          (initialState equalCycles fun _ => 1) = .finished final ∧
        ¬ FIFOsDescribed final.schedule (initializeFIFODescriptions equalCycles
          (ownColors equalCycles) ⟨false, true, false⟩ final.liveInterval
          (fun e => toInt32 (final.bMax e)) final.schedule.length) := by
  have evaluated : ((greedyLoop (occupancy equalCycles) true).run 5
      (initialState equalCycles fun _ => 1)).final?.isSome = true := by
    decide +kernel
  rcases Option.isSome_iff_exists.mp evaluated with ⟨final, isFinal⟩
  refine ⟨by decide +kernel, pairNullspace_nullVector _, final,
    Loop.Outcome.final?_eq_some.mp isFinal, ?_⟩
  intro described
  rw [initializeFIFODescriptions_ambiguous rfl (e := (0 : Fin 1)) (by decide +kernel)] at described
  rcases described.errors _ rfl with ⟨name, isName⟩ | ⟨fifo, isFifo⟩
  · exact absurd isName (by simp)
  · exact absurd isFifo (by simp)

end CmsisStream.Scheduler
