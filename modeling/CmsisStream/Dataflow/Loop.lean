import Mathlib.Data.Nat.Notation
import Mathlib.Tactic.SplitIfs

/-!
# Loops which may get stuck

A loop repeats a step until its state is finished, and is stuck when an
unfinished state has no step.  The number of iterations is bounded by some fuel,
so that a run can be computed.  The rules below are the usual ones: an invariant
of the step holds in every state reached, a loop whose unfinished states all
have a step is never stuck, and a decreasing measure bounds the fuel needed.
-/

namespace Dataflow

universe u

/-- A loop condition and body. -/
structure Loop (State : Type u) where
  finished : State → Bool
  step : State → Option State

namespace Loop

/-- How a run ends; `running` when the fuel is used up. -/
inductive Outcome (State : Type u) where
  | finished (final : State)
  | stuck (final : State)
  | running (final : State)

variable {State : Type u} (loop : Loop State)

/-- The state of a run which ended. -/
def Outcome.final? : Outcome State → Option State
  | .finished final => some final
  | _ => none

theorem Outcome.final?_eq_some {outcome : Outcome State} {final : State} :
    outcome.final? = some final ↔ outcome = .finished final := by
  cases outcome <;> simp [final?]

/-- At most `fuel` iterations of the loop. -/
def run : ℕ → State → Outcome State
  | 0, s => if loop.finished s then .finished s else .running s
  | fuel + 1, s =>
      if loop.finished s then .finished s
      else match loop.step s with
        | none => .stuck s
        | some next => run fuel next

/-- The states at the beginning of an iteration. -/
inductive Reached (start : State) : State → Prop where
  | init : Reached start start
  | step {s next} (reached : Reached start s) (unfinished : loop.finished s = false)
      (stepsTo : loop.step s = some next) : Reached start next

variable {loop} {start : State}

/-- What the step preserves holds in every state reached. -/
theorem Reached.invariant {P : State → Prop} (initial : P start)
    (preserved : ∀ s next, P s → loop.step s = some next → P next) {s : State}
    (reached : loop.Reached start s) : P s := by
  induction reached with
  | init => exact initial
  | step _ _ stepsTo ih => exact preserved _ _ ih stepsTo

/-- A run which ends has reached a finished state. -/
theorem Reached.of_run {fuel : ℕ} {s final : State} (reached : loop.Reached start s)
    (run : loop.run fuel s = .finished final) :
    loop.Reached start final ∧ loop.finished final = true := by
  induction fuel generalizing s with
  | zero =>
      simp only [Loop.run] at run
      split_ifs at run with done
      obtain rfl := Outcome.finished.inj run
      exact ⟨reached, done⟩
  | succ fuel ih =>
      simp only [Loop.run] at run
      split_ifs at run with done
      · obtain rfl := Outcome.finished.inj run
        exact ⟨reached, done⟩
      · cases stepsTo : loop.step s with
        | none => simp [stepsTo] at run
        | some next =>
            rw [stepsTo] at run
            exact ih (reached.step (Bool.not_eq_true _ ▸ done) stepsTo) run

/-- A loop with a step in each unfinished state it reaches is never stuck. -/
theorem Reached.run_ne_stuck
    (progress : ∀ s, loop.Reached start s → loop.finished s = false → (loop.step s).isSome)
    {s : State} (reached : loop.Reached start s) (fuel : ℕ) (final : State) :
    loop.run fuel s ≠ .stuck final := by
  induction fuel generalizing s with
  | zero =>
      rw [Loop.run]
      split_ifs <;> simp
  | succ fuel ih =>
      rw [Loop.run]
      split_ifs with done
      · simp
      · have unfinished : loop.finished s = false := Bool.not_eq_true _ ▸ done
        obtain ⟨next, stepsTo⟩ := Option.isSome_iff_exists.mp (progress s reached unfinished)
        simp only [stepsTo]
        exact ih (reached.step unfinished stepsTo)

/-- A loop with a decreasing measure ends. -/
theorem Reached.run_finishes
    (progress : ∀ s, loop.Reached start s → loop.finished s = false → (loop.step s).isSome)
    (measure : State → ℕ) (decreases : ∀ s next, loop.Reached start s →
      loop.finished s = false → loop.step s = some next → measure next < measure s)
    {s : State} (reached : loop.Reached start s) {fuel : ℕ} (enough : measure s ≤ fuel) :
    ∃ final, loop.run fuel s = .finished final := by
  induction fuel generalizing s with
  | zero =>
      rw [Loop.run]
      split_ifs with done
      · exact ⟨s, rfl⟩
      · have unfinished : loop.finished s = false := Bool.not_eq_true _ ▸ done
        obtain ⟨next, stepsTo⟩ := Option.isSome_iff_exists.mp (progress s reached unfinished)
        have less := decreases s next reached unfinished stepsTo
        omega
  | succ fuel ih =>
      rw [Loop.run]
      split_ifs with done
      · exact ⟨s, rfl⟩
      · have unfinished : loop.finished s = false := Bool.not_eq_true _ ▸ done
        obtain ⟨next, stepsTo⟩ := Option.isSome_iff_exists.mp (progress s reached unfinished)
        have less := decreases s next reached unfinished stepsTo
        simp only [stepsTo]
        exact ih (reached.step unfinished stepsTo) (by omega)

/-- A run with more fuel than a decreasing measure is not interrupted. -/
theorem Reached.run_ne_running
    (measure : State → ℕ) (decreases : ∀ s next, loop.Reached start s →
      loop.finished s = false → loop.step s = some next → measure next < measure s)
    {s : State} (reached : loop.Reached start s) {fuel : ℕ} (enough : measure s < fuel)
    (final : State) : loop.run fuel s ≠ .running final := by
  induction fuel generalizing s with
  | zero => omega
  | succ fuel ih =>
      rw [Loop.run]
      split_ifs with done
      · simp
      · have unfinished : loop.finished s = false := Bool.not_eq_true _ ▸ done
        cases stepsTo : loop.step s with
        | none => simp
        | some next =>
            have less := decreases s next reached unfinished stepsTo
            cases fuel with
            | zero => omega
            | succ fuel => exact ih (reached.step unfinished stepsTo) (by omega)

end Loop

section ForEach

variable {Element State Error : Type} {f : State → Element → Except Error State}

/-- What each iteration preserves holds at the end of a loop that raises nothing. -/
theorem foldlM_invariant {P : List Element → State → Prop} {l : List Element} {s final : State}
    (preserved : ∀ done x s next, P done s → f s x = .ok next → P (done ++ [x]) next)
    (initial : P [] s) (ok : l.foldlM f s = .ok final) : P l final := by
  suffices fromPrefix : ∀ done s, P done s → l.foldlM f s = .ok final → P (done ++ l) final from
    fromPrefix [] s initial ok
  clear initial ok
  induction l with
  | nil =>
      intro done s holds ok
      obtain rfl := Except.ok.inj ok
      simpa using holds
  | cons x l ih =>
      intro done s holds ok
      rw [List.foldlM_cons] at ok
      cases stepsTo : f s x with
      | error error => simp [stepsTo, bind, Except.bind] at ok
      | ok next =>
          rw [stepsTo] at ok
          have rest := ih (done ++ [x]) next (preserved done x s next holds stepsTo) ok
          rwa [List.append_assoc] at rest

/-- A loop whose iterations either raise an error, for a reason that does not depend on the
state, or preserve an invariant. -/
theorem foldlM_raises_or_ok {P : List Element → State → Prop} {R : Element → Error → Prop}
    {l : List Element}
    (iteration : ∀ done x rest s, l = done ++ x :: rest → P done s →
      (∃ error, R x error ∧ f s x = .error error) ∨
        (∀ error, ¬ R x error) ∧ ∃ next, f s x = .ok next ∧ P (done ++ [x]) next)
    {s : State} (initial : P [] s) :
    (∃ x ∈ l, ∃ error, R x error ∧ l.foldlM f s = .error error) ∨
      (∀ x ∈ l, ∀ error, ¬ R x error) ∧ ∃ final, l.foldlM f s = .ok final ∧ P l final := by
  suffices fromPrefix : ∀ done rest s, l = done ++ rest → P done s →
      (∃ x ∈ rest, ∃ error, R x error ∧ rest.foldlM f s = .error error) ∨
        (∀ x ∈ rest, ∀ error, ¬ R x error) ∧
          ∃ final, rest.foldlM f s = .ok final ∧ P (done ++ rest) final from
    fromPrefix [] l s rfl initial
  intro done rest
  induction rest generalizing done with
  | nil =>
      intro s _ holds
      exact .inr ⟨by simp, s, rfl, by simpa using holds⟩
  | cons x rest ih =>
      intro s split holds
      rcases iteration done x rest s split holds with
        ⟨error, raised, stepsTo⟩ | ⟨quiet, next, stepsTo, after⟩
      · refine .inl ⟨x, by simp, error, raised, ?_⟩
        rw [List.foldlM_cons, stepsTo]
        rfl
      · have later := ih (done ++ [x]) next (by simp [split]) after
        rw [List.foldlM_cons, stepsTo]
        rcases later with ⟨y, yMem, error, raised, run⟩ | ⟨restQuiet, final, run, finalHolds⟩
        · exact .inl ⟨y, List.mem_cons_of_mem _ yMem, error, raised, run⟩
        · refine .inr ⟨?_, final, run, by simpa using finalHolds⟩
          intro y yMem
          rcases List.mem_cons.mp yMem with rfl | inRest
          · exact quiet
          · exact restQuiet y inRest

end ForEach

end Dataflow
