import Mathlib.Data.List.Induction

/-!
# Machines which take one atomic step at a time

The threads of a program are interleaved by the choice of the next action.  A property is
proved of all the runs by showing that each action preserves it, possibly under a condition
on the actions that a run may take.
-/

/-- A state and what each action makes of it, if it is possible. -/
structure Machine (σ α : Type) where
  init : σ
  next : σ → α → Option σ

namespace Machine

variable {σ α ε : Type} (machine : Machine σ α)

/-- The state after some actions, if they are possible. -/
def run : σ → List α → Option σ
  | s, [] => some s
  | s, a :: actions => (machine.next s a).bind fun t => run t actions

/-- A run from the initial state, whose actions meet a condition where they are taken. -/
inductive Path (allowed : σ → α → Prop) : List α → σ → Prop
  | init : Path allowed [] machine.init
  | step {actions : List α} {s t : σ} {a : α} (path : Path allowed actions s)
      (allow : allowed s a) (next : machine.next s a = some t) : Path allowed (actions ++ [a]) t

/-- A run without condition. -/
abbrev Runs : List α → σ → Prop := machine.Path fun _ _ => True

/-- The machine whose actions are possible only where they meet a condition. -/
def restrict (allowed : σ → α → Prop) [∀ s a, Decidable (allowed s a)] : Machine σ α where
  init := machine.init
  next s a := if allowed s a then machine.next s a else none

/-- What some actions do besides changing the state. -/
def trace (effect : σ → α → List ε) : σ → List α → List ε
  | _, [] => []
  | s, a :: actions =>
      effect s a ++ match machine.next s a with
        | some t => trace effect t actions
        | none => []

variable {machine} {allowed allowed' : σ → α → Prop} {actions : List α} {s t : σ} {a : α}

/-- A property which holds at the start and is preserved by each action always holds. -/
theorem Path.invariant {p : σ → Prop} (path : machine.Path allowed actions s)
    (start : p machine.init)
    (preserved : ∀ s a t, p s → allowed s a → machine.next s a = some t → p t) : p s := by
  induction path with
  | init => exact start
  | step _ allow next ih => exact preserved _ _ _ ih allow next

theorem Path.mono (path : machine.Path allowed actions s)
    (weaker : ∀ s a, allowed s a → allowed' s a) : machine.Path allowed' actions s := by
  induction path with
  | init => exact .init
  | step _ allow next ih => exact .step ih (weaker _ _ allow) next

theorem run_append (s : σ) (actions more : List α) :
    machine.run s (actions ++ more) =
      (machine.run s actions).bind fun t => machine.run t more := by
  induction actions generalizing s with
  | nil => rfl
  | cons a actions ih =>
      simp only [List.cons_append, run]
      cases machine.next s a with
      | none => rfl
      | some t => exact ih t

theorem Path.run_eq (path : machine.Path allowed actions s) :
    machine.run machine.init actions = some s := by
  induction path with
  | init => rfl
  | step _ _ next ih => simp [run_append, ih, run, next]

theorem runs_of_run (run : machine.run machine.init actions = some s) : machine.Runs actions s := by
  induction actions using List.reverseRecOn generalizing s with
  | nil =>
      cases run
      exact .init
  | append_singleton actions a ih =>
      rw [run_append] at run
      rcases Option.bind_eq_some_iff.mp run with ⟨t, first, last⟩
      rcases Option.bind_eq_some_iff.mp last with ⟨u, next, done⟩
      cases done
      exact .step (ih first) trivial next

/-- A run leads to one state only. -/
theorem Path.unique (path : machine.Path allowed actions s)
    (path' : machine.Path allowed' actions t) : s = t :=
  Option.some.inj (path.run_eq.symm.trans path'.run_eq)

/-- The last action of a run. -/
theorem path_concat (path : machine.Path allowed (actions ++ [a]) t) :
    ∃ s, machine.Path allowed actions s ∧ allowed s a ∧ machine.next s a = some t := by
  generalize concat : actions ++ [a] = all at path
  cases path with
  | init => simp at concat
  | @step before s _ last path allow next =>
      rcases List.append_inj' concat rfl with ⟨rfl, same⟩
      cases same
      exact ⟨s, path, allow, next⟩

theorem path_of_run [∀ s a, Decidable (allowed s a)]
    (run : (machine.restrict allowed).run machine.init actions = some s) :
    machine.Path allowed actions s := by
  have runs : (machine.restrict allowed).Runs actions s := runs_of_run run
  induction runs with
  | init => exact .init
  | step runs _ next ih =>
      simp only [restrict] at next
      split at next
      · rename_i allow
        exact .step (ih runs.run_eq) allow next
      · cases next

theorem trace_concat (effect : σ → α → List ε) {s : σ} (run : machine.run s actions = some t)
    (a : α) :
    machine.trace effect s (actions ++ [a]) = machine.trace effect s actions ++ effect t a := by
  induction actions generalizing s with
  | nil =>
      cases run
      simp only [List.nil_append, trace]
      split <;> simp
  | cons b actions ih =>
      rcases Option.bind_eq_some_iff.mp run with ⟨u, next, rest⟩
      simp only [List.cons_append, trace, next, ih rest, List.append_assoc]

/-! ## Ranks -/

/-- The counted actions decrease a rank, and the others do not increase it. -/
def Ranked (machine : Machine σ α) (counted : α → Bool) (p : σ → Prop) (rank : σ → ℕ) : Prop :=
  ∀ s a t, p s → machine.next s a = some t →
    p t ∧ rank t ≤ rank s ∧ (counted a = true → rank t < rank s)

/-- The rank bounds the number of counted actions. -/
theorem Ranked.run {counted : α → Bool} {p : σ → Prop} {rank : σ → ℕ}
    (ranked : machine.Ranked counted p rank) (start : p s)
    (run : machine.run s actions = some t) :
    p t ∧ (actions.filter counted).length + rank t ≤ rank s := by
  induction actions generalizing s with
  | nil =>
      cases run
      exact ⟨start, by simp⟩
  | cons a actions ih =>
      rcases Option.bind_eq_some_iff.mp run with ⟨u, next, rest⟩
      rcases ranked s a u start next with ⟨kept, le, lt⟩
      rcases ih kept rest with ⟨final, bound⟩
      refine ⟨final, ?_⟩
      rw [List.filter_cons]
      split
      · rename_i isCounted
        have decreases := lt isCounted
        rw [List.length_cons]
        omega
      · omega

end Machine
