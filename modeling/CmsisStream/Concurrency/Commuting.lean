import CmsisStream.Concurrency.Machine
import Mathlib.Data.List.Count

/-!
# Machines whose actions commute

When two different actions are possible in a state, each stays possible after the other and
their order does not matter.  Then what was done in one run can be done after any other run,
so that runs which cannot go on have done the same actions and are in the same state.
-/

namespace Machine

variable {σ α : Type} [DecidableEq α]

/-- Two different actions which are possible can be done in both orders, with one result. -/
def Commutes (machine : Machine σ α) : Prop :=
  ∀ s a b t u, a ≠ b → machine.next s a = some t → machine.next s b = some u →
    ∃ v, machine.next t b = some v ∧ machine.next u a = some v

/-- The state after some attempts: an action which is not possible is skipped. -/
def attempts (machine : Machine σ α) : σ → List α → σ
  | s, [] => s
  | s, a :: actions => attempts machine ((machine.next s a).getD s) actions

/-- The attempts which are not skipped. -/
def performed (machine : Machine σ α) : σ → List α → List α
  | _, [] => []
  | s, a :: actions =>
      match machine.next s a with
      | some t => a :: performed machine t actions
      | none => performed machine s actions

/-- No action is possible. -/
def Stuck (machine : Machine σ α) (s : σ) : Prop := ∀ a, machine.next s a = none

variable {machine : Machine σ α} {s t u : σ} {a : α} {first second : List α}

omit [DecidableEq α] in
theorem run_cons (next : machine.next s a = some t) (actions : List α) :
    machine.run s (a :: actions) = machine.run t actions := by
  simp [run, next]

omit [DecidableEq α] in
theorem run_cons_eq_some {actions : List α} (run : machine.run s (a :: actions) = some u) :
    ∃ t, machine.next s a = some t ∧ machine.run t actions = some u :=
  Option.bind_eq_some_iff.mp run

omit [DecidableEq α] in
/-- Attempts are a run of the actions which are not skipped. -/
theorem run_performed (s : σ) (actions : List α) :
    machine.run s (machine.performed s actions) = some (machine.attempts s actions) := by
  induction actions generalizing s with
  | nil => rfl
  | cons a actions ih =>
      simp only [performed, attempts]
      cases next : machine.next s a with
      | none => exact ih s
      | some t => exact (run_cons next _).trans (ih t)

omit [DecidableEq α] in
theorem attempts_append (s : σ) (first second : List α) :
    machine.attempts s (first ++ second) = machine.attempts (machine.attempts s first) second := by
  induction first generalizing s with
  | nil => rfl
  | cons a first ih => exact ih _

omit [DecidableEq α] in
theorem performed_append (s : σ) (first second : List α) :
    machine.performed s (first ++ second) =
      machine.performed s first ++ machine.performed (machine.attempts s first) second := by
  induction first generalizing s with
  | nil => rfl
  | cons a first ih =>
      simp only [List.cons_append, performed, attempts]
      cases machine.next s a with
      | none => exact ih s
      | some t => exact congrArg (a :: ·) (ih t)

omit [DecidableEq α] in
theorem performed_sublist (s : σ) (actions : List α) :
    (machine.performed s actions).Sublist actions := by
  induction actions generalizing s with
  | nil => exact List.Sublist.slnil
  | cons a actions ih =>
      simp only [performed]
      cases machine.next s a with
      | none => exact (ih s).cons a
      | some t => exact (ih t).cons_cons a

/-- The same actions are possible in related states, and lead to related states. -/
def Matches {τ : Type} (machine : Machine σ α) (other : Machine τ α) (related : σ → τ → Prop) :
    Prop :=
  ∀ s p a, related s p →
    (machine.next s a = none ∧ other.next p a = none) ∨
      ∃ s' p', machine.next s a = some s' ∧ other.next p a = some p' ∧ related s' p'

omit [DecidableEq α] in
/-- Attempts from related states perform the same actions and lead to related states. -/
theorem Matches.attempts {τ : Type} {other : Machine τ α} {related : σ → τ → Prop} {p : τ}
    (isMatch : machine.Matches other related) (start : related s p) (actions : List α) :
    machine.performed s actions = other.performed p actions ∧
      related (machine.attempts s actions) (other.attempts p actions) := by
  induction actions generalizing s p with
  | nil => exact ⟨rfl, start⟩
  | cons a actions ih =>
      simp only [performed, Machine.attempts]
      rcases isMatch s p a start with ⟨skipped, skipped'⟩ | ⟨s', p', next, next', later⟩
      · rw [skipped, skipped']
        exact ih start
      · rw [next, next']
        rcases ih later with ⟨same, stillRelated⟩
        exact ⟨congrArg (a :: ·) same, stillRelated⟩

/-- An action which is possible is done when it is attempted, now or later. -/
theorem Commutes.mem_performed (commutes : machine.Commutes) {actions : List α}
    (next : machine.next s a = some t) (mem : a ∈ actions) : a ∈ machine.performed s actions := by
  induction actions generalizing s t with
  | nil => cases mem
  | cons b actions ih =>
      by_cases same : b = a
      · simp [performed, same, next]
      · have later : a ∈ actions := (List.mem_cons.mp mem).resolve_left (Ne.symm same)
        simp only [performed]
        cases nextB : machine.next s b with
        | none => exact ih next later
        | some u =>
            rcases commutes s a b t u (Ne.symm same) next nextB with ⟨v, -, stillPossible⟩
            exact List.mem_cons_of_mem _ (ih stillPossible later)

/-- What is left of a run after one of the possible actions. -/
theorem Commutes.after_next (commutes : machine.Commutes) {actions : List α}
    (next : machine.next s a = some t) (run : machine.run s actions = some u) :
    ∃ v, machine.run t (actions.erase a) = some v ∧ machine.run u ([a].diff actions) = some v := by
  induction actions generalizing s t with
  | nil =>
      cases run
      exact ⟨t, rfl, by simp [Machine.run, next]⟩
  | cons b actions ih =>
      rcases run_cons_eq_some run with ⟨w, nextB, rest⟩
      by_cases same : b = a
      · subst same
        rw [next] at nextB
        cases nextB
        exact ⟨u, by simpa using rest, by simp [Machine.run]⟩
      · rcases commutes s a b t w (Ne.symm same) next nextB with ⟨x, afterA, afterB⟩
        rcases ih afterB rest with ⟨v, left, added⟩
        refine ⟨v, ?_, ?_⟩
        · rw [List.erase_cons_tail (by simpa using same), run_cons afterA]
          exact left
        · rw [List.diff_cons, List.erase_of_not_mem (by simpa using same)]
          exact added

/-- Two runs can be continued to a common state, each by what only the other has done. -/
theorem Commutes.join (commutes : machine.Commutes) (run₁ : machine.run s first = some t)
    (run₂ : machine.run s second = some u) :
    ∃ v, machine.run t (second.diff first) = some v ∧
      machine.run u (first.diff second) = some v := by
  induction first generalizing s second u with
  | nil =>
      cases run₁
      exact ⟨u, by simpa using run₂, by simp [Machine.run]⟩
  | cons a first ih =>
      rcases run_cons_eq_some run₁ with ⟨w, next, rest⟩
      rcases commutes.after_next next run₂ with ⟨x, left, added⟩
      rcases ih rest left with ⟨v, first', second'⟩
      refine ⟨v, by simpa [List.diff_cons] using first', ?_⟩
      rw [List.cons_diff]
      split_ifs with mem
      · -- the other run has done this action too
        have done : [a].diff second = [] := by simp [List.cons_diff, mem]
        rw [done] at added
        cases added
        exact second'
      · have alone : [a].diff second = [a] := by simp [List.cons_diff, mem]
        rw [alone] at added
        rcases run_cons_eq_some added with ⟨y, nextA, isX⟩
        cases isX
        rw [run_cons nextA, ← List.erase_of_not_mem mem]
        exact second'

/-- Nothing is left of a run which has done less than another. -/
theorem diff_eq_nil_iff : second.diff first = [] ↔ second.Subperm first := by
  rw [List.subperm_ext_iff, List.eq_nil_iff_forall_not_mem]
  refine ⟨fun nothing a _ => ?_, fun le a mem => ?_⟩
  · have none := mt List.count_pos_iff.mp (nothing a)
    rw [List.count_diff] at none
    omega
  · have some := List.count_pos_iff.mpr mem
    have inSecond := le a (List.diff_subset _ _ mem)
    rw [List.count_diff] at some
    omega

/-- A run which has done less can be continued to the other. -/
theorem Commutes.continued (commutes : machine.Commutes) (run₁ : machine.run s first = some t)
    (run₂ : machine.run s second = some u) (less : second.Subperm first) :
    machine.run u (first.diff second) = some t := by
  rcases commutes.join run₁ run₂ with ⟨v, nothing, rest⟩
  rw [diff_eq_nil_iff.mpr less] at nothing
  cases nothing
  exact rest

/-- Runs which do the same actions in different orders end in the same state. -/
theorem Commutes.eq_of_perm (commutes : machine.Commutes) (run₁ : machine.run s first = some t)
    (run₂ : machine.run s second = some u) (perm : first.Perm second) : t = u := by
  have rest := commutes.continued run₁ run₂ perm.symm.subperm
  rw [diff_eq_nil_iff.mpr perm.subperm] at rest
  exact (Option.some.inj rest).symm

/-- No run does more than a run which cannot go on. -/
theorem Commutes.subperm_of_stuck (commutes : machine.Commutes)
    (run₁ : machine.run s first = some t) (run₂ : machine.run s second = some u)
    (stuck : machine.Stuck t) : second.Subperm first := by
  rcases commutes.join run₁ run₂ with ⟨v, rest, -⟩
  apply diff_eq_nil_iff.mp
  cases diff : second.diff first with
  | nil => rfl
  | cons a actions =>
      rw [diff] at rest
      rcases run_cons_eq_some rest with ⟨w, next, -⟩
      rw [stuck a] at next
      cases next

/-- Runs which cannot go on have done the same actions and are in the same state. -/
theorem Commutes.unique_stuck (commutes : machine.Commutes)
    (run₁ : machine.run s first = some t) (run₂ : machine.run s second = some u)
    (stuck₁ : machine.Stuck t) (stuck₂ : machine.Stuck u) : first.Perm second ∧ t = u := by
  have perm : first.Perm second := (commutes.subperm_of_stuck run₂ run₁ stuck₂).antisymm
    (commutes.subperm_of_stuck run₁ run₂ stuck₁)
  exact ⟨perm, commutes.eq_of_perm run₁ run₂ perm⟩

end Machine
