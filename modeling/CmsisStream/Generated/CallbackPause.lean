import CmsisStream.Generated.ScheduleLoop
import Mathlib.Data.Fin.Basic
import Mathlib.Data.List.Basic
import Mathlib.Data.List.Chain
import Mathlib.Data.Nat.Init
import Mathlib.Order.Lattice
import Mathlib.Tactic.SplitIfs

/-!
# Pauses in callback mode

Both schedulers are described by the number of positions of the schedule that are done and by
the iterations that the debug option leaves.  A pause changes the second number only.
-/

namespace CmsisStream.Generated

variable {n : ℕ} {config : Configuration} {schedule : Fin (n + 1) → Node}

/-! ## One pass -/

/-- The value of `cgStaticError` after the body of the loop. -/
def passError (config : Configuration) (node : Node) (attempt : Attempt) : ℤ :=
  if config.asynchronous then
    let cgStaticError := check config node attempt
    if cgStaticError = cgSkipExecution then 0
    else if cgStaticError < 0 then cgStaticError
    else runNode node attempt
  else runNode node attempt

/-- What the execution of a node returns, if it is not skipped. -/
def passRan (config : Configuration) (node : Node) (attempt : Attempt) : Option ℤ :=
  if config.asynchronous ∧ check config node attempt < 0 then none else some (runNode node attempt)

/-- What a completed execution returns. -/
def passDone (config : Configuration) (node : Node) (attempt : Attempt) : Option ℤ :=
  (passRan config node attempt).filter (· ≠ cgPausedScheduler)

def pauses (config : Configuration) (node : Node) (attempt : Attempt) : Bool :=
  passError config node attempt = cgPausedScheduler

theorem cgSkipExecution_neg : cgSkipExecution < 0 := by decide

theorem passError_neg_of_pauses {node : Node} {attempt : Attempt}
    (pause : pauses config node attempt) : passError config node attempt < 0 := by
  rw [pauses, decide_eq_true_eq] at pause
  rw [pause]
  decide

/-- The saved state when the loop pauses. -/
def Loop.saved (loop : Loop n) : CbState n where
  scheduleStateID := loop.id
  nbSched := loop.nbSchedule
  status := .paused
  running := .resumedExecution

theorem CbState.save_paused (callback : config.callback) (loop : Loop n) (cb : CbState n) :
    cb.save config loop cgPausedScheduler = loop.saved := by
  simp [save, callback, Loop.saved]

theorem CbState.save_status {cgStaticError : ℤ} (other : cgStaticError ≠ cgPausedScheduler)
    (loop : Loop n) (cb : CbState n) :
    (cb.save config loop cgStaticError).status = cb.status := by
  simp only [save, if_neg other]
  split <;> rfl

section

variable {loop : Loop n} {attempt : Attempt} {result : Pass n × CbState n}

theorem BodyCase.id (case : BodyCase config schedule loop attempt result) :
    result.1.id = loop.id := by
  cases case <;> rfl

theorem BodyCase.cgStaticError (case : BodyCase config schedule loop attempt result) :
    result.1.cgStaticError = passError config (schedule loop.id) attempt := by
  cases case with
  | skipped asynchronous skip => simp [passError, checkPass, asynchronous, skip]
  | refused asynchronous notSkip negative =>
      simp [passError, checkPass, asynchronous, notSkip, negative]
  | accepted asynchronous nonnegative =>
      have notSkip : check config (schedule loop.id) attempt ≠ cgSkipExecution :=
        (lt_of_lt_of_le cgSkipExecution_neg nonnegative).ne'
      simp [passError, runPass, asynchronous, notSkip, not_lt.mpr nonnegative]
  | synchronous synchronous => simp [passError, runPass, synchronous]

theorem BodyCase.ran (case : BodyCase config schedule loop attempt result) :
    result.1.ran = passRan config (schedule loop.id) attempt := by
  cases case with
  | skipped asynchronous skip =>
      simp [passRan, checkPass, asynchronous, skip, cgSkipExecution_neg]
  | refused asynchronous notSkip negative => simp [passRan, checkPass, asynchronous, negative]
  | accepted asynchronous nonnegative => simp [passRan, runPass, not_lt.mpr nonnegative]
  | synchronous synchronous => simp [passRan, runPass, synchronous]

theorem BodyCase.completed? (case : BodyCase config schedule loop attempt result) :
    result.1.completed? = (passDone config (schedule loop.id) attempt).map (loop.id, ·) := by
  rw [Pass.completed?, case.ran, case.id, passDone]
  cases passRan config (schedule loop.id) attempt with
  | none => rfl
  | some value => by_cases paused : value = cgPausedScheduler <;> simp [paused]

/-- A pause saves the position and the number of iterations. -/
theorem BodyCase.cb_of_pauses (case : BodyCase config schedule loop attempt result)
    (callback : config.callback) (pause : pauses config (schedule loop.id) attempt) :
    result.2 = loop.saved := by
  rw [pauses, decide_eq_true_eq, ← case.cgStaticError] at pause
  cases case with
  | skipped =>
      change (0 : ℤ) = cgPausedScheduler at pause
      exact absurd pause (by decide)
  | refused =>
      change check config (schedule loop.id) attempt = cgPausedScheduler at pause
      simp only [pause, CbState.save_paused callback]
  | accepted | synchronous =>
      change runNode (schedule loop.id) attempt = cgPausedScheduler at pause
      simp only [runPass, pause, CbState.save_paused callback]

theorem BodyCase.status (case : BodyCase config schedule loop attempt result)
    (noPause : ¬ pauses config (schedule loop.id) attempt) :
    result.2.status = loop.cb.status := by
  rw [pauses, decide_eq_true_eq, ← case.cgStaticError] at noPause
  cases case with
  | skipped => rfl
  | refused => exact CbState.save_status noPause _ _
  | accepted asynchronous nonnegative =>
      have notPaused : check config (schedule loop.id) attempt ≠ cgPausedScheduler := by
        intro eq
        rw [eq] at nonnegative
        exact absurd nonnegative (by decide)
      exact (CbState.save_status noPause _ _).trans (CbState.save_status notPaused _ _)
  | synchronous => exact CbState.save_status noPause _ _

end

/-! ## The position in the schedule -/

/-- The position reached when some positions are done. -/
def position (n count : ℕ) : Fin (n + 1) := ⟨count % (n + 1), Nat.mod_lt _ n.succ_pos⟩

/-- The loop when some positions are done, and the iterations that the debug option leaves. -/
structure At (count left : ℕ) (loop : Loop n) : Prop where
  id : loop.id = position n count
  nbSchedule : loop.nbSchedule = count / (n + 1)
  debugCounter : loop.debugCounter = left
  status : loop.cb.status ≠ .paused

theorem startIteration_at {count left : ℕ} {cb : CbState n} (first : count % (n + 1) = 0)
    (status : cb.status ≠ .paused) :
    At count left (startIteration (count / (n + 1)) left cb) := by
  rw [startIteration, if_neg status]
  exact ⟨Fin.ext first.symm, rfl, rfl, status⟩

theorem enter_init_at : At 0 config.debugLimit (enter config (initCbState : CbState n)) :=
  ⟨rfl, (Nat.zero_div _).symm, rfl, nofun⟩

/-- After a pause the scheduler starts again at the position which paused. -/
theorem At.enter {count left : ℕ} {loop : Loop n} (at_ : At count left loop) :
    At count config.debugLimit (enter config loop.saved) :=
  ⟨at_.id, at_.nbSchedule, rfl, nofun⟩

theorem mod_lt_iff {count : ℕ} : count % (n + 1) < n ↔ (count + 1) % (n + 1) ≠ 0 := by
  have lt : count % (n + 1) < n + 1 := Nat.mod_lt _ n.succ_pos
  rw [← Nat.mod_add_mod]
  constructor
  · intro inside
    rw [Nat.mod_eq_of_lt (Nat.succ_lt_succ inside)]
    exact Nat.succ_ne_zero _
  · intro next
    by_contra outside
    have last : count % (n + 1) = n := by omega
    rw [last, Nat.mod_self] at next
    exact next rfl

/-- The loop after a position which is not the last of the schedule. -/
theorem At.next {count left : ℕ} {loop : Loop n} (at_ : At count left loop)
    (inside : (count + 1) % (n + 1) ≠ 0) {cb : CbState n} (status : cb.status ≠ .paused) :
    At (count + 1) left
      { id := loop.id + 1, nbSchedule := count / (n + 1), debugCounter := left, cb := cb } := by
  have lt := mod_lt_iff.mpr inside
  refine ⟨?_, (Nat.succ_div_of_mod_ne_zero inside).symm, rfl, status⟩
  apply Fin.ext
  simp only [at_.id, position, Fin.val_add_one]
  rw [if_neg (fun last => lt.ne (Fin.ext_iff.mp last)), ← Nat.mod_add_mod,
    Nat.mod_eq_of_lt (Nat.succ_lt_succ lt)]

theorem At.lt_last {count left : ℕ} {loop : Loop n} (at_ : At count left loop) :
    loop.id < Fin.last n ↔ (count + 1) % (n + 1) ≠ 0 := by
  rw [at_.id, Fin.lt_def]
  exact mod_lt_iff

/-! ## The run by its positions -/

/-- A pass which does not pause, and what follows when the debug option leaves some
iterations. -/
def proceed (config : Configuration) (schedule : Fin (n + 1) → Node) (count left : ℕ)
    (attempt : Attempt) (rest : ℕ → List (Fin (n + 1) × ℤ) × Option (ℤ × ℕ)) :
    List (Fin (n + 1) × ℤ) × Option (ℤ × ℕ) :=
  let node := schedule (position n count)
  let cgStaticError := passError config node attempt
  let done := (passDone config node attempt).toList.map (position n count, ·)
  if cgStaticError < 0 then (done, some (cgStaticError, count / (n + 1)))
  else if (count + 1) % (n + 1) ≠ 0 then (done ++ (rest left).1, (rest left).2)
  else if cgStaticError = 0 ∧ (config.debug → 1 < left) then
    (done ++ (rest (left - 1)).1, (rest (left - 1)).2)
  else (done, some (cgStaticError, (count + 1) / (n + 1)))

/-- The executions and the report of a run when some positions are done, some iterations are left
by the debug option, and a pause gives all of them back. -/
def countRun (config : Configuration) (schedule : Fin (n + 1) → Node) :
    ℕ → ℕ → List Attempt → List (Fin (n + 1) × ℤ) × Option (ℤ × ℕ)
  | _, _, [] => ([], none)
  | count, left, attempt :: attempts =>
      if config.callback ∧ pauses config (schedule (position n count)) attempt then
        countRun config schedule count config.debugLimit attempts
      else proceed config schedule count left attempt fun left =>
        countRun config schedule (count + 1) left attempts

theorem passDone_of_pauses {node : Node} {attempt : Attempt}
    (pause : pauses config node attempt) : passDone config node attempt = none := by
  have negative := passError_neg_of_pauses pause
  rw [pauses, decide_eq_true_eq] at pause
  simp only [passDone, passRan]
  split_ifs with refused
  · rfl
  · have ran : passError config node attempt = runNode node attempt := by
      simp only [passError] at negative ⊢
      split_ifs with asynchronous skip checked
      · simp [asynchronous, skip] at negative
      · exact absurd ⟨asynchronous, checked⟩ refused
      · rfl
      · rfl
    rw [← ran, pause]
    rfl

/-- The completed executions of a run and its report. -/
def Run.result (run : Run n) : List (Fin (n + 1) × ℤ) × Option (ℤ × ℕ) :=
  (run.completed, run.report)

theorem Run.result_cons {pass : Pass n} {id : Fin (n + 1)} {done : Option ℤ}
    (completed : pass.completed? = done.map (id, ·)) (rest : Run n) :
    (rest.cons pass).result = (done.toList.map (id, ·) ++ rest.result.1, rest.result.2) := by
  simp only [result, Run.completed, cons, List.filterMap_cons, completed]
  cases done <;> rfl

theorem Run.result_last {pass : Pass n} {id : Fin (n + 1)} {done : Option ℤ}
    (completed : pass.completed? = done.map (id, ·)) (report : Option (ℤ × ℕ)) :
    ({ passes := [pass], report := report } : Run n).result =
      (done.toList.map (id, ·), report) := by
  simp only [result, Run.completed, List.filterMap_cons, List.filterMap_nil, completed]
  cases done <;> rfl

/-- The scheduler runs through the positions. -/
theorem run_eq_countRun {count left : ℕ} {loop : Loop n} (at_ : At count left loop)
    (attempts : List Attempt) :
    (run config schedule loop attempts).result = countRun config schedule count left attempts := by
  induction attempts generalizing count left loop with
  | nil => rfl
  | cons attempt attempts ih =>
      have case := bodyCase config schedule loop attempt
      simp only [run, step, countRun, proceed]
      generalize body config schedule loop attempt = result at case
      rcases result with ⟨pass, cb⟩
      have completed := case.completed?
      have error := case.cgStaticError
      have paused := case.cb_of_pauses
      have status := case.status
      simp only [at_.id] at completed error paused status
      simp only [error, at_.lt_last, at_.nbSchedule, at_.debugCounter]
      by_cases pause : pauses config (schedule (position n count)) attempt
      · have eq : passError config (schedule (position n count)) attempt = cgPausedScheduler :=
          of_decide_eq_true pause
        rw [if_pos (passError_neg_of_pauses pause)]
        by_cases callback : config.callback
        · rw [paused callback pause]
          simp only [eq, callback, pause, and_self, if_true]
          rw [Run.result_cons completed, passDone_of_pauses pause, ih at_.enter]
          rfl
        · simp only [callback, Bool.false_eq_true, false_and, if_false]
          rw [Run.result_last completed, if_pos (passError_neg_of_pauses pause)]
      · have ne : passError config (schedule (position n count)) attempt ≠ cgPausedScheduler :=
          fun eq => pause (decide_eq_true eq)
        have goesOn := (status pause).symm ▸ at_.status
        have noPause : ¬ (config.callback ∧
            pauses config (schedule (position n count)) attempt) := fun both => pause both.2
        rw [if_neg noPause]
        by_cases negative : passError config (schedule (position n count)) attempt < 0
        · simp only [if_pos negative, ne, and_false, if_false]
          exact Run.result_last completed _
        · simp only [if_neg negative]
          by_cases inside : (count + 1) % (n + 1) ≠ 0
          · simp only [if_pos inside]
            rw [Run.result_cons completed, ih (at_.next inside goesOn)]
          · have nbSchedule : (count + 1) / (n + 1) = count / (n + 1) + 1 :=
              Nat.succ_div_of_mod_eq_zero (not_not.mp inside)
            have left_ : 0 < left - 1 ↔ 1 < left := by omega
            simp only [if_neg inside, ← nbSchedule, left_]
            split_ifs with again
            · dsimp only
              rw [Run.result_cons completed, ih (startIteration_at (not_not.mp inside) goesOn)]
            · simp only [ne, and_false, if_false]
              exact Run.result_last completed _

/-! ## With and without the callback mode -/

def Configuration.withCallback (config : Configuration) (callback : Bool) : Configuration :=
  { config with callback := callback }

/-- The attempts without those which pause, from the position reached. -/
def completedAttempts (config : Configuration) (schedule : Fin (n + 1) → Node) :
    ℕ → List Attempt → List Attempt
  | _, [] => []
  | count, attempt :: attempts =>
      if pauses config (schedule (position n count)) attempt then
        completedAttempts config schedule count attempts
      else attempt :: completedAttempts config schedule (count + 1) attempts

/-- The numbers of positions done when an attempt pauses. -/
def pauseCounts (config : Configuration) (schedule : Fin (n + 1) → Node) :
    ℕ → List Attempt → List ℕ
  | _, [] => []
  | count, attempt :: attempts =>
      if pauses config (schedule (position n count)) attempt then
        count :: pauseCounts config schedule count attempts
      else pauseCounts config schedule (count + 1) attempts

/-- An attempt ends the scheduler, whatever the debug option says. -/
def endsScheduler (config : Configuration) (schedule : Fin (n + 1) → Node) (count : ℕ)
    (attempt : Attempt) : Prop :=
  let cgStaticError := passError config (schedule (position n count)) attempt
  cgStaticError < 0 ∨ ((count + 1) % (n + 1) = 0 ∧ cgStaticError ≠ 0)

/-- Some more positions are done and none of them ends the scheduler. -/
def Lasts (config : Configuration) (schedule : Fin (n + 1) → Node) :
    ℕ → ℕ → List Attempt → Prop
  | _, 0, _ => True
  | _, _ + 1, [] => False
  | count, more + 1, attempt :: attempts =>
      ¬ endsScheduler config schedule count attempt ∧
        Lasts config schedule (count + 1) more attempts

section

variable {count left : ℕ} {attempt : Attempt} {attempts : List Attempt}
  {rest : ℕ → List (Fin (n + 1) × ℤ) × Option (ℤ × ℕ)}

theorem countRun_of_pauses (pause : pauses config (schedule (position n count)) attempt) :
    countRun (config.withCallback true) schedule count left (attempt :: attempts) =
      countRun (config.withCallback true) schedule count config.debugLimit attempts :=
  if_pos ⟨rfl, pause⟩

theorem countRun_of_not_pauses
    (noPause : ¬ pauses config (schedule (position n count)) attempt) :
    countRun (config.withCallback true) schedule count left (attempt :: attempts) =
      proceed config schedule count left attempt fun left =>
        countRun (config.withCallback true) schedule (count + 1) left attempts :=
  if_neg fun both => noPause both.2

theorem countRun_withoutCallback :
    countRun (config.withCallback false) schedule count left (attempt :: attempts) =
      proceed config schedule count left attempt fun left =>
        countRun (config.withCallback false) schedule (count + 1) left attempts :=
  if_neg fun both => Bool.false_ne_true both.1

/-- The report of an attempt which ends the scheduler. -/
theorem proceed_of_ends (ends : endsScheduler config schedule count attempt) :
    ∃ error iterations, (error ≠ 0) ∧ ∀ left rest,
      proceed config schedule count left attempt rest =
        ((passDone config (schedule (position n count)) attempt).toList.map (position n count, ·),
          some (error, iterations)) := by
  by_cases negative : passError config (schedule (position n count)) attempt < 0
  · exact ⟨_, _, negative.ne, fun left rest => if_pos negative⟩
  · rcases ends.resolve_left negative with ⟨last, nonzero⟩
    refine ⟨_, (count + 1) / (n + 1), nonzero, fun left rest => ?_⟩
    simp only [proceed]
    rw [if_neg negative, if_neg (not_not.mpr last), if_neg (fun both => nonzero both.1)]

theorem proceed_inside (noEnd : ¬ endsScheduler config schedule count attempt)
    (inside : (count + 1) % (n + 1) ≠ 0) :
    proceed config schedule count left attempt rest =
      ((passDone config (schedule (position n count)) attempt).toList.map (position n count, ·) ++
        (rest left).1, (rest left).2) := by
  simp only [proceed]
  rw [if_neg (fun negative => noEnd (.inl negative)), if_pos inside]

theorem proceed_last (noEnd : ¬ endsScheduler config schedule count attempt)
    (last : (count + 1) % (n + 1) = 0) :
    proceed config schedule count left attempt rest =
      let done :=
        (passDone config (schedule (position n count)) attempt).toList.map (position n count, ·)
      if config.debug → 1 < left then (done ++ (rest (left - 1)).1, (rest (left - 1)).2)
      else (done, some (0, (count + 1) / (n + 1))) := by
  have zero : passError config (schedule (position n count)) attempt = 0 :=
    by_contra fun nonzero => noEnd (.inr ⟨last, nonzero⟩)
  simp only [proceed, zero, lt_irrefl, if_false, last, ne_eq, not_true_eq_false, true_and]

end

variable (config schedule)

/-- The two schedulers do the same as long as the debug option tells them the same. -/
theorem countRun_eq (agree : ℕ → ℕ → ℕ → List Attempt → Prop)
    (pause : ∀ count left left' attempt attempts, agree count left left' (attempt :: attempts) →
      pauses config (schedule (position n count)) attempt →
      agree count config.debugLimit left' attempts)
    (inside : ∀ count left left' attempt attempts, agree count left left' (attempt :: attempts) →
      ¬ pauses config (schedule (position n count)) attempt →
      ¬ endsScheduler config schedule count attempt → (count + 1) % (n + 1) ≠ 0 →
      agree (count + 1) left left' attempts)
    (last : ∀ count left left' attempt attempts, agree count left left' (attempt :: attempts) →
      ¬ pauses config (schedule (position n count)) attempt →
      ¬ endsScheduler config schedule count attempt → (count + 1) % (n + 1) = 0 →
      ((config.debug → 1 < left) ↔ (config.debug → 1 < left')) ∧
        ((config.debug → 1 < left') → agree (count + 1) (left - 1) (left' - 1) attempts))
    {count left left' : ℕ} {attempts : List Attempt} (start : agree count left left' attempts) :
    countRun (config.withCallback true) schedule count left attempts =
      countRun (config.withCallback false) schedule count left'
        (completedAttempts config schedule count attempts) := by
  induction attempts generalizing count left left' with
  | nil => rfl
  | cons attempt attempts ih =>
      by_cases paused : pauses config (schedule (position n count)) attempt
      · rw [countRun_of_pauses paused, completedAttempts, if_pos paused]
        exact ih (pause _ _ _ _ _ start paused)
      · rw [completedAttempts, if_neg paused, countRun_of_not_pauses paused,
          countRun_withoutCallback]
        by_cases ends : endsScheduler config schedule count attempt
        · rcases proceed_of_ends ends with ⟨error, iterations, -, result⟩
          rw [result, result]
        · by_cases within : (count + 1) % (n + 1) ≠ 0
          · rw [proceed_inside ends within, proceed_inside ends within,
              ih (inside _ _ _ _ _ start paused ends within)]
          · rcases last _ _ _ _ _ start paused ends (not_not.mp within) with ⟨same, again⟩
            rw [proceed_last ends (not_not.mp within), proceed_last ends (not_not.mp within)]
            simp only [same]
            split_ifs with more
            · rw [ih (again more)]
            · rfl

/-- Without debug option the pauses change nothing. -/
theorem countRun_eq_of_not_debug (noDebug : ¬ config.debug) {count left left' : ℕ}
    (attempts : List Attempt) :
    countRun (config.withCallback true) schedule count left attempts =
      countRun (config.withCallback false) schedule count left'
        (completedAttempts config schedule count attempts) := by
  apply countRun_eq config schedule fun _ _ _ _ => True
  · intros
    trivial
  · intros
    trivial
  · intros
    simp [noDebug]
  · trivial

variable {config schedule}

/-- The iterations left after the last position of an iteration. -/
theorem left_of_last {count : ℕ} (last : (count + 1) % (n + 1) = 0)
    (lt : count + 1 < config.debugLimit * (n + 1)) :
    1 < config.debugLimit - count / (n + 1) ∧
      config.debugLimit - (count + 1) / (n + 1) = config.debugLimit - count / (n + 1) - 1 := by
  have next := Nat.succ_div_of_mod_eq_zero last
  have less : (count + 1) / (n + 1) < config.debugLimit :=
    Nat.div_lt_of_lt_mul (Nat.mul_comm _ _ ▸ lt)
  omega

theorem succ_lt_of_inside {count : ℕ} (inside : (count + 1) % (n + 1) ≠ 0)
    (lt : count < config.debugLimit * (n + 1)) : count + 1 < config.debugLimit * (n + 1) := by
  refine Nat.lt_of_le_of_ne (n := count + 1) lt fun eq => ?_
  rw [eq, Nat.mul_mod_left] at inside
  exact inside rfl

theorem debug_of_lt {count : ℕ} (lt : count < config.debugLimit * (n + 1)) : config.debug :=
  decide_eq_true (Nat.pos_of_mul_pos_right (Nat.zero_lt_of_lt lt))

theorem sub_of_lt {count limit : ℕ} (lt : count < limit) :
    limit - count = limit - (count + 1) + 1 := by
  omega

/-- The pauses change nothing when the completed attempts end the scheduler before the debug
option does. -/
theorem countRun_eq_of_not_lasts {attempts : List Attempt} {count left : ℕ}
    (lt : count < config.debugLimit * (n + 1))
    (enough : config.debugLimit - count / (n + 1) ≤ left)
    (short : ¬ Lasts config schedule count (config.debugLimit * (n + 1) - count)
      (completedAttempts config schedule count attempts)) :
    countRun (config.withCallback true) schedule count left attempts =
      countRun (config.withCallback false) schedule count (config.debugLimit - count / (n + 1))
        (completedAttempts config schedule count attempts) := by
  apply countRun_eq config schedule fun count left left' attempts =>
    count < config.debugLimit * (n + 1) ∧ left' = config.debugLimit - count / (n + 1) ∧
      left' ≤ left ∧ ¬ Lasts config schedule count (config.debugLimit * (n + 1) - count)
        (completedAttempts config schedule count attempts)
  · rintro count left left' attempt attempts ⟨lt, rfl, enough, short⟩ paused
    rw [completedAttempts, if_pos paused] at short
    exact ⟨lt, rfl, Nat.sub_le _ _, short⟩
  · rintro count left left' attempt attempts ⟨lt, rfl, enough, short⟩ noPause noEnd inside
    rw [completedAttempts, if_neg noPause, sub_of_lt lt] at short
    have div := Nat.succ_div_of_mod_ne_zero inside
    exact ⟨succ_lt_of_inside inside lt, by rw [div], enough, fun lasts => short ⟨noEnd, lasts⟩⟩
  · rintro count left left' attempt attempts ⟨lt, rfl, enough, short⟩ noPause noEnd last
    rw [completedAttempts, if_neg noPause, sub_of_lt lt] at short
    have notLast : count + 1 < config.debugLimit * (n + 1) := by
      refine Nat.lt_of_le_of_ne (n := count + 1) lt fun eq => ?_
      rw [eq, Nat.sub_self] at short
      exact short ⟨noEnd, trivial⟩
    rcases left_of_last last notLast with ⟨more, next⟩
    refine ⟨by simp only [more, more.trans_le enough], fun _ => ⟨notLast, next.symm, ?_, ?_⟩⟩
    · exact Nat.sub_le_sub_right enough 1
    · exact fun lasts => short ⟨noEnd, lasts⟩
  · exact ⟨lt, rfl, enough, short⟩

/-- The pauses change nothing when they are all in the first iteration. -/
theorem countRun_eq_of_no_late_pause {attempts : List Attempt} {count : ℕ}
    (lt : count < config.debugLimit * (n + 1))
    (early : ∀ c ∈ pauseCounts config schedule count attempts,
      c < n + 1 ∨ config.debugLimit * (n + 1) ≤ c) :
    countRun (config.withCallback true) schedule count (config.debugLimit - count / (n + 1))
        attempts =
      countRun (config.withCallback false) schedule count (config.debugLimit - count / (n + 1))
        (completedAttempts config schedule count attempts) := by
  apply countRun_eq config schedule fun count left left' attempts =>
    count < config.debugLimit * (n + 1) ∧ left = config.debugLimit - count / (n + 1) ∧
      left' = left ∧ ∀ c ∈ pauseCounts config schedule count attempts,
        c < n + 1 ∨ config.debugLimit * (n + 1) ≤ c
  · rintro count left left' attempt attempts ⟨lt, rfl, rfl, early⟩ paused
    rw [pauseCounts, if_pos paused, List.forall_mem_cons] at early
    have first : count / (n + 1) = 0 :=
      Nat.div_eq_of_lt (early.1.resolve_right (Nat.not_le.mpr lt))
    refine ⟨lt, ?_, ?_, early.2⟩ <;> rw [first, Nat.sub_zero]
  · rintro count left left' attempt attempts ⟨lt, rfl, rfl, early⟩ noPause noEnd inside
    rw [pauseCounts, if_neg noPause] at early
    exact ⟨succ_lt_of_inside inside lt, by rw [Nat.succ_div_of_mod_ne_zero inside], rfl, early⟩
  · rintro count left left' attempt attempts ⟨lt, rfl, rfl, early⟩ noPause noEnd last
    rw [pauseCounts, if_neg noPause] at early
    refine ⟨Iff.rfl, fun more => ?_⟩
    have next := Nat.succ_div_of_mod_eq_zero last
    have less : (count + 1) / (n + 1) < config.debugLimit := by
      have := more (debug_of_lt lt)
      omega
    refine ⟨?_, by omega, rfl, early⟩
    rw [← Nat.div_mul_cancel (Nat.dvd_of_mod_eq_zero last)]
    exact Nat.mul_lt_mul_of_pos_right less n.succ_pos
  · exact ⟨lt, rfl, rfl, early⟩

/-! ## When the debug option ends the two schedulers at different times -/

/-- The last position of the last iteration that the debug option allows. -/
theorem last_of_eq_limit {count : ℕ} (eq : count + 1 = config.debugLimit * (n + 1)) :
    (count + 1) % (n + 1) = 0 ∧ (count + 1) / (n + 1) = config.debugLimit ∧
      config.debugLimit - count / (n + 1) = 1 := by
  have last : (count + 1) % (n + 1) = 0 := by rw [eq, Nat.mul_mod_left]
  have next := Nat.succ_div_of_mod_eq_zero last
  have div : (count + 1) / (n + 1) = config.debugLimit := by
    rw [eq, Nat.mul_div_cancel _ n.succ_pos]
  exact ⟨last, div, by omega⟩

/-- Without callback mode the debug option stops the scheduler after its iterations. -/
theorem report_of_lasts {attempts : List Attempt} {count : ℕ}
    (lt : count < config.debugLimit * (n + 1))
    (lasts : Lasts config schedule count (config.debugLimit * (n + 1) - count) attempts) :
    (countRun (config.withCallback false) schedule count (config.debugLimit - count / (n + 1))
      attempts).2 = some (0, config.debugLimit) := by
  induction attempts generalizing count with
  | nil =>
      rw [sub_of_lt lt] at lasts
      exact lasts.elim
  | cons attempt attempts ih =>
      rw [sub_of_lt lt] at lasts
      rw [countRun_withoutCallback]
      by_cases inside : (count + 1) % (n + 1) ≠ 0
      · rw [proceed_inside lasts.1 inside, ← Nat.succ_div_of_mod_ne_zero inside]
        exact ih (succ_lt_of_inside inside lt) lasts.2
      · have last := not_not.mp inside
        rw [proceed_last lasts.1 last]
        by_cases again : count + 1 < config.debugLimit * (n + 1)
        · rcases left_of_last last again with ⟨more, next⟩
          rw [if_pos (fun _ => more), ← next]
          exact ih again lasts.2
        · rcases last_of_eq_limit (Nat.le_antisymm lt (Nat.not_lt.mp again)) with ⟨-, div, one⟩
          rw [one, if_neg (fun more => Nat.lt_irrefl 1 (more (debug_of_lt lt))), div]

/-- After the iterations that the debug option allows, a report is a different one. -/
theorem report_ne_of_limit_le {attempts : List Attempt} {count left : ℕ}
    (le : config.debugLimit * (n + 1) ≤ count) :
    (countRun (config.withCallback true) schedule count left attempts).2 ≠
      some (0, config.debugLimit) := by
  induction attempts generalizing count left with
  | nil => nofun
  | cons attempt attempts ih =>
      by_cases paused : pauses config (schedule (position n count)) attempt
      · rw [countRun_of_pauses paused]
        exact ih le
      · rw [countRun_of_not_pauses paused]
        by_cases ends : endsScheduler config schedule count attempt
        · rcases proceed_of_ends ends with ⟨error, iterations, nonzero, result⟩
          rw [result]
          intro same
          cases same
          exact nonzero rfl
        · by_cases inside : (count + 1) % (n + 1) ≠ 0
          · rw [proceed_inside ends inside]
            exact ih (le.trans (Nat.le_succ _))
          · rw [proceed_last ends (not_not.mp inside)]
            dsimp only
            split_ifs with more
            · exact ih (le.trans (Nat.le_succ _))
            · intro same
              simp only [Option.some.injEq, Prod.mk.injEq, true_and] at same
              have whole := Nat.div_mul_cancel (Nat.dvd_of_mod_eq_zero (not_not.mp inside))
              rw [same] at whole
              omega

theorem le_of_mem_pauseCounts {attempts : List Attempt} {count c : ℕ}
    (mem : c ∈ pauseCounts config schedule count attempts) : count ≤ c := by
  induction attempts generalizing count with
  | nil => cases mem
  | cons attempt attempts ih =>
      rw [pauseCounts] at mem
      split at mem
      · rcases List.mem_cons.mp mem with rfl | later
        · exact Nat.le_refl _
        · exact ih later
      · exact (Nat.le_succ _).trans (ih mem)

/-- A pause after the first iteration gives iterations back, and the scheduler is not stopped
where it would be without pauses. -/
theorem report_ne_of_late_pause {attempts : List Attempt} {count left : ℕ}
    (lt : count < config.debugLimit * (n + 1))
    (enough : config.debugLimit - count / (n + 1) ≤ left) (room : left ≤ config.debugLimit)
    (lasts : Lasts config schedule count (config.debugLimit * (n + 1) - count)
      (completedAttempts config schedule count attempts))
    (late : config.debugLimit - count / (n + 1) < left ∨
      ∃ c ∈ pauseCounts config schedule count attempts,
        n + 1 ≤ c ∧ c < config.debugLimit * (n + 1)) :
    (countRun (config.withCallback true) schedule count left attempts).2 ≠
      some (0, config.debugLimit) := by
  induction attempts generalizing count left with
  | nil => nofun
  | cons attempt attempts ih =>
      by_cases paused : pauses config (schedule (position n count)) attempt
      · rw [countRun_of_pauses paused]
        rw [completedAttempts, if_pos paused] at lasts
        rw [pauseCounts, if_pos paused, List.exists_mem_cons_iff] at late
        refine ih lt (Nat.sub_le _ _) (Nat.le_refl _) lasts ?_
        rcases late with less | ⟨first, -⟩ | later
        · exact .inl (less.trans_le room)
        · left
          have done := Nat.div_pos first n.succ_pos
          have positive := of_decide_eq_true (debug_of_lt lt)
          omega
        · exact .inr later
      · rw [countRun_of_not_pauses paused]
        rw [completedAttempts, if_neg paused, sub_of_lt lt] at lasts
        rw [pauseCounts, if_neg paused] at late
        by_cases inside : (count + 1) % (n + 1) ≠ 0
        · rw [proceed_inside lasts.1 inside]
          have div := Nat.succ_div_of_mod_ne_zero inside
          rw [← div] at enough late
          exact ih (succ_lt_of_inside inside lt) enough room lasts.2 late
        · have last := not_not.mp inside
          rw [proceed_last lasts.1 last]
          by_cases again : count + 1 < config.debugLimit * (n + 1)
          · rcases left_of_last last again with ⟨more, next⟩
            rw [if_pos (fun _ => more.trans_le enough)]
            refine ih again (by omega) (by omega) lasts.2 ?_
            exact late.imp (by omega) id
          · have eq := Nat.le_antisymm lt (Nat.not_lt.mp again)
            rcases last_of_eq_limit eq with ⟨-, -, one⟩
            have more : 1 < left := by
              rcases late with less | ⟨c, mem, -, less⟩
              · omega
              · have after := le_of_mem_pauseCounts mem
                omega
            rw [if_pos (fun _ => more)]
            exact report_ne_of_limit_le (Nat.le_of_eq eq.symm)

/-! ## Transparency -/

/-- A paused position is executed again first. -/
def ExecutedAgain (passes : List (Pass n)) : Prop :=
  passes.IsChain fun pass next => pass.cgStaticError = cgPausedScheduler → next.id = pass.id

/-- The calls of the callback scheduler which are cut by the pauses do the same as one run of the
scheduler without callback mode, whose nodes do not pause. -/
structure Transparent (config : Configuration) (schedule : Fin (n + 1) → Node)
    (attempts : List Attempt) : Prop where
  completed : (scheduler (config.withCallback true) schedule attempts).completed =
    (scheduler (config.withCallback false) schedule
      (completedAttempts config schedule 0 attempts)).completed
  report : (scheduler (config.withCallback true) schedule attempts).report =
    (scheduler (config.withCallback false) schedule
      (completedAttempts config schedule 0 attempts)).report
  again : ExecutedAgain (scheduler (config.withCallback true) schedule attempts).passes

theorem scheduler_result (callback : Bool) (attempts : List Attempt) :
    (scheduler (config.withCallback callback) schedule attempts).result =
      countRun (config.withCallback callback) schedule 0 config.debugLimit attempts :=
  run_eq_countRun enter_init_at attempts

/-- The first pass of a run and what follows. -/
theorem run_passes_cons (loop : Loop n) (attempt : Attempt) (attempts : List Attempt) :
    (run config schedule loop (attempt :: attempts)).passes =
      (body config schedule loop attempt).1 ::
        match (step config schedule loop attempt).2 with
        | .inside loop => (run config schedule loop attempts).passes
        | .returned error _ cb =>
            if config.callback ∧ error = cgPausedScheduler then
              (run config schedule (enter config cb) attempts).passes
            else [] := by
  simp only [run]
  have pass : (step config schedule loop attempt).1 = (body config schedule loop attempt).1 := rfl
  rw [← pass]
  rcases step config schedule loop attempt with ⟨pass, loop | ⟨error, iterations, cb⟩⟩
  · rfl
  · dsimp only
    split <;> rfl

theorem run_head_id {loop : Loop n} {attempts : List Attempt} {pass : Pass n}
    (head : pass ∈ (run config schedule loop attempts).passes.head?) : pass.id = loop.id := by
  cases attempts with
  | nil => cases head
  | cons attempt attempts =>
      rw [run_passes_cons, List.head?_cons, Option.mem_some_iff] at head
      rw [← head]
      exact (bodyCase config schedule loop attempt).id

theorem run_executedAgain (callback : config.callback) {loop : Loop n} (attempts : List Attempt) :
    ExecutedAgain (run config schedule loop attempts).passes := by
  induction attempts generalizing loop with
  | nil => exact List.IsChain.nil
  | cons attempt attempts ih =>
      have case := bodyCase config schedule loop attempt
      rw [run_passes_cons, ExecutedAgain, List.isChain_cons]
      constructor
      · intro next head pause
        have paused : pauses config (schedule loop.id) attempt := by
          rw [pauses, decide_eq_true_eq, ← case.cgStaticError, pause]
        have saved := case.cb_of_pauses callback paused
        simp only [step, pause, saved] at head
        rw [if_pos (by decide)] at head
        simp only [callback, and_self, if_true] at head
        rw [run_head_id head, case.id]
        rfl
      · split
        · exact ih
        · split
          · exact ih
          · exact List.IsChain.nil

/-- Pauses are transparent exactly when the scheduler has no debug limit, or ends before the
limit, or does not pause between the end of its first iteration and the limit. -/
theorem transparent_iff (config : Configuration) (schedule : Fin (n + 1) → Node)
    (attempts : List Attempt) :
    Transparent config schedule attempts ↔
      ¬ config.debug ∨
      ¬ Lasts config schedule 0 (config.debugLimit * (n + 1))
        (completedAttempts config schedule 0 attempts) ∨
      ∀ c ∈ pauseCounts config schedule 0 attempts,
        c < n + 1 ∨ config.debugLimit * (n + 1) ≤ c := by
  constructor
  · intro transparent
    by_contra fails
    rw [not_or, not_or, not_not, not_not] at fails
    rcases fails with ⟨debug, lasts, late⟩
    simp only [not_forall, not_or, Nat.not_lt, Nat.not_le] at late
    rcases late with ⟨c, mem, first, limit⟩
    have start : 0 < config.debugLimit * (n + 1) := Nat.zero_lt_of_lt limit
    have plain : (scheduler (config.withCallback false) schedule
        (completedAttempts config schedule 0 attempts)).report = some (0, config.debugLimit) := by
      refine (congrArg Prod.snd (scheduler_result false _)).trans ?_
      simpa using report_of_lasts start lasts
    have paused : (scheduler (config.withCallback true) schedule attempts).report ≠
        some (0, config.debugLimit) := by
      intro report
      have late := report_ne_of_late_pause start (Nat.sub_le _ _) (Nat.le_refl _) lasts
        (.inr ⟨c, mem, first, limit⟩)
      exact late ((congrArg Prod.snd (scheduler_result true attempts)).symm.trans report)
    exact paused (transparent.report.trans plain)
  · intro condition
    have same : (scheduler (config.withCallback true) schedule attempts).result =
        (scheduler (config.withCallback false) schedule
          (completedAttempts config schedule 0 attempts)).result := by
      rw [scheduler_result, scheduler_result]
      by_cases debug : config.debug
      · have limit : 0 < config.debugLimit * (n + 1) :=
          Nat.mul_pos (of_decide_eq_true debug) n.succ_pos
        rcases condition with noDebug | short | early
        · exact absurd debug noDebug
        · simpa using countRun_eq_of_not_lasts limit (by simp) short
        · simpa using countRun_eq_of_no_late_pause limit early
      · exact countRun_eq_of_not_debug config schedule debug attempts
    exact ⟨congrArg Prod.fst same, congrArg Prod.snd same, run_executedAgain rfl attempts⟩

/-- Two iterations of one node, which pauses in the second one. -/
def secondIterationPauses : List Attempt :=
  [⟨true, 0, 0⟩, ⟨true, 0, -9⟩, ⟨true, 0, 0⟩, ⟨true, 0, 0⟩]

/-- The debug counter is not saved: the scheduler runs three iterations instead of two. -/
theorem secondIterationPauses_not_transparent :
    ¬ Transparent (n := 0)
      { callback := true, asynchronous := false, asyncDefaultSkip := true, debugLimit := 2 }
      (fun _ => { codeID := 0, isPureNode := false }) secondIterationPauses := by
  intro transparent
  have three : some ((0 : ℤ), 3) = some (0, 2) := transparent.report
  cases three

end CmsisStream.Generated
