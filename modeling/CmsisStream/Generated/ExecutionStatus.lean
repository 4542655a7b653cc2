import CmsisStream.Generated.CallbackPause

/-!
# The execution status seen by the nodes in callback mode

`cb_state.running` is shared by all the nodes.  The asynchronous check of a position resets it
before the node is run, and a skipped position leaves it as it is.
-/

namespace CmsisStream.Generated

variable {n : ℕ} {config : Configuration} {schedule : Fin (n + 1) → Node}

/-- The loop in which the scheduler goes on, possibly in its next call. -/
def Outcome.loop (config : Configuration) : Outcome n → Loop n
  | .inside loop => loop
  | .returned _ _ cb => enter config cb

/-- The passes of successive calls of the scheduler, whatever each call returns. -/
def passes (config : Configuration) (schedule : Fin (n + 1) → Node) :
    Loop n → List Attempt → List (Pass n)
  | _, [] => []
  | loop, attempt :: attempts =>
      let (pass, outcome) := step config schedule loop attempt
      pass :: passes config schedule (outcome.loop config) attempts

/-- A pass executes again the position which paused in the previous call. -/
def Pass.Resumes (previous : Option (Pass n)) (pass : Pass n) : Prop :=
  ∃ paused ∈ previous, paused.cgStaticError = cgPausedScheduler ∧ pass.id = paused.id

/-- The status in force is `kResumedExecution` in the functions of a node which is executed again,
and `kNewExecution` in the others. -/
def StatusRight : Option (Pass n) → List (Pass n) → Prop
  | _, [] => True
  | previous, pass :: passes =>
      (∀ call ∈ pass.calls, call.2 = .resumedExecution ↔ pass.Resumes previous) ∧
        StatusRight (some pass) passes

/-- What has happened since the last pause. -/
inductive SincePause where
  | none
  | paused
  /-- The position which paused was executed again and skipped, as were those after it. -/
  | skipped
deriving DecidableEq

def skips (config : Configuration) (node : Node) (attempt : Attempt) : Bool :=
  config.asynchronous && check config node attempt = cgSkipExecution

def SincePause.next (config : Configuration) (since : SincePause) (pass : Pass n) : SincePause :=
  if pauses config pass.node pass.attempt then .paused
  else if since ≠ .none ∧ skips config pass.node pass.attempt then .skipped
  else .none

/-- A node object which is executed again does not accept to run, and no node object is checked
while the positions are skipped after that. -/
def KeepsStatus (config : Configuration) : SincePause → List (Pass n) → Prop
  | _, [] => True
  | since, pass :: passes =>
      (¬ pass.node.isPureNode → since ≠ .skipped ∧
        (since = .paused → pass.attempt.prepareForRunning < 0)) ∧
      KeepsStatus config (since.next config pass) passes

/-- The shared status and the previous pass tell what has happened since the last pause. -/
structure Since (config : Configuration) (since : SincePause) (previous : Option (Pass n))
    (loop : Loop n) : Prop where
  running : loop.cb.running = .resumedExecution ↔ since ≠ .none
  skipped : since = .skipped → config.asynchronous
  paused : since = .paused ↔
    ∃ paused ∈ previous, paused.cgStaticError = cgPausedScheduler ∧ loop.id = paused.id

section

variable {since : SincePause} {previous : Option (Pass n)} {loop : Loop n} {attempt : Attempt}
  {result : Pass n × CbState n}

theorem BodyCase.node_eq (case : BodyCase config schedule loop attempt result) :
    result.1.node = schedule loop.id ∧ result.1.attempt = attempt := by
  cases case <;> exact ⟨rfl, rfl⟩

theorem executionStatus_callback (callback : config.callback) (cb : CbState n) :
    executionStatus config cb = cb.running :=
  if_pos callback

theorem CbState.save_running {cgStaticError : ℤ} (callback : config.callback)
    (other : cgStaticError ≠ cgPausedScheduler) (loop : Loop n) (cb : CbState n) :
    (cb.save config loop cgStaticError).running = .newExecution := by
  simp [save, callback, other]

theorem ne_paused_of_nonneg {cgStaticError : ℤ} (nonnegative : 0 ≤ cgStaticError) :
    cgStaticError ≠ cgPausedScheduler := by
  rintro rfl
  exact absurd nonnegative (by decide)

/-- The shared status is right after a pause, and wrong when positions were skipped since. -/
theorem Since.running_right (ghost : Since config since previous loop) :
    (loop.cb.running = .resumedExecution ↔ since = .paused) ↔ since ≠ .skipped := by
  rw [ghost.running]
  cases since <;> simp

theorem Since.checkCalls_right (ghost : Since config since previous loop)
    (callback : config.callback) (node : Node) :
    (∀ call ∈ checkCalls config node loop.cb,
        call.2 = .resumedExecution ↔ since = .paused) ↔
      (¬ node.isPureNode → since ≠ .skipped) := by
  rw [checkCalls]
  split
  · rename_i pure
    simp [pure]
  · rename_i object
    rw [List.forall_mem_singleton, executionStatus_callback callback, ghost.running_right]
    simp [object]

theorem check_of_object {node : Node} (object : ¬ node.isPureNode) (attempt : Attempt) :
    check config node attempt = attempt.prepareForRunning := if_neg object

/-- The status of one pass is right when it keeps the status. -/
theorem BodyCase.calls_right (case : BodyCase config schedule loop attempt result)
    (callback : config.callback) (ghost : Since config since previous loop) :
    (∀ call ∈ result.1.calls, call.2 = .resumedExecution ↔ result.1.Resumes previous) ↔
      (¬ config.asynchronous ∨ (¬ result.1.node.isPureNode → since ≠ .skipped ∧
        (since = .paused → result.1.attempt.prepareForRunning < 0))) := by
  have resumes : result.1.Resumes previous ↔ since = .paused := by
    rw [ghost.paused, Pass.Resumes, case.id]
  rw [resumes, case.node_eq.1, case.node_eq.2]
  have refused (asynchronous : config.asynchronous)
      (negative : check config (schedule loop.id) attempt < 0) :
      (¬ (schedule loop.id).isPureNode → since ≠ .skipped) ↔
        (¬ config.asynchronous ∨ (¬ (schedule loop.id).isPureNode → since ≠ .skipped ∧
          (since = .paused → attempt.prepareForRunning < 0))) := by
    simp only [asynchronous, not_true, false_or]
    refine forall_congr' fun object => ?_
    rw [check_of_object object] at negative
    simp [negative]
  cases case with
  | skipped asynchronous skip =>
      rw [checkPass, ghost.checkCalls_right callback]
      exact refused asynchronous (skip ▸ cgSkipExecution_neg)
  | refused asynchronous notSkip negative =>
      rw [checkPass, ghost.checkCalls_right callback]
      exact refused asynchronous negative
  | accepted asynchronous nonnegative =>
      simp only [runPass, List.forall_mem_append, ghost.checkCalls_right callback,
        asynchronous, not_true, false_or, imp_and]
      refine and_congr_right fun _ => ?_
      split
      · rename_i pure
        simp [pure]
      · rename_i object
        rw [List.forall_mem_singleton, executionStatus_callback callback,
          CbState.save_running callback (ne_paused_of_nonneg nonnegative)]
        rw [check_of_object object] at nonnegative
        simp [object, not_lt.mpr nonnegative]
  | synchronous synchronous =>
      have right : since ≠ .skipped := fun skipped => synchronous (ghost.skipped skipped)
      refine iff_of_true ?_ (.inl synchronous)
      simp only [runPass, List.nil_append]
      split
      · exact List.forall_mem_nil _
      · rw [List.forall_mem_singleton, executionStatus_callback callback]
        exact ghost.running_right.mpr right

/-- What has happened since the last pause after a pass. -/
theorem BodyCase.running (case : BodyCase config schedule loop attempt result)
    (callback : config.callback) (ghost : Since config since previous loop) :
    result.2.running = .resumedExecution ↔ since.next config result.1 ≠ .none := by
  have saves (cb : CbState n) (saved : result.2 = cb.save config loop result.1.cgStaticError)
      (ran : ¬ skips config (schedule loop.id) attempt) :
      result.2.running = .resumedExecution ↔ since.next config result.1 ≠ .none := by
    rw [SincePause.next, case.node_eq.1, case.node_eq.2, pauses, ← case.cgStaticError, saved]
    by_cases pause : result.1.cgStaticError = cgPausedScheduler
    · simp [pause, CbState.save, callback]
    · simp [pause, CbState.save, callback, ran]
  cases case with
  | skipped asynchronous skip =>
      have noPause : ¬ pauses config (schedule loop.id) attempt := by
        simp only [pauses, passError, asynchronous, skip, if_true]
        decide
      simp only [SincePause.next, checkPass, noPause, skips, asynchronous, skip, ghost.running]
      cases since <;> simp
  | refused asynchronous notSkip negative => exact saves _ rfl (by simp [skips, notSkip])
  | accepted asynchronous nonnegative =>
      refine saves _ rfl ?_
      have notSkip : check config (schedule loop.id) attempt ≠ cgSkipExecution :=
        (lt_of_lt_of_le cgSkipExecution_neg nonnegative).ne'
      simp [skips, notSkip]
  | synchronous synchronous => exact saves _ rfl (by simp [skips, synchronous])

theorem next_skipped {pass : Pass n} (skipped : since.next config pass = .skipped) :
    config.asynchronous := by
  rw [SincePause.next] at skipped
  split_ifs at skipped with paused skip
  have both := skip.2
  rw [skips, Bool.and_eq_true] at both
  exact both.1

theorem next_paused {pass : Pass n} :
    since.next config pass = .paused ↔ pauses config pass.node pass.attempt := by
  rw [SincePause.next]
  split_ifs with paused skip <;> simp [paused]

theorem Since.init : Since config .none none (enter config (initCbState : CbState n)) where
  running := by simp [enter, startIteration, initCbState]
  skipped := nofun
  paused := by simp

omit since previous in
theorem startIteration_running (nbSchedule debugCounter : ℕ) (cb : CbState n) :
    (startIteration nbSchedule debugCounter cb).cb.running = cb.running := by
  rw [startIteration]
  split <;> rfl

theorem step_running (attempt : Attempt) :
    ((step config schedule loop attempt).2.loop config).cb.running =
      (body config schedule loop attempt).2.running := by
  simp only [step]
  split_ifs
  · exact startIteration_running ..
  · rfl
  · exact startIteration_running ..
  · exact startIteration_running ..

/-- After a pause the next call starts at the same position. -/
theorem step_id_of_pauses (callback : config.callback)
    (pause : pauses config (schedule loop.id) attempt) :
    ((step config schedule loop attempt).2.loop config).id = loop.id := by
  have case := bodyCase config schedule loop attempt
  have negative := passError_neg_of_pauses pause
  rw [← case.cgStaticError] at negative
  simp only [step, if_pos negative, case.cb_of_pauses callback pause]
  rfl

theorem Since.step (ghost : Since config since previous loop) (callback : config.callback)
    (attempt : Attempt) :
    Since config (since.next config (step config schedule loop attempt).1)
      (some (step config schedule loop attempt).1)
      ((step config schedule loop attempt).2.loop config) := by
  have case := bodyCase config schedule loop attempt
  refine ⟨?_, next_skipped, ?_⟩
  · rw [step_running]
    exact case.running callback ghost
  · rw [next_paused]
    change pauses config (body config schedule loop attempt).1.node
      (body config schedule loop attempt).1.attempt ↔
        ∃ paused ∈ some (body config schedule loop attempt).1, _
    rw [case.node_eq.1, case.node_eq.2]
    simp only [Option.mem_some_iff, exists_eq_left', case.cgStaticError, case.id]
    constructor
    · exact fun pause => ⟨of_decide_eq_true pause, step_id_of_pauses callback pause⟩
    · exact fun both => decide_eq_true both.1

theorem statusRight_iff (callback : config.callback) (ghost : Since config since previous loop)
    (attempts : List Attempt) :
    StatusRight previous (passes config schedule loop attempts) ↔
      ¬ config.asynchronous ∨ KeepsStatus config since (passes config schedule loop attempts) := by
  induction attempts generalizing since previous loop with
  | nil => simp [passes, StatusRight, KeepsStatus]
  | cons attempt attempts ih =>
      have right := (bodyCase config schedule loop attempt).calls_right callback ghost
      simp only [passes, StatusRight, KeepsStatus, ih (ghost.step callback attempt)]
      rw [or_and_left]
      exact and_congr_left' right

end

/-- In callback mode the nodes see the right status exactly when the scheduler is synchronous, or
no node which is executed again accepts to run or is skipped before another node is checked. -/
theorem executionStatus_iff (config : Configuration) (schedule : Fin (n + 1) → Node)
    (attempts : List Attempt) :
    let passes := passes (config.withCallback true) schedule
      (enter (config.withCallback true) initCbState) attempts
    StatusRight none passes ↔
      ¬ config.asynchronous ∨ KeepsStatus (config.withCallback true) .none passes :=
  statusRight_iff rfl Since.init attempts

/-- In the asynchronous mode a node pauses, and is then executed again. -/
def asynchronousPause : List Attempt := [⟨true, 0, -9⟩, ⟨true, 0, 0⟩]

/-- The node is run with the status of a new execution. -/
theorem asynchronousPause_not_statusRight :
    let config : Configuration :=
      { callback := true, asynchronous := true, asyncDefaultSkip := true, debugLimit := 0 }
    let schedule : Fin 1 → Node := fun _ => { codeID := 0, isPureNode := false }
    ¬ StatusRight none (passes config schedule (enter config initCbState) asynchronousPause) := by
  intro config schedule right
  have again := right.2.1 (.run, .newExecution) (by decide)
  cases again.mpr ⟨_, rfl, rfl, rfl⟩

end CmsisStream.Generated
