import CmsisStream.Runtime.EventQueue
import Mathlib.Data.Fintype.Basic

/-!
# Error reports of an event queue

`setError` stores its three arguments, the flag of a pending report and the request of a pause in
separate atomic variables, `consumeError` takes them one after the other, and `resume` clears
them in yet another order.  Each load or store is one step.  `pause` and `end` may be called at
any time.  The application posts the flag which wakes up the event thread after `resume`.
-/

namespace CmsisStream.Runtime

/-- The arguments of `setError`, as `int32_t`. -/
structure ErrorReport where
  status : ℤ
  nodeId : ℤ
  info : ℤ
deriving DecidableEq

/-- The next store of a call of `setError`, after the one of the status. -/
inductive SetErrorStep where
  | storeNodeId
  | storeInfo
  | storePending
  | storePause
deriving DecidableEq

/-- The next step of the application in `resume`, after the store of `mustPause_`, and then the
post of `EVENT_RESUME_EVENT`. -/
inductive ResumeStep where
  | storePending
  | storeStatus
  | storeNodeId
  | storeInfo
  | postEventResume
deriving DecidableEq

/-- The next step of `event_thread_function`; `requested` is a history variable, it says that
`execute` was left because of a pause requested by `setError`. -/
inductive EventLoop where
  | execute
  | testPause
  | testEnd (requested : Bool)
  | exchangePending (requested : Bool)
  | loadStatus (requested : Bool)
  | loadNodeId (requested : Bool) (status : ℤ)
  | loadInfo (requested : Bool) (status nodeId : ℤ)
  /-- `consumeError` has returned. -/
  | consumed (requested : Bool) (result : Option ErrorReport)
  | waitResume
  | finished
deriving DecidableEq

/-- A part of the report is still to be stored. -/
def SetErrorStep.storing : SetErrorStep → Bool
  | .storeNodeId | .storeInfo => true
  | .storePending | .storePause => false

/-- Some variables are still to be cleared. -/
def ResumeStep.clearing : ResumeStep → Bool
  | .postEventResume => false
  | _ => true

/-- The event thread has not yet asked for a report after `execute`. -/
def EventLoop.asking : EventLoop → Bool
  | .execute | .testPause | .testEnd _ | .exchangePending _ => true
  | _ => false

/-- The event thread takes a report. -/
def EventLoop.loading : EventLoop → Bool
  | .loadStatus _ | .loadNodeId _ _ | .loadInfo _ _ _ => true
  | _ => false

/-- `consumeError` has returned, and the queue is not yet executed again. -/
def EventLoop.parked : EventLoop → Bool
  | .consumed _ _ | .waitResume | .finished => true
  | _ => false

/-- The atomic variables of an `EventQueue`, and the threads which use them. -/
structure ErrorQueue (ι : Type) where
  mustPause : Bool
  mustEnd : Bool
  errorPending : Bool
  errorStatus : ℤ
  errorNodeId : ℤ
  errorInfo : ℤ
  /-- The calls of `setError` which have not returned. -/
  calls : Thread ι → Option (SetErrorStep × ErrorReport)
  resume : Option ResumeStep
  eventResume : Bool
  event : EventLoop
  /-- History variables: the calls of `setError`, and whether one of them has requested a pause
  since `resume` has cleared `mustPause_`. -/
  reports : List ErrorReport
  requested : Bool

inductive ErrorAction (ι : Type) where
  /-- A thread calls `setError` and stores the status. -/
  | setError (t : Thread ι) (report : ErrorReport)
  /-- A thread goes on in `setError`. -/
  | store (t : Thread ι)
  | pause
  | endQueue
  /-- The application calls `resume` and clears `mustPause_`. -/
  | resume
  | resumeStep
  /-- The event thread goes on. -/
  | event

namespace ErrorQueue

variable {ι : Type}

def init : ErrorQueue ι where
  mustPause := false
  mustEnd := false
  errorPending := false
  errorStatus := 0
  errorNodeId := -1
  errorInfo := 0
  calls _ := none
  resume := none
  eventResume := false
  event := .execute
  reports := []
  requested := false

variable (s : ErrorQueue ι)

/-- The report in the three variables. -/
def stored : ErrorReport := ⟨s.errorStatus, s.errorNodeId, s.errorInfo⟩

/-- The next step of `resume` and of the application. -/
def resumeNext : Option (ErrorQueue ι) :=
  s.resume.map fun
    | .storePending => { s with errorPending := false, resume := some .storeStatus }
    | .storeStatus => { s with errorStatus := 0, resume := some .storeNodeId }
    | .storeNodeId => { s with errorNodeId := -1, resume := some .storeInfo }
    | .storeInfo => { s with errorInfo := 0, resume := some .postEventResume }
    | .postEventResume => { s with eventResume := true, resume := none }

/-- The next step of the event thread outside of the handlers. -/
def eventNext : Option (ErrorQueue ι) :=
  match s.event with
  | .execute =>
      if (s.calls .event).isSome then none
      else some { s with event := if s.mustEnd then .testEnd false else .testPause }
  | .testPause =>
      some { s with event := if s.mustPause then .testEnd s.requested else .execute }
  | .testEnd requested =>
      some { s with event := if s.mustEnd then .finished else .exchangePending requested }
  | .exchangePending requested =>
      if s.errorPending then
        some { s with errorPending := false, event := .loadStatus requested }
      else some { s with event := .consumed requested none }
  | .loadStatus requested => some { s with event := .loadNodeId requested s.errorStatus }
  | .loadNodeId requested status =>
      some { s with event := .loadInfo requested status s.errorNodeId }
  | .loadInfo requested status nodeId =>
      some { s with event := .consumed requested (some ⟨status, nodeId, s.errorInfo⟩) }
  | .consumed _ _ => some { s with event := .waitResume }
  | .waitResume =>
      if s.eventResume then some { s with eventResume := false, event := .execute } else none
  | .finished => none

section Calls

variable [DecidableEq ι]

/-- A thread is at some step of `setError`, or has returned. -/
def setCall (t : Thread ι) (call : Option (SetErrorStep × ErrorReport)) : ErrorQueue ι :=
  { s with calls := Function.update s.calls t call }

/-- The next store of a thread in `setError`. -/
def storeNext (t : Thread ι) : Option (ErrorQueue ι) :=
  (s.calls t).map fun
    | (.storeNodeId, report) =>
        { s.setCall t (some (.storeInfo, report)) with errorNodeId := report.nodeId }
    | (.storeInfo, report) =>
        { s.setCall t (some (.storePending, report)) with errorInfo := report.info }
    | (.storePending, report) =>
        { s.setCall t (some (.storePause, report)) with errorPending := true }
    | (.storePause, _) => { s.setCall t none with mustPause := true, requested := true }

def next : ErrorAction ι → Option (ErrorQueue ι)
  | .setError t report =>
      -- The event thread calls it for an error of a handler.
      if s.calls t = none ∧ (t = .event → s.event = .execute) then
        some { s.setCall t (some (.storeNodeId, report)) with
          errorStatus := report.status
          reports := s.reports ++ [report] }
      else none
  | .store t => s.storeNext t
  | .pause => some { s with mustPause := true }
  | .endQueue => some { s with mustEnd := true }
  | .resume =>
      if s.resume = none then
        some { s with mustPause := false, resume := some .storePending, requested := false }
      else none
  | .resumeStep => s.resumeNext
  | .event => s.eventNext

/-- The error queue, used by any number of threads. -/
def machine (ι : Type) [DecidableEq ι] : Machine (ErrorQueue ι) (ErrorAction ι) :=
  ⟨init, fun s a => s.next a⟩

end Calls

/-- The reports are whole, and none is missing after a pause which was requested for it. -/
structure Truthful : Prop where
  whole : ∀ requested report, s.event = .consumed requested (some report) → report ∈ s.reports
  kept : ∀ result, s.event = .consumed true result → result.isSome = true

/-! ### The condition on the calls -/

/-- A thread is between its store of the status and its store of the info. -/
def storing (t : Thread ι) : Bool := (s.calls t).any fun call => call.1.storing

/-- A thread is about to make its report pending. -/
def publishing (t : Thread ι) : Bool := (s.calls t).any fun call => call.1 = .storePending

/-- A thread is about to request the pause for its report. -/
def pausing (t : Thread ι) : Bool := (s.calls t).any fun call => call.1 = .storePause

/-- `resume` has not yet cleared all the variables. -/
def clearing : Bool := s.resume.any ResumeStep.clearing

/-- The event thread takes no report before another `resume`. -/
def Parked : Prop := s.event.parked = true ∧ s.eventResume = false ∧ s.resume = none

/-- No report is pending, is about to be, or is taken. -/
def NoReport : Prop :=
  s.errorPending = false ∧ s.event.loading = false ∧ ∀ t, s.publishing t = false

/-- When `setError` and `resume` may be called. -/
def Separate (s : ErrorQueue ι) : ErrorAction ι → Prop
  | .setError .event _ => ∀ i, s.storing (.other i) = false
  | .setError (.other _) _ =>
      (∀ t, s.storing t = false) ∧ s.clearing = false ∧ (s.Parked ∨ s.NoReport)
  | .resume => (∀ t, s.calls t = none) ∧ s.event.parked = true ∧ s.eventResume = false
  | _ => True

/-! ### The invariant -/

/-- What the calls keep when they are separate. -/
structure Orderly : Prop where
  /-- The variables already stored have the values of the only call which is storing. -/
  reported : ∀ t step report, s.calls t = some (step, report) → report ∈ s.reports
  status : ∀ t step report, s.calls t = some (step, report) → step.storing = true →
    s.errorStatus = report.status
  nodeId : ∀ t report, s.calls t = some (.storeInfo, report) → s.errorNodeId = report.nodeId
  alone : ∀ t t', s.storing t = true → s.storing t' = true → t = t'
  handler : s.calls .event ≠ none → s.event = .execute
  /-- Another thread only stores when nobody reads. -/
  quiet : ∀ i, s.storing (.other i) = true → s.Parked ∨ s.NoReport
  resuming : s.clearing = true → (∀ t, s.calls t = none) ∧ s.requested = false
  cleared : s.clearing = true → s.resume ≠ some .storePending → s.errorPending = false
  woken : s.resume ≠ none ∨ s.eventResume = true → s.event.parked = true
  once : s.resume ≠ none → s.eventResume = false
  /-- What is pending is a whole report. -/
  whole : s.errorPending = true ∨ (∃ t, s.publishing t = true) → (∀ t, s.storing t = false) →
    s.stored ∈ s.reports
  loads : s.event.loading = true → s.stored ∈ s.reports ∧ ∀ t, s.storing t = false
  loaded : (∀ requested status, s.event = .loadNodeId requested status → status = s.errorStatus) ∧
    ∀ requested status nodeId, s.event = .loadInfo requested status nodeId →
      status = s.errorStatus ∧ nodeId = s.errorNodeId
  /-- A pause was requested for a report which is pending. -/
  left : s.event = .testEnd true ∨ s.event = .exchangePending true → s.requested = true
  owed : s.requested = true ∨ (∃ t, s.pausing t = true) →
    s.event.asking = true ∨ s.eventResume = true ∨ s.resume = some .postEventResume →
    s.errorPending = true
  truthful : s.Truthful

variable {s} {s' : ErrorQueue ι} {t t' : Thread ι}

theorem storing_of_call {step : SetErrorStep} {report : ErrorReport}
    (call : s.calls t = some (step, report)) : s.storing t = step.storing := by
  simp [storing, call]

theorem storing_of_none (call : s.calls t = none) : s.storing t = false := by
  simp [storing, call]

theorem publishing_of_none (call : s.calls t = none) : s.publishing t = false := by
  simp [publishing, call]

theorem pausing_of_none (call : s.calls t = none) : s.pausing t = false := by
  simp [pausing, call]

theorem resume_of_clearing (clearing : s.clearing = true) : s.resume ≠ none := by
  intro none
  simp [ErrorQueue.clearing, none] at clearing

theorem truthful_of_not_consumed
    (notConsumed : ∀ requested result, s.event ≠ .consumed requested result) : s.Truthful :=
  ⟨fun _ _ consumed => absurd consumed (notConsumed _ _),
    fun _ consumed => absurd consumed (notConsumed _ _)⟩

theorem loading_of_parked (parked : s.event.parked = true) : s.event.loading = false := by
  cases event : s.event <;> simp_all [EventLoop.parked, EventLoop.loading]

theorem asking_of_parked (parked : s.event.parked = true) : s.event.asking = false := by
  cases event : s.event <;> simp_all [EventLoop.parked, EventLoop.asking]

theorem loaded_of_not_loading (notLoading : s.event.loading = false) {status nodeId : ℤ} :
    (∀ requested loaded, s.event = .loadNodeId requested loaded → loaded = status) ∧
      ∀ requested loaded loadedId, s.event = .loadInfo requested loaded loadedId →
        loaded = status ∧ loadedId = nodeId := by
  refine ⟨?_, ?_⟩
  · intro _ _ event
    rw [event] at notLoading
    cases notLoading
  · intro _ _ _ event
    rw [event] at notLoading
    cases notLoading

/-- What a store of another thread requires: the event thread takes no report. -/
theorem loading_of_quiet (quiet : s.Parked ∨ s.NoReport) : s.event.loading = false :=
  quiet.elim (fun parked => loading_of_parked parked.1) fun noReport => noReport.2.1

/-! ### The event thread -/

theorem Orderly.calls_event (orderly : s.Orderly) (notExecute : s.event ≠ .execute) :
    s.calls .event = none := by
  by_contra calls
  exact notExecute (orderly.handler calls)

/-- The event thread goes on without touching the variables of a report. -/
theorem Orderly.setEvent (orderly : s.Orderly) {event : EventLoop}
    (handler : s.calls .event = none) (asking : event.asking = true → s.event.asking = true)
    (loading : event.loading = true → s.event.loading = true)
    (parked : s.event.parked = true → event.parked = true)
    (loaded : (∀ requested status, event = .loadNodeId requested status → status = s.errorStatus) ∧
      ∀ requested status nodeId, event = .loadInfo requested status nodeId →
        status = s.errorStatus ∧ nodeId = s.errorNodeId)
    (left : event = .testEnd true ∨ event = .exchangePending true → s.requested = true)
    (truthful : { s with event := event }.Truthful) : { s with event := event }.Orderly := by
  refine { orderly with
    handler := fun calls => absurd handler calls
    quiet := ?_
    woken := fun resumed => parked (orderly.woken resumed)
    loads := fun isLoading => orderly.loads (loading isLoading)
    loaded := loaded
    left := left
    owed := ?_
    truthful := truthful }
  · intro i storing
    rcases orderly.quiet i storing with ⟨isParked, rest⟩ | ⟨pending, notLoading, publishing⟩
    · exact .inl ⟨parked isParked, rest⟩
    · refine .inr ⟨pending, ?_, publishing⟩
      by_contra isLoading
      exact absurd (loading (by simpa using isLoading)) (by simp [notLoading])
  · rintro requested (isAsking | rest)
    · exact orderly.owed requested (.inl (asking isAsking))
    · exact orderly.owed requested (.inr rest)

/-- The event thread takes the pending report, which nobody may touch then. -/
theorem Orderly.takePending (orderly : s.Orderly) {requested : Bool}
    (event : s.event = .exchangePending requested) (pending : s.errorPending = true) :
    { s with errorPending := false, event := .loadStatus requested }.Orderly := by
  have handler := orderly.calls_event (by simp [event])
  have notParked : s.event.parked = false := by rw [event]; rfl
  have asleep : ¬(s.resume ≠ none ∨ s.eventResume = true) := by
    intro resumed
    exact absurd (orderly.woken resumed) (by simp [notParked])
  have alone : ∀ t, s.storing t = false := by
    rintro (_ | i)
    · exact storing_of_none handler
    · by_contra storing
      rcases orderly.quiet i (by simpa using storing) with isParked | noReport
      · exact absurd isParked.1 (by simp [notParked])
      · exact absurd noReport.1 (by simp [pending])
  refine { orderly with
    handler := fun calls => absurd handler calls
    quiet := fun i storing => absurd ((alone (.other i)).symm.trans storing) (by simp)
    cleared := fun _ _ => rfl
    woken := fun resumed => absurd resumed asleep
    whole := ?_
    loads := fun _ => ⟨orderly.whole (.inl pending) alone, alone⟩
    loaded := ⟨by simp, by simp⟩
    left := by simp
    owed := ?_
    truthful := truthful_of_not_consumed (by simp) }
  · rintro (isPending | publishing)
    · cases isPending
    · exact orderly.whole (.inr publishing)
  · rintro _ (asking | flag | post)
    · cases asking
    · exact absurd (.inr flag) asleep
    · exact absurd (.inl (by simp_all)) asleep

/-- The flag of the application wakes the event thread up. -/
theorem Orderly.wakeUp (orderly : s.Orderly) (flag : s.eventResume = true) :
    { s with eventResume := false, event := .execute }.Orderly := by
  have noResume : s.resume = none := by
    by_contra resume
    exact absurd (orderly.once resume) (by simp [flag])
  refine { orderly with
    handler := fun _ => rfl
    quiet := ?_
    woken := ?_
    once := fun _ => rfl
    loads := by simp [EventLoop.loading]
    loaded := ⟨by simp, by simp⟩
    left := by simp
    owed := fun requested _ => orderly.owed requested (.inr (.inl flag))
    truthful := truthful_of_not_consumed (by simp) }
  · intro i storing
    rcases orderly.quiet i storing with parked | ⟨pending, _, publishing⟩
    · exact absurd parked.2.1 (by simp [flag])
    · exact .inr ⟨pending, rfl, publishing⟩
  · simp [noResume]

theorem Orderly.eventNext (orderly : s.Orderly) (step : s.eventNext = some s') : s'.Orderly := by
  unfold ErrorQueue.eventNext at step
  split at step
  · rename_i event
    split_ifs at step with handler
    all_goals
      cases step
      refine orderly.setEvent (by simpa using handler) ?_ ?_ ?_ ⟨?_, ?_⟩ ?_
        (truthful_of_not_consumed ?_)
    all_goals simp [event, EventLoop.asking, EventLoop.loading, EventLoop.parked]
  · rename_i event
    split_ifs at step with paused
    all_goals
      cases step
      refine orderly.setEvent (orderly.calls_event (by simp [event])) ?_ ?_ ?_ ⟨?_, ?_⟩ ?_
        (truthful_of_not_consumed ?_)
    all_goals simp [event, EventLoop.asking, EventLoop.loading, EventLoop.parked]
  · rename_i requested event
    split_ifs at step with ended
    all_goals
      cases step
      refine orderly.setEvent (orderly.calls_event (by simp [event])) ?_ ?_ ?_ ⟨?_, ?_⟩ ?_
        (truthful_of_not_consumed ?_)
    all_goals simp [event, EventLoop.asking, EventLoop.loading, EventLoop.parked]
    rintro rfl
    exact orderly.left (.inl event)
  · rename_i requested event
    split_ifs at step with pending
    · cases step
      exact orderly.takePending event pending
    · cases step
      refine orderly.setEvent (orderly.calls_event (by simp [event])) ?_ ?_ ?_ ⟨?_, ?_⟩ ?_
        ⟨?_, ?_⟩
      all_goals simp [EventLoop.asking, EventLoop.loading, EventLoop.parked]
      -- A requested pause would have left a report.
      cases requested with
      | false => rfl
      | true =>
          have asked := orderly.owed (.inl (orderly.left (.inr event))) (.inl (by rw [event]; rfl))
          exact absurd asked pending
  · rename_i requested event
    cases step
    refine orderly.setEvent (orderly.calls_event (by simp [event])) ?_ ?_ ?_ ⟨?_, ?_⟩ ?_
      (truthful_of_not_consumed ?_)
    all_goals simp [event, EventLoop.asking, EventLoop.loading, EventLoop.parked]
  · rename_i requested status event
    cases step
    refine orderly.setEvent (orderly.calls_event (by simp [event])) ?_ ?_ ?_ ⟨?_, ?_⟩ ?_
      (truthful_of_not_consumed ?_)
    all_goals simp [event, EventLoop.asking, EventLoop.loading, EventLoop.parked]
    exact orderly.loaded.1 _ _ event
  · rename_i requested status nodeId event
    cases step
    rcases orderly.loaded.2 _ _ _ event with ⟨rfl, rfl⟩
    have whole := (orderly.loads (by rw [event]; rfl)).1
    refine orderly.setEvent (orderly.calls_event (by simp [event])) ?_ ?_ ?_ ⟨?_, ?_⟩ ?_ ⟨?_, ?_⟩
    all_goals simp [EventLoop.asking, EventLoop.loading, EventLoop.parked]
    · exact whole
  · rename_i requested result event
    cases step
    refine orderly.setEvent (orderly.calls_event (by simp [event])) ?_ ?_ ?_ ⟨?_, ?_⟩ ?_
      (truthful_of_not_consumed ?_)
    all_goals simp [event, EventLoop.asking, EventLoop.loading, EventLoop.parked]
  · rename_i event
    split_ifs at step with flag
    cases step
    exact orderly.wakeUp flag
  · cases step

/-! ### The application -/

theorem Orderly.resume (orderly : s.Orderly) (calls : ∀ t, s.calls t = none)
    (parked : s.event.parked = true) (flag : s.eventResume = false) :
    { s with mustPause := false, resume := some .storePending, requested := false }.Orderly := by
  have notAsking := asking_of_parked parked
  refine { orderly with
    quiet := fun i storing =>
      absurd ((storing_of_none (calls (.other i))).symm.trans storing) (by simp)
    resuming := fun _ => ⟨calls, rfl⟩
    cleared := fun _ later => absurd rfl later
    woken := fun _ => parked
    once := fun _ => flag
    left := ?_
    owed := ?_
    truthful := ⟨orderly.truthful.whole, orderly.truthful.kept⟩ }
  · rintro (event | event)
    all_goals exact absurd parked (by simp_all [EventLoop.parked])
  · rintro (requested | ⟨t, pausing⟩)
    · cases requested
    · exact absurd ((pausing_of_none (calls t)).symm.trans pausing) (by simp)

/-- `resume` clears the variables while nobody else uses them. -/
theorem Orderly.clear (orderly : s.Orderly) {step : ResumeStep} (resume : s.resume = some step)
    (clearing : step.clearing = true) {pending : Bool} {status nodeId info : ℤ} (next : ResumeStep)
    (cleared : pending = false) :
    { s with
      errorPending := pending
      errorStatus := status
      errorNodeId := nodeId
      errorInfo := info
      resume := some next }.Orderly := by
  have isClearing : s.clearing = true := by simp [ErrorQueue.clearing, resume, clearing]
  rcases orderly.resuming isClearing with ⟨calls, requested⟩
  have parked := orderly.woken (.inl (by simp [resume]))
  have notLoading := loading_of_parked parked
  refine { orderly with
    status := fun t _ _ call => absurd ((calls t).symm.trans call) (by simp)
    nodeId := fun t _ call => absurd ((calls t).symm.trans call) (by simp)
    quiet := fun i storing =>
      absurd ((storing_of_none (calls (.other i))).symm.trans storing) (by simp)
    resuming := fun _ => ⟨calls, requested⟩
    cleared := fun _ _ => cleared
    woken := fun _ => parked
    once := fun _ => orderly.once (by simp [resume])
    whole := ?_
    loads := fun loading => absurd (notLoading.symm.trans loading) (by simp)
    loaded := loaded_of_not_loading notLoading
    owed := ?_
    truthful := ⟨orderly.truthful.whole, orderly.truthful.kept⟩ }
  · rintro (isPending | ⟨t, publishing⟩)
    · exact absurd (cleared.symm.trans isPending) (by simp)
    · exact absurd ((publishing_of_none (calls t)).symm.trans publishing) (by simp)
  · rintro (isRequested | ⟨t, pausing⟩)
    · exact absurd (requested.symm.trans isRequested) (by simp)
    · exact absurd ((pausing_of_none (calls t)).symm.trans pausing) (by simp)

/-- The application wakes the event thread up. -/
theorem Orderly.post (orderly : s.Orderly) (resume : s.resume = some .postEventResume) :
    { s with eventResume := true, resume := none }.Orderly := by
  refine { orderly with
    quiet := ?_
    resuming := fun clearing => absurd rfl (resume_of_clearing clearing)
    cleared := fun clearing => absurd rfl (resume_of_clearing clearing)
    woken := fun _ => orderly.woken (.inl (by simp [resume]))
    once := fun again => absurd rfl again
    owed := fun requested _ => orderly.owed requested (.inr (.inr resume))
    truthful := ⟨orderly.truthful.whole, orderly.truthful.kept⟩ }
  intro i storing
  rcases orderly.quiet i storing with parked | noReport
  · exact absurd parked.2.2 (by simp [resume])
  · exact .inr noReport

theorem Orderly.resumeNext (orderly : s.Orderly) (step : s.resumeNext = some s') :
    s'.Orderly := by
  rcases Option.map_eq_some_iff.mp step with ⟨clear, resume, rfl⟩
  cases clear with
  | storePending => exact orderly.clear resume rfl .storeStatus rfl
  | storeStatus =>
      have cleared := orderly.cleared (by simp [clearing, resume, ResumeStep.clearing])
        (by simp [resume])
      exact orderly.clear resume rfl .storeNodeId cleared
  | storeNodeId =>
      have cleared := orderly.cleared (by simp [clearing, resume, ResumeStep.clearing])
        (by simp [resume])
      exact orderly.clear resume rfl .storeInfo cleared
  | storeInfo =>
      have cleared := orderly.cleared (by simp [clearing, resume, ResumeStep.clearing])
        (by simp [resume])
      exact orderly.clear resume rfl .postEventResume cleared
  | postEventResume => exact orderly.post resume

/-! ### The calls of `setError` -/

/-- Nobody stores a report while the event thread loads one. -/
theorem Orderly.not_loading (orderly : s.Orderly) (storing : s.storing t = true) :
    s.event.loading = false := by
  by_contra loading
  have idle := (orderly.loads (by simpa using loading)).2 t
  exact absurd (idle.symm.trans storing) (by simp)

theorem Orderly.not_clearing (orderly : s.Orderly) (call : s.calls t ≠ none) :
    s.clearing = false := by
  by_contra clearing
  exact call ((orderly.resuming (by simpa using clearing)).1 t)

section Calls

variable [DecidableEq ι] {step : SetErrorStep} {report : ErrorReport}
  {call : Option (SetErrorStep × ErrorReport)}

theorem calls_setCall : (s.setCall t call).calls t' = if t' = t then call else s.calls t' :=
  Function.update_apply ..

theorem storing_setCall :
    (s.setCall t call).storing t' =
      if t' = t then call.any fun call => call.1.storing else s.storing t' := by
  rw [storing, calls_setCall]
  split_ifs <;> rfl

theorem publishing_setCall :
    (s.setCall t call).publishing t' =
      if t' = t then call.any fun call => call.1 = .storePending else s.publishing t' := by
  rw [publishing, calls_setCall]
  split_ifs <;> rfl

theorem pausing_setCall :
    (s.setCall t call).pausing t' =
      if t' = t then call.any fun call => call.1 = .storePause else s.pausing t' := by
  rw [pausing, calls_setCall]
  split_ifs <;> rfl

theorem Orderly.handler_setCall (orderly : s.Orderly) (called : s.calls t ≠ none) :
    (s.setCall t call).calls .event ≠ none → s.event = .execute := by
  rw [calls_setCall]
  split_ifs with event
  · exact fun _ => orderly.handler (event ▸ called)
  · exact orderly.handler

theorem Orderly.reported_setCall (orderly : s.Orderly) (called : s.calls t = some (step, report))
    {next step' : SetErrorStep} {report' : ErrorReport} :
    (s.setCall t (some (next, report))).calls t' = some (step', report') →
      report' ∈ s.reports := by
  rw [calls_setCall]
  split_ifs
  · rintro ⟨⟩
    exact orderly.reported _ _ _ called
  · exact orderly.reported _ _ _

theorem NoReport.setCall (noReport : s.NoReport)
    (notPublishing : (call.any fun call => call.1 = .storePending) = false) :
    (s.setCall t call).NoReport := by
  refine ⟨noReport.1, noReport.2.1, fun t' => ?_⟩
  rw [publishing_setCall]
  split_ifs
  · exact notPublishing
  · exact noReport.2.2 t'

theorem exists_pausing_of_setCall
    (notPausing : (call.any fun call => call.1 = .storePause) = false) :
    (∃ t', (s.setCall t call).pausing t' = true) → ∃ t', s.pausing t' = true := by
  rintro ⟨t', pausing⟩
  rw [pausing_setCall] at pausing
  split_ifs at pausing
  · exact absurd (notPausing.symm.trans pausing) (by simp)
  · exact ⟨t', pausing⟩

/-- A call begins while no other is storing. -/
theorem Orderly.setError (orderly : s.Orderly) (handler : t = .event → s.event = .execute)
    (alone : ∀ t, s.storing t = false) (notClearing : s.clearing = false)
    (quiet : t ≠ .event → s.Parked ∨ s.NoReport) :
    { s.setCall t (some (.storeNodeId, report)) with
      errorStatus := report.status
      reports := s.reports ++ [report] }.Orderly := by
  have notLoading : s.event.loading = false := by
    by_cases event : t = .event
    · rw [handler event]
      rfl
    · exact loading_of_quiet (quiet event)
  have only : ∀ t', (s.setCall t (some (.storeNodeId, report))).storing t' = true → t' = t := by
    intro t' storing
    by_contra ne
    rw [storing_setCall, if_neg ne, alone t'] at storing
    cases storing
  have itself : (s.setCall t (some (.storeNodeId, report))).storing t = true := by
    rw [storing_setCall, if_pos rfl]
    rfl
  refine { orderly with
    reported := ?_
    status := ?_
    nodeId := ?_
    alone := fun t₁ t₂ first second => (only t₁ first).trans (only t₂ second).symm
    handler := ?_
    quiet := ?_
    resuming := fun clearing => absurd (notClearing.symm.trans clearing) (by simp)
    cleared := fun clearing => absurd (notClearing.symm.trans clearing) (by simp)
    whole := fun _ quiet => absurd (itself.symm.trans (quiet t)) (by simp)
    loads := fun loading => absurd (notLoading.symm.trans loading) (by simp)
    loaded := loaded_of_not_loading notLoading
    owed := fun requested => orderly.owed (requested.imp_right (exists_pausing_of_setCall rfl))
    truthful := ⟨?_, orderly.truthful.kept⟩ }
  · intro t' step' report' called
    rw [calls_setCall] at called
    split_ifs at called
    · cases called
      simp
    · exact List.mem_append_left _ (orderly.reported _ _ _ called)
  · intro t' step' report' called storing
    obtain rfl := only t' ((storing_of_call called).trans storing)
    rw [calls_setCall, if_pos rfl] at called
    cases called
    rfl
  · intro t' report' called
    obtain rfl := only t' (storing_of_call called)
    rw [calls_setCall, if_pos rfl] at called
    cases called
  · intro called
    by_cases event : t = .event
    · exact handler event
    · rw [calls_setCall, if_neg (Ne.symm event)] at called
      exact orderly.handler called
  · intro i storing
    obtain rfl := only _ storing
    exact (quiet (by simp)).imp_right fun noReport => noReport.setCall rfl
  · intro requested report' consumed
    exact List.mem_append_left _ (orderly.truthful.whole _ _ consumed)

theorem Orderly.storeNodeId (orderly : s.Orderly)
    (call : s.calls t = some (.storeNodeId, report)) :
    { s.setCall t (some (.storeInfo, report)) with errorNodeId := report.nodeId }.Orderly := by
  have itself : s.storing t = true := storing_of_call call
  have same : ∀ t', (s.setCall t (some (.storeInfo, report))).storing t' = s.storing t' := by
    intro t'
    rw [storing_setCall]
    split_ifs with eq
    · rw [eq, itself]
      rfl
    · rfl
  have notLoading := orderly.not_loading itself
  have notClearing := orderly.not_clearing (t := t) (by simp [call])
  refine { orderly with
    reported := fun _ _ _ => orderly.reported_setCall call
    status := ?_
    nodeId := ?_
    alone := ?_
    handler := orderly.handler_setCall (by simp [call])
    quiet := ?_
    resuming := fun clearing => absurd (notClearing.symm.trans clearing) (by simp)
    cleared := fun clearing => absurd (notClearing.symm.trans clearing) (by simp)
    whole := fun _ quiet => absurd ((same t).symm.trans (quiet t)) (by simp [itself])
    loads := fun loading => absurd (notLoading.symm.trans loading) (by simp)
    loaded := loaded_of_not_loading notLoading
    owed := fun requested => orderly.owed (requested.imp_right (exists_pausing_of_setCall rfl))
    truthful := ⟨orderly.truthful.whole, orderly.truthful.kept⟩ }
  · intro t' step' report' called storing
    rw [calls_setCall] at called
    split_ifs at called
    · cases called
      exact orderly.status _ _ _ call rfl
    · exact orderly.status _ _ _ called storing
  · intro t' report' called
    obtain rfl := orderly.alone t' t ((same t').symm.trans (storing_of_call called)) itself
    rw [calls_setCall, if_pos rfl] at called
    cases called
    rfl
  · intro t₁ t₂ first second
    exact orderly.alone t₁ t₂ ((same t₁).symm.trans first) ((same t₂).symm.trans second)
  · intro i storing
    exact (orderly.quiet i ((same _).symm.trans storing)).imp_right fun noReport =>
      noReport.setCall rfl

/-- The report is whole once its info is stored. -/
theorem Orderly.storeInfo (orderly : s.Orderly) (call : s.calls t = some (.storeInfo, report)) :
    { s.setCall t (some (.storePending, report)) with errorInfo := report.info }.Orderly := by
  have itself : s.storing t = true := storing_of_call call
  have nobody : ∀ t', (s.setCall t (some (.storePending, report))).storing t' = false := by
    intro t'
    rw [storing_setCall]
    split_ifs with eq
    · rfl
    · by_contra storing
      exact eq (orderly.alone t' t (by simpa using storing) itself)
  have notLoading := orderly.not_loading itself
  have notClearing := orderly.not_clearing (t := t) (by simp [call])
  have status := orderly.status _ _ _ call rfl
  have nodeId := orderly.nodeId _ _ call
  refine { orderly with
    reported := fun _ _ _ => orderly.reported_setCall call
    status := ?_
    nodeId := ?_
    alone := fun t' _ storing => absurd ((nobody t').symm.trans storing) (by simp)
    handler := orderly.handler_setCall (by simp [call])
    quiet := fun i storing => absurd ((nobody (.other i)).symm.trans storing) (by simp)
    resuming := fun clearing => absurd (notClearing.symm.trans clearing) (by simp)
    cleared := fun clearing => absurd (notClearing.symm.trans clearing) (by simp)
    whole := fun _ _ => ?_
    loads := fun loading => absurd (notLoading.symm.trans loading) (by simp)
    loaded := loaded_of_not_loading notLoading
    owed := fun requested => orderly.owed (requested.imp_right (exists_pausing_of_setCall rfl))
    truthful := ⟨orderly.truthful.whole, orderly.truthful.kept⟩ }
  · intro t' step' report' called storing
    exact absurd ((nobody t').symm.trans (storing_of_call called)) (by simp [storing])
  · intro t' report' called
    exact absurd ((nobody t').symm.trans (storing_of_call called)) (by decide)
  · have stored : (⟨s.errorStatus, s.errorNodeId, report.info⟩ : ErrorReport) = report := by
      rw [status, nodeId]
    have reported := orderly.reported _ _ _ call
    rwa [← stored] at reported

/-- A whole report becomes pending. -/
theorem Orderly.storePending (orderly : s.Orderly)
    (call : s.calls t = some (.storePending, report)) :
    { s.setCall t (some (.storePause, report)) with errorPending := true }.Orderly := by
  have publishing : s.publishing t = true := by simp [ErrorQueue.publishing, call]
  have notClearing := orderly.not_clearing (t := t) (by simp [call])
  have same : ∀ t', (s.setCall t (some (.storePause, report))).storing t' = s.storing t' := by
    intro t'
    rw [storing_setCall]
    split_ifs with eq
    · rw [eq, storing_of_call call]
      rfl
    · rfl
  refine { orderly with
    reported := fun _ _ _ => orderly.reported_setCall call
    status := ?_
    nodeId := ?_
    alone := ?_
    handler := orderly.handler_setCall (by simp [call])
    quiet := ?_
    resuming := fun clearing => absurd (notClearing.symm.trans clearing) (by simp)
    cleared := fun clearing => absurd (notClearing.symm.trans clearing) (by simp)
    whole := fun _ nobody =>
      orderly.whole (.inr ⟨t, publishing⟩) fun t' => (same t').symm.trans (nobody t')
    loads := ?_
    owed := fun _ _ => rfl
    truthful := ⟨orderly.truthful.whole, orderly.truthful.kept⟩ }
  · intro t' step' report' called storing
    rw [calls_setCall] at called
    split_ifs at called
    · cases called
      cases storing
    · exact orderly.status _ _ _ called storing
  · intro t' report' called
    rw [calls_setCall] at called
    split_ifs at called
    · cases called
    · exact orderly.nodeId _ _ called
  · intro t₁ t₂ first second
    exact orderly.alone t₁ t₂ ((same t₁).symm.trans first) ((same t₂).symm.trans second)
  · intro i storing
    rcases orderly.quiet i ((same _).symm.trans storing) with parked | noReport
    · exact .inl parked
    · exact absurd ((noReport.2.2 t).symm.trans publishing) (by simp)
  · intro loading
    exact ⟨(orderly.loads loading).1, fun t' => (same t').trans ((orderly.loads loading).2 t')⟩

/-- A call returns after its request of a pause. -/
theorem Orderly.storePause (orderly : s.Orderly)
    (call : s.calls t = some (.storePause, report)) :
    { s.setCall t none with mustPause := true, requested := true }.Orderly := by
  have notClearing := orderly.not_clearing (t := t) (by simp [call])
  have same : ∀ t', (s.setCall t none).storing t' = s.storing t' := by
    intro t'
    rw [storing_setCall]
    split_ifs with eq
    · rw [eq, storing_of_call call]
      rfl
    · rfl
  have earlier : ∀ t' call, (s.setCall t none).calls t' = some call → s.calls t' = some call := by
    intro t' call'
    rw [calls_setCall]
    split_ifs <;> simp
  refine { orderly with
    reported := fun t' _ _ called => orderly.reported _ _ _ (earlier t' _ called)
    status := fun t' _ _ called => orderly.status _ _ _ (earlier t' _ called)
    nodeId := fun t' _ called => orderly.nodeId _ _ (earlier t' _ called)
    alone := ?_
    handler := orderly.handler_setCall (by simp [call])
    quiet := ?_
    resuming := fun clearing => absurd (notClearing.symm.trans clearing) (by simp)
    cleared := fun clearing => absurd (notClearing.symm.trans clearing) (by simp)
    whole := ?_
    loads := ?_
    left := fun _ => rfl
    owed := fun _ => orderly.owed (.inr ⟨t, by simp [pausing, call]⟩)
    truthful := ⟨orderly.truthful.whole, orderly.truthful.kept⟩ }
  · intro t₁ t₂ first second
    exact orderly.alone t₁ t₂ ((same t₁).symm.trans first) ((same t₂).symm.trans second)
  · intro i storing
    exact (orderly.quiet i ((same _).symm.trans storing)).imp_right fun noReport =>
      noReport.setCall rfl
  · rintro (pending | ⟨t', publishing⟩) nobody
    · exact orderly.whole (.inl pending) fun t' => (same t').symm.trans (nobody t')
    · replace publishing := publishing_setCall.symm.trans publishing
      split_ifs at publishing
      · cases publishing
      · exact orderly.whole (.inr ⟨t', publishing⟩) fun t' => (same t').symm.trans (nobody t')
  · intro loading
    exact ⟨(orderly.loads loading).1, fun t' => (same t').trans ((orderly.loads loading).2 t')⟩

theorem Orderly.storeNext (orderly : s.Orderly) (step : s.storeNext t = some s') :
    s'.Orderly := by
  rcases Option.map_eq_some_iff.mp step with ⟨⟨store, report⟩, call, rfl⟩
  cases store with
  | storeNodeId => exact orderly.storeNodeId call
  | storeInfo => exact orderly.storeInfo call
  | storePending => exact orderly.storePending call
  | storePause => exact orderly.storePause call

theorem Orderly.next (orderly : s.Orderly) {a : ErrorAction ι} (separate : s.Separate a)
    (step : s.next a = some s') : s'.Orderly := by
  cases a with
  | setError t report =>
      rcases Option.ite_none_right_eq_some.mp step with ⟨⟨idle, handler⟩, next⟩
      cases next
      cases t with
      | event =>
          have execute := handler rfl
          refine orderly.setError handler ?_ ?_ (fun ne => absurd rfl ne)
          · rintro (_ | i)
            · exact storing_of_none idle
            · exact separate i
          · -- The event thread executes handlers only when no `resume` is in progress.
            by_contra clearing
            have parked := orderly.woken (.inl (resume_of_clearing (by simpa using clearing)))
            rw [execute] at parked
            cases parked
      | other i =>
          rcases separate with ⟨alone, notClearing, quiet⟩
          exact orderly.setError handler alone notClearing fun _ => quiet
  | store t => exact orderly.storeNext step
  | pause =>
      cases step
      exact { orderly with truthful := ⟨orderly.truthful.whole, orderly.truthful.kept⟩ }
  | endQueue =>
      cases step
      exact { orderly with truthful := ⟨orderly.truthful.whole, orderly.truthful.kept⟩ }
  | resume =>
      rcases Option.ite_none_right_eq_some.mp step with ⟨_, next⟩
      cases next
      exact orderly.resume separate.1 separate.2.1 separate.2.2
  | resumeStep => exact orderly.resumeNext step
  | event => exact orderly.eventNext step

omit [DecidableEq ι] in
theorem orderly_init : (init : ErrorQueue ι).Orderly where
  reported _ _ _ call := by cases call
  status _ _ _ call := by cases call
  nodeId _ _ call := by cases call
  alone _ _ storing := by cases storing
  handler call := absurd rfl call
  quiet _ storing := by cases storing
  resuming clearing := by cases clearing
  cleared clearing := by cases clearing
  woken := by simp [init]
  once resume := absurd rfl resume
  whole := by simp [init, publishing]
  loads loading := by cases loading
  loaded := loaded_of_not_loading rfl
  left := by simp [init]
  owed := by simp [init, pausing]
  truthful := truthful_of_not_consumed (by simp [init])

/-- When the calls are separate, `consumeError` gives the three arguments of one call of
`setError`, and it gives some after a pause which was requested by `setError`. -/
theorem consumeError_truthful {actions : List (ErrorAction ι)}
    (path : (machine ι).Path Separate actions s) : s.Truthful :=
  (path.invariant orderly_init fun _ _ _ orderly separate step =>
    orderly.next separate step).truthful

/-! ### Runs on two threads -/

instance [Fintype ι] (p : Thread ι → Prop) [DecidablePred p] : Decidable (∀ t, p t) :=
  decidable_of_iff (p .event ∧ ∀ i, p (.other i))
    ⟨fun both t => t.casesOn both.1 both.2, fun all => ⟨all _, fun _ => all _⟩⟩

instance : Decidable s.Parked := inferInstanceAs (Decidable (_ ∧ _))

instance [Fintype ι] : Decidable s.NoReport := inferInstanceAs (Decidable (_ ∧ _))

instance [Fintype ι] (a : ErrorAction ι) : Decidable (s.Separate a) :=
  match a with
  | .setError .event _ => inferInstanceAs (Decidable (∀ i, s.storing (.other i) = false))
  | .setError (.other _) _ =>
      inferInstanceAs (Decidable ((∀ t, s.storing t = false) ∧ s.clearing = false ∧
        (s.Parked ∨ s.NoReport)))
  | .resume =>
      inferInstanceAs (Decidable ((∀ t, s.calls t = none) ∧ s.event.parked = true ∧
        s.eventResume = false))
  | .store _ | .pause | .endQueue | .resumeStep | .event => isTrue trivial

/-- The event thread takes the report of a handler which has failed, and goes on after `resume`.
Then a push finds the queue full. -/
def failuresApart : List (ErrorAction Unit) :=
  [.setError .event ⟨-1, 4, 0⟩, .store .event, .store .event, .store .event, .store .event,
    .event, .event, .event, .event, .event, .event, .event, .event,
    .resume, .resumeStep, .resumeStep, .resumeStep, .resumeStep, .resumeStep, .event,
    .setError (.other ()) ⟨-10, -1, 0⟩, .store (.other ()), .store (.other ()),
    .store (.other ()), .store (.other ()),
    .event, .event, .event, .event, .event, .event, .event]

theorem failuresApart_truthful : ∃ s : ErrorQueue Unit,
    s.event = .consumed true (some ⟨-10, -1, 0⟩) ∧ s.Truthful := by
  obtain ⟨s, run, event⟩ : ∃ s, ((machine Unit).restrict Separate).run init failuresApart = some s ∧
      s.event = .consumed true (some ⟨-10, -1, 0⟩) := ⟨_, rfl, rfl⟩
  exact ⟨s, event, consumeError_truthful (Machine.path_of_run run)⟩

/-- A push finds the queue full between the first two stores for a handler which has failed. -/
def failuresMixed : List (ErrorAction Unit) :=
  [.setError .event ⟨-1, 4, 0⟩, .setError (.other ()) ⟨-10, -1, 0⟩, .store (.other ()),
    .store (.other ()), .store (.other ()), .store (.other ()),
    .store .event, .store .event, .store .event, .store .event,
    .event, .event, .event, .event, .event, .event, .event]

/-- A push finds the queue full while `resume` has not yet cleared the report. -/
def failureErased : List (ErrorAction Unit) :=
  [.pause, .event, .event, .event, .event, .event,
    .resume, .setError (.other ()) ⟨-10, -1, 0⟩, .store (.other ()), .store (.other ()),
    .store (.other ()), .store (.other ()),
    .resumeStep, .resumeStep, .resumeStep, .resumeStep, .resumeStep,
    .event, .event, .event, .event, .event]

/-- A report may be made of two calls, and a requested pause may come without report. -/
theorem failures_not_truthful :
    (∃ s, (machine Unit).Runs failuresMixed s ∧
      s.event = .consumed true (some ⟨-10, 4, 0⟩) ∧ ⟨-10, 4, 0⟩ ∉ s.reports) ∧
    ∃ s, (machine Unit).Runs failureErased s ∧ s.event = .consumed true none := by
  obtain ⟨mixed, runs, event, reports⟩ : ∃ s, (machine Unit).run init failuresMixed = some s ∧
      s.event = .consumed true (some ⟨-10, 4, 0⟩) ∧
      s.reports = [⟨-1, 4, 0⟩, ⟨-10, -1, 0⟩] := ⟨_, rfl, rfl, rfl⟩
  obtain ⟨erased, runs', event'⟩ : ∃ s, (machine Unit).run init failureErased = some s ∧
      s.event = .consumed true none := ⟨_, rfl, rfl⟩
  exact ⟨⟨mixed, Machine.runs_of_run runs, event, by rw [reports]; decide⟩,
    erased, Machine.runs_of_run runs', event'⟩

end Calls

end ErrorQueue

end CmsisStream.Runtime
