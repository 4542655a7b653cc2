import CmsisStream.Runtime.PauseScheduler

/-!
# The result of a resume

What `stream_resume_scheduler` returns is true when it is called after a pause.  After an error,
or a request to stop, the acknowledgement which the application has not taken makes it fail while
the two threads go on.
-/

namespace CmsisStream.Runtime

variable {κ : Type}

/-- In `stream_resume_scheduler`, or after it -/
def Application.resumes : Application κ → Bool
  | .setContext _ | .resumeQueue | .postStreamResume | .waitStreamResumed | .postEventResume
  | .waitEventResumed | .clearPaused | .pauseQueue .streamFailed | .pauseQueue .eventFailed
  | .postStreamPause true | .waitStreamPaused true | .outside (.resumed _) => true
  | _ => false

/-- From the answer of the stream thread -/
def Application.streamAnswered : Application κ → Bool
  | .postEventResume | .waitEventResumed | .clearPaused | .outside (.resumed true) => true
  | _ => false

/-- From the answer of the event thread -/
def Application.eventAnswered : Application κ → Bool
  | .clearPaused | .outside (.resumed true) => true
  | _ => false

/-- From the failure of the event thread -/
def Application.eventFailed : Application κ → Bool
  | .pauseQueue .eventFailed | .postStreamPause true | .waitStreamPaused true
  | .outside (.resumed false) => true
  | _ => false

namespace Control

variable {length : κ → ℕ} {s s' : Control κ}

/-- Both threads are parked, or the stream thread is about to park, and no flag is posted. -/
structure Settled (length : κ → ℕ) (s : Control κ) : Prop where
  event : s.event = .waitResume
  stream : s.stream = .waitResume ∨ length s.current_context = 0 ∧
    (s.stream = .loadContext ∨ s.stream = .callScheduler s.current_context)
  requests : ∀ f, s.cg_streamEvent.isSet f = false
  replies : ∀ f, s.cg_streamReplyEvent.isSet f = false

/-- A call which starts in such a state starts a handshake. -/
theorem Settled.handshake (settled : s.Settled length) (c : κ) :
    { s with application := .setContext c }.Handshake length := by
  rcases settled with ⟨event, stream, requests, replies⟩
  have quiet : s.stream.quiet = true := by
    rcases stream with pc | ⟨-, pc | pc⟩ <;> rw [pc] <;> rfl
  have resuming : s.stream.resuming = false := by
    rcases stream with pc | ⟨-, pc | pc⟩ <;> rw [pc] <;> rfl
  have same : s.stream.context?.getD s.current_context = s.current_context := by
    rcases stream with pc | ⟨-, pc | pc⟩ <;> rw [pc] <;> rfl
  have pausing : s.stream.pausing = false := by
    rcases stream with pc | ⟨-, pc | pc⟩ <;> rw [pc] <;> rfl
  have parked : 0 < length s.current_context → s.stream = .waitResume :=
    fun long => stream.resolve_right fun ⟨short, _⟩ => long.ne' short
  refine ⟨⟨?_, ?_, ?_, ?_, ?_⟩, ⟨?_, ?_, ?_, ?_⟩,
    .ofRunning rfl ?_ ⟨same, fun _ => quiet⟩ ?_ (fun _ long => ⟨parked long, ?_⟩) ?_⟩
  all_goals simp [Acknowledges, Unasked, Awaits, event, requests, replies, pausing, resuming]

instance [DecidableEq κ] (s : Control κ) : Decidable (s.Settled length) :=
  decidable_of_iff (s.event = .waitResume ∧
      (s.stream = .waitResume ∨ length s.current_context = 0 ∧
        (s.stream = .loadContext ∨ s.stream = .callScheduler s.current_context)) ∧
      (∀ f ∈ [.streamPause, .streamResume, .eventResume], s.cg_streamEvent.isSet f = false) ∧
      ∀ f ∈ [.streamPaused, .streamResumed, .eventPaused, .eventResumed],
        s.cg_streamReplyEvent.isSet f = false)
    ⟨fun ⟨event, stream, requests, replies⟩ =>
        ⟨event, stream, fun f => requests f (by cases f <;> simp),
          fun f => replies f (by cases f <;> simp)⟩,
      fun ⟨event, stream, requests, replies⟩ =>
        ⟨event, stream, fun f _ => requests f, fun f _ => replies f⟩⟩

/-- What the threads have done since the request to resume -/
structure ResumeSide (length : κ → ℕ) (s : Control κ) : Prop where
  leaving : s.application = .waitStreamResumed →
    s.stream.resuming = true ∨ s.cg_streamReplyEvent.isSet .streamResumed = true →
    s.history.streamLeft = true
  streamLeft : s.application.streamAnswered = true → s.history.streamLeft = true
  waking : s.application = .waitEventResumed →
    s.event = .postResumed ∨ s.cg_streamReplyEvent.isSet .eventResumed = true →
    s.history.eventLeft = true
  eventLeft : s.application.eventAnswered = true → s.history.eventLeft = true
  again : s.application = .waitEventResumed →
    s.cg_streamReplyEvent.isSet .eventPaused = true → s.history.eventPausedAgain = true
  failed : s.application.eventFailed = true → s.EventParked ∧ s.history.failedFresh = true
  running : s.application ≠ .pauseQueue .streamFailed
  stopped : s.application = .outside (.resumed false) → 0 < length s.current_context →
    s.stream = .waitResume

theorem ApplicationStep.resumes (step : ApplicationStep length s s')
    (resumes : s'.application.resumes = true) : s.application.resumes = true := by
  cases step with
  | @postStreamPause resuming pc =>
      rw [pc]
      cases resuming with
      | false => cases resumes
      | true => rfl
  | queuePaused | queuePausedOnly | streamPaused | eventPaused | queueCleared => cases resumes
  | _ => simp [*, Application.resumes]

theorem ResumeSide.applicationStep (side : s.ResumeSide length) (handshake : s.Handshake length)
    (step : ApplicationStep length s s') : s'.ResumeSide length := by
  have ready := handshake.requests.paused
  rcases handshake.events with ⟨paused, eventStopped, resume, resumed, -⟩
  rcases side with ⟨leaving, streamLeft, waking, eventLeft, again, failed, running, stopped⟩
  cases step with
  | @postStreamPause resuming pc =>
      refine ⟨nofun, nofun, nofun, nofun, nofun, ?_, nofun, nofun⟩
      cases resuming with
      | false => nofun
      | true => exact fun _ => failed (by rw [pc]; rfl)
  | postStreamResume pc =>
      rcases handshake.streams.switching (.inr pc) with ⟨-, answer, resuming⟩
      refine ⟨fun _ left => ?_, nofun, nofun, nofun, nofun, nofun, nofun, nofun⟩
      rcases left with left | left
      · exact absurd (resuming.symm.trans left) Bool.false_ne_true
      · exact absurd (answer.symm.trans left) Bool.false_ne_true
  | streamFailed pc set =>
      -- No acknowledgement was left before the request, and the stream thread posts none.
      exact absurd (.inr set) (handshake.requests.stopped (by rw [pc]; rfl)).2
  | _ =>
      constructor
      all_goals simp_all [Application.streamAnswered, Application.eventAnswered,
        Application.eventFailed, Application.eventStopped, EventParked]

theorem ResumeSide.streamStep (side : s.ResumeSide length) (handshake : s.Handshake length)
    (step : StreamStep length s s') : s'.ResumeSide length := by
  rcases side with ⟨leaving, streamLeft, waking, eventLeft, again, failed, running, stopped⟩
  cases step with
  | streamWakes pc set =>
      have unreturned : s.application ≠ .outside (.resumed false) := by
        intro returned
        have out : s.application.switching = false := by rw [returned]; rfl
        exact absurd ((handshake.streams.running out).1.1.symm.trans set) Bool.false_ne_true
      exact ⟨fun _ _ => rfl, fun _ => rfl, waking, eventLeft, again, failed, running,
        fun returned => absurd returned unreturned⟩
  | _ =>
      constructor
      all_goals simp_all [EventParked, StreamThread.resuming]

theorem ResumeSide.eventStep (side : s.ResumeSide length) (step : EventStep length s s') :
    s'.ResumeSide length := by
  rcases side with ⟨leaving, streamLeft, waking, eventLeft, again, failed, running, stopped⟩
  cases step <;> constructor
  all_goals simp_all [EventParked]

/-- A call which starts when nothing is left of the previous ones -/
def Resumes (length : κ → ℕ) (s : Control κ) : Prop :=
  s.application.resumes = true → s.Handshake length ∧ s.ResumeSide length

end Control

namespace Threads

variable {ρ ι ε : Type} [DecidableEq ρ] [DecidableEq ι] {contexts : κ → ExecutionContext ρ}
  {capacity : ℕ} {s s' : Threads κ ρ ι ε} {a : Action κ ρ ι ε}

/-- What the result of `stream_resume_scheduler` says -/
structure Truthful (s : Threads κ ρ ι ε) : Prop where
  resumed : s.application = .outside (.resumed true) →
    s.history.streamLeft = true ∧ s.history.eventLeft = true
  failed : s.application = .outside (.resumed false) → s.history.failedFresh = true ∧
    (∀ c, s.stream ≠ .node c) ∧ ∀ r msg, (s.queues r).execute ≠ .dispatch msg

/-- The application calls the two functions in any order, and it resumes only when both threads
have settled. -/
def ResumesSettled (contexts : κ → ExecutionContext ρ) (s : Threads κ ρ ι ε) :
    Action κ ρ ι ε → Prop
  | .resume _ => s.Settled (schedulerLength contexts)
  | _ => True

theorem resumes_next (resumes : s.Resumes (schedulerLength contexts))
    (allow : s.ResumesSettled contexts a) (step : s.next contexts capacity a = some s') :
    s'.Resumes (schedulerLength contexts) := by
  have control := next_control step
  intro call
  cases a with
  | pause =>
      rw [control.2] at call
      cases call
  | resume c =>
      rw [control.2]
      exact ⟨allow.handshake c, nofun, nofun, nofun, nofun, nofun, nofun, nofun, nofun⟩
  | application =>
      rcases resumes (Control.ApplicationStep.resumes control call) with ⟨handshake, side⟩
      exact ⟨handshake.applicationStep control, side.applicationStep handshake control⟩
  | stream | node =>
      rw [(Control.StreamStep.frame control).1] at call
      rcases resumes call with ⟨handshake, side⟩
      exact ⟨handshake.streamStep control, side.streamStep handshake control⟩
  | event =>
      rw [(Control.EventStep.frame control).1] at call
      rcases resumes call with ⟨handshake, side⟩
      exact ⟨handshake.eventStep control, side.eventStep control⟩
  | queue r action =>
      rw [show s'.toControl = s.toControl from control] at call ⊢
      exact resumes call

/-- The result of `stream_resume_scheduler` is true. -/
theorem stream_resume_scheduler_truthful {context : κ} {actions : List (Action κ ρ ι ε)}
    (path : (machine contexts capacity context).Path (ResumesSettled contexts) actions s) :
    s.Truthful := by
  have invariant := path.invariant
    (p := fun s => s.Resumes (schedulerLength contexts) ∧
      ∀ r msg, (s.queues r).execute = .dispatch msg →
        ∃ c, s.event = .execute c ∧ (contexts c).evtQueue = r)
    ⟨nofun, nofun⟩
    fun s a s' ⟨resumes, dispatch⟩ allow step =>
      ⟨resumes_next resumes allow step, dispatching_next dispatch step⟩
  rcases invariant with ⟨resumes, dispatch⟩
  refine ⟨fun returned => ?_, fun returned => ?_⟩
  · rcases resumes (by rw [returned]; rfl) with ⟨-, side⟩
    exact ⟨side.streamLeft (by rw [returned]; rfl), side.eventLeft (by rw [returned]; rfl)⟩
  · rcases resumes (by rw [returned]; rfl) with ⟨handshake, side⟩
    rcases side.failed (by rw [returned]; rfl) with ⟨⟨parked, -⟩, fresh⟩
    have quiet : s.stream.quiet = true := by
      rcases Nat.eq_zero_or_pos (schedulerLength contexts s.current_context) with short | long
      · exact (handshake.streams.running (by rw [returned]; rfl)).2.2 short
      · rw [side.stopped returned long]
        rfl
    refine ⟨fresh, fun c pc => ?_, fun r msg dispatched => ?_⟩
    · rw [pc] at quiet
      cases quiet
    · rcases dispatch r msg dispatched with ⟨c, executing, -⟩
      exact absurd (parked.symm.trans executing) (by simp)

instance [DecidableEq κ] (s : Threads κ ρ ι ε) (a : Action κ ρ ι ε) :
    Decidable (s.ResumesSettled contexts a) :=
  match a with
  | .resume _ => inferInstanceAs (Decidable (s.toControl.Settled (schedulerLength contexts)))
  | .pause | .application | .stream | .event | .node _ | .queue _ _ => .isTrue trivial

/-- The application resumes the context that it has paused. -/
def resumeOnce : List (Action Unit Unit Empty ℕ) :=
  pauseOnce ++ [.resume (), .application, .queue () (.step (.other .application) 0),
    .queue () (.step (.other .application) 0), .application, .application, .stream, .stream,
    .stream, .stream, .stream, .application, .application, .event, .event, .application,
    .application]

theorem resumeOnce_truthful : ∃ s, (machine (fun _ => ⟨(), 1⟩) 1 ()).Path
    (ResumesSettled fun _ => ⟨(), 1⟩) resumeOnce s ∧ s.Truthful := by
  have run : ∃ s, ((machine (fun _ => ⟨(), 1⟩) 1 ()).restrict
      (ResumesSettled fun _ => ⟨(), 1⟩)).run (init ()) resumeOnce = some s := ⟨_, rfl⟩
  rcases run with ⟨s, run⟩
  have path := Machine.path_of_run run
  exact ⟨s, path, stream_resume_scheduler_truthful path⟩

/-- A node reports an error, and the application resumes the context once both threads are
parked. -/
def resumeAfterError : List (Action Unit Unit Empty ℕ) :=
  [.stream, .stream, .stream, .node .error, .queue () (.step (.other .stream) 0),
    .queue () (.step (.other .stream) 0), .stream, .stream, .event, .queue () (.execute 0),
    .queue () (.execute 0), .event, .event, .event, .event, .stream, .stream, .resume (),
    .application, .queue () (.step (.other .application) 0),
    .queue () (.step (.other .application) 0), .application, .application, .application, .stream,
    .stream, .stream, .stream, .stream, .stream, .stream, .stream,
    .queue () (.step (.other .application) 0), .queue () (.step (.other .application) 0),
    .application]

/-- The acknowledgement of the error makes the call fail, and the stream thread executes a
node. -/
theorem stream_resume_scheduler_not_truthful : ∃ s, (machine (fun _ => ⟨(), 1⟩) 1 ()).Runs
    resumeAfterError s ∧ s.stream = .node () ∧ ¬ s.Truthful := by
  have run : ∃ s, (machine (fun _ => ⟨(), 1⟩) 1 ()).run (init ()) resumeAfterError = some s ∧
      s.application = .outside (.resumed false) ∧ s.stream = .node () := ⟨_, rfl, rfl, rfl⟩
  rcases run with ⟨s, run, returned, executes⟩
  exact ⟨s, Machine.runs_of_run run, executes, fun truthful =>
    (truthful.failed returned).2.1 () executes⟩

end Threads

end CmsisStream.Runtime
