import CmsisStream.Runtime.ResumeScheduler

/-!
# Waiting for an acknowledgement

Two threads may wait for one acknowledgement, and then one of them waits in vain: this happens
when the application pauses while a node or a handler fails.
-/

namespace CmsisStream.Runtime

variable {κ : Type}

/-- The application is about to ask the stream thread to go on. -/
def Application.resumesStream : Application κ → Bool
  | .setContext _ | .resumeQueue | .postStreamResume => true
  | _ => false

/-- The application has resumed the stream thread, and it has not asked it to pause since. -/
def Application.streamRuns : Application κ → Bool
  | .outside .started | .outside (.resumed true) | .pauseQueue .pauseScheduler
  | .postStreamPause false | .postEventResume | .waitEventResumed | .clearPaused => true
  | _ => false

/-- In the pause which follows an error or a request to stop -/
def StreamThread.failing : StreamThread κ → Bool
  | .pauseQueue _ | .pauseNodes _ false | .waitEventPaused => true
  | _ => false

namespace Control

variable {length : κ → ℕ} {s s' : Control κ}

/-- A thread waits for an acknowledgement of a thread which is parked, and which nobody is about
to resume. -/
inductive Orphaned (s : Control κ) : Prop
  | stream
      (waits : s.Awaits ∨ s.event = .waitStreamPaused ∧ s.application.resumesStream = false)
      (parked : s.stream = .waitResume)
      (unset : s.cg_streamReplyEvent.isSet .streamPaused = false)
      (unasked : s.cg_streamEvent.isSet .streamResume = false)
  | event
      (waits : s.application = .waitEventPaused ∨
        s.stream = .waitEventPaused ∧ s.application ≠ .postEventResume)
      (parked : s.event = .waitResume)
      (unset : s.cg_streamReplyEvent.isSet .eventPaused = false)
      (unasked : s.cg_streamEvent.isSet .eventResume = false)

/-- The stream thread has been resumed. -/
def StreamRuns (s : Control κ) : Prop :=
  s.application.streamRuns = true ∨
    s.application = .waitStreamResumed ∧ s.cg_streamReplyEvent.isSet .streamResumed = true

/-- A thread is parked only where its acknowledgement is for the application. -/
structure Acknowledged (length : κ → ℕ) (s : Control κ) : Prop where
  event : s.event ≠ .postStreamPause ∧ s.event ≠ .waitStreamPaused
  stream : s.stream.failing = false
  application : s.application.eventFailed = false ∧ s.application ≠ .pauseQueue .streamFailed
  eventPaused : s.application.eventStopped = false → s.event = .waitResume →
    s.cg_streamReplyEvent.isSet .eventPaused = true ∨
      s.cg_streamEvent.isSet .eventResume = true
  streamRuns : s.StreamRuns → 0 < length s.current_context → s.stream ≠ .waitResume
  streamPaused : s.Awaits → s.stream = .waitResume →
    s.cg_streamReplyEvent.isSet .streamPaused = true

theorem Acknowledged.not_orphaned (acknowledged : s.Acknowledged length) : ¬ s.Orphaned := by
  rcases acknowledged with ⟨event, stream, application, eventPaused, streamRuns, streamPaused⟩
  rintro (⟨awaits | ⟨waits, -⟩, parked, unset, -⟩ | ⟨waits | ⟨waits, -⟩, parked, unset, unasked⟩)
  · exact absurd (unset.symm.trans (streamPaused awaits parked)) Bool.false_ne_true
  · exact event.2 waits
  · rcases eventPaused (by rw [waits]; rfl) parked with set | set
    · exact absurd (unset.symm.trans set) Bool.false_ne_true
    · exact absurd (unasked.symm.trans set) Bool.false_ne_true
  · rw [waits] at stream
    cases stream

/-- Nobody asks the stream thread to pause while it runs. -/
theorem Acknowledged.unrequested (acknowledged : s.Acknowledged length)
    (requests : s.Requests) (runs : s.StreamRuns) :
    s.cg_streamEvent.isSet .streamPause = false ∧ ¬ s.Acknowledges := by
  cases stop : s.application.eventStopped with
  | true => exact requests.stopped stop
  | false =>
      have runs : s.application.streamRuns = true := by
        rcases runs with runs | ⟨waits, -⟩
        · exact runs
        · rw [waits] at stop
          cases stop
      have alone : ¬ (s.cg_streamEvent.isSet .streamPause = true ∨ s.Acknowledges) := by
        intro request
        rcases requests.one request with ⟨resuming, waits⟩ | waits | ⟨parked, unset, unasked⟩
        · rw [waits] at runs
          cases runs
        · exact acknowledged.event.2 waits
        · rcases acknowledged.eventPaused stop parked with set | set
          · exact absurd (unset.symm.trans set) Bool.false_ne_true
          · exact absurd (unasked.symm.trans set) Bool.false_ne_true
      exact ⟨Bool.eq_false_iff.mpr fun set => alone (.inl set), fun ack => alone (.inr ack)⟩

/-- The stream thread runs, or is asked to pause, in the current context. -/
theorem StreamSide.inContext (streams : s.StreamSide length) (runs : s.StreamRuns ∨ s.Awaits) :
    s.InContext length := by
  rcases runs with (runs | ⟨waits, answer⟩) | ⟨resuming, waits⟩
  · refine (streams.running ?_).2
    cases pc : s.application <;> simp_all [Application.streamRuns, Application.switching]
  · rcases streams.waiting waits with ⟨-, unset, -⟩ | ⟨-, unset, -⟩ | ⟨-, -, -, context⟩
    · exact absurd (unset.symm.trans answer) Bool.false_ne_true
    · exact absurd (unset.symm.trans answer) Bool.false_ne_true
    · exact context
  · exact (streams.running (by rw [waits]; rfl)).2

theorem Acknowledged.applicationStep (acknowledged : s.Acknowledged length)
    (handshake : s.Handshake length)
    (quiet : s.application = .waitEventResumed ∨ s.application = .clearPaused →
      s.cg_streamReplyEvent.isSet .eventPaused = false)
    (step : ApplicationStep length s s') : s'.Acknowledged length := by
  have long := handshake.streams.long
  rcases acknowledged with ⟨event, stream, application, eventPaused, streamRuns, streamPaused⟩
  cases step with
  | streamFailed pc set =>
      exact absurd (.inr set) (handshake.requests.stopped (by rw [pc]; rfl)).2
  | eventFailed pc set =>
      exact absurd ((quiet (.inl pc)).symm.trans set) Bool.false_ne_true
  | @postStreamPause resuming pc =>
      cases resuming with
      | true =>
          rw [pc] at application
          cases application.1
      | false =>
          have parked : s.stream ≠ .waitResume :=
            streamRuns (.inl (by rw [pc]; rfl)) (long (.inr ⟨_, pc⟩))
          exact ⟨event, stream, ⟨rfl, nofun⟩, fun _ => eventPaused (by rw [pc]; rfl),
            by simp [StreamRuns, Application.streamRuns], fun _ wait => absurd wait parked⟩
  | postStreamResume pc =>
      rcases handshake.streams.switching (.inr pc) with ⟨-, answer, -⟩
      refine ⟨event, stream, ⟨rfl, nofun⟩, nofun, ?_, by simp [Awaits]⟩
      rintro (runs | ⟨-, set⟩)
      · cases runs
      · exact absurd (answer.symm.trans set) Bool.false_ne_true
  | _ =>
      constructor
      all_goals simp_all [Application.eventFailed, Application.eventStopped,
        Application.streamRuns, StreamRuns, Awaits]

theorem Acknowledged.streamStep (acknowledged : s.Acknowledged length)
    (handshake : s.Handshake length) (success : ∀ c, s'.stream ≠ .pauseQueue c)
    (step : StreamStep length s s') : s'.Acknowledged length := by
  have unrequested := acknowledged.unrequested handshake.requests
  have inContext := handshake.streams.inContext
  rcases acknowledged with ⟨event, stream, application, eventPaused, streamRuns, streamPaused⟩
  cases step with
  | @callNoScheduler c pc short =>
      have current : s.StreamRuns ∨ s.Awaits → length s.current_context = 0 := by
        intro runs
        have same := (inContext runs).1
        rw [pc] at same
        rwa [← show c = s.current_context from same]
      refine ⟨event, rfl, application, eventPaused, fun runs long => ?_, fun awaits => ?_⟩
      · exact absurd (current (.inl runs)) long.ne'
      · exact absurd (current (.inr awaits)) (handshake.streams.long (.inl awaits)).ne'
  | streamPostPaused pc =>
      refine ⟨event, rfl, application, ?_, ?_, fun _ _ => by simp⟩
      · simpa using eventPaused
      · intro runs
        have runs : s.StreamRuns := runs.imp_right fun ⟨waits, set⟩ => ⟨waits, by simpa using set⟩
        exact absurd (.inl (by rw [pc]; rfl)) (unrequested runs).2
  | _ =>
      constructor
      all_goals simp_all [StreamRuns, StreamThread.failing, Awaits]

theorem Acknowledged.eventStep (acknowledged : s.Acknowledged length)
    (success : s'.event ≠ .postStreamPause) (step : EventStep length s s') :
    s'.Acknowledged length := by
  rcases acknowledged with ⟨event, stream, application, eventPaused, streamRuns, streamPaused⟩
  cases step <;> constructor
  all_goals simp_all [StreamRuns, Awaits]

/-- The application starts to pause. -/
theorem Acknowledged.pause (acknowledged : s.Acknowledged length) {last : Returned}
    (outside : s.application = .outside last) (turn : s.application ≠ .outside .paused) :
    { s with application := .pauseQueue .pauseScheduler }.Acknowledged length := by
  rcases acknowledged with ⟨event, stream, application, eventPaused, streamRuns, streamPaused⟩
  rw [outside] at application turn eventPaused
  have runs : s.StreamRuns := by
    rw [StreamRuns, outside]
    cases last with
    | started => exact .inl rfl
    | paused => exact absurd rfl turn
    | resumed ok =>
        cases ok with
        | false => cases application.1
        | true => exact .inl rfl
  refine ⟨event, stream, ⟨rfl, nofun⟩, fun _ => eventPaused ?_, fun _ => streamRuns runs,
    by simp [Awaits]⟩
  cases last with
  | paused => exact absurd rfl turn
  | started | resumed => rfl

/-- The stream thread fails because of a node. -/
theorem StreamStep.failing_node (step : StreamStep length s s') {c : κ}
    (fails : s'.stream = .pauseQueue c) : s.stream = .node c := by
  cases step with
  | nodeFails pc =>
      cases fails
      exact pc
  | _ => cases fails

/-- The event thread asks the stream thread to pause because of an error. -/
theorem EventStep.consumes_error (step : EventStep length s s')
    (fails : s'.event = .postStreamPause) : ∃ c, s.event = .consumeError c ∧ 0 < length c := by
  cases step with
  | eventError pc long => exact ⟨_, pc, long⟩
  | _ => cases fails

end Control

namespace Threads

variable {ρ ι ε : Type} [DecidableEq ρ] [DecidableEq ι] {contexts : κ → ExecutionContext ρ}
  {capacity : ℕ} {s s' : Threads κ ρ ι ε} {a : Action κ ρ ι ε}

/-- The application pauses and resumes in turn, no node fails or stops, the event thread finds no
error in a context with a schedule, and its acknowledgement is not posted too early for
`stream_resume_scheduler`. -/
def Undisturbed (contexts : κ → ExecutionContext ρ) (s : Threads κ ρ ι ε) :
    Action κ ρ ι ε → Prop
  | .node status => status = .success ∨ status = .last
  | .event => ∀ c, s.event = .consumeError c → 0 < (contexts c).scheduler_length →
      (s.queues (contexts c).evtQueue).errorPending = false
  | .application => s.application = .waitEventResumed ∨ s.application = .clearPaused →
      s.cg_streamReplyEvent.isSet .eventPaused = false
  | a => s.Alternates a

omit [DecidableEq ρ] [DecidableEq ι] in
theorem Undisturbed.alternates (allow : s.Undisturbed contexts a) : s.Alternates a := by
  cases a with
  | application | event | node => trivial
  | _ => exact allow

theorem acknowledged_next (acknowledged : s.Acknowledged (schedulerLength contexts))
    (handshake : s.Handshake (schedulerLength contexts)) (allow : s.Undisturbed contexts a)
    (step : s.next contexts capacity a = some s') :
    s'.Acknowledged (schedulerLength contexts) := by
  have control := next_control step
  cases a with
  | pause =>
      rcases control with ⟨⟨last, outside⟩, control⟩
      rw [control]
      exact acknowledged.pause outside allow
  | resume c =>
      rw [control.2]
      exact ⟨acknowledged.event, acknowledged.stream, ⟨rfl, nofun⟩, nofun,
        by simp [Control.StreamRuns, Application.streamRuns], by simp [Control.Awaits]⟩
  | application => exact acknowledged.applicationStep handshake allow control
  | stream =>
      refine acknowledged.streamStep handshake (fun c fails => ?_) control
      have pc := control.failing_node fails
      simp only [Threads.next, streamStep, pc] at step
      cases step
  | node status =>
      refine acknowledged.streamStep handshake (fun c fails => ?_) control
      have pc := control.failing_node fails
      simp only [Threads.next, nodeStep, pc] at step
      split at step
      · rcases allow with rfl | rfl
        all_goals
          cases step
          cases fails
      · cases step
  | event =>
      refine acknowledged.eventStep (fun fails => ?_) control
      rcases control.consumes_error fails with ⟨c, pc, long⟩
      have none_ := allow c pc long
      simp only [Threads.next, eventStep, pc, none_, Bool.false_eq_true, ↓reduceIte] at step
      cases step
      split at fails <;> cases fails
  | queue r action => exact control ▸ acknowledged

/-- No thread waits for an acknowledgement that nobody is going to give. -/
theorem wait_event_thread_paused_acknowledged {context : κ} {actions : List (Action κ ρ ι ε)}
    (path : (machine contexts capacity context).Path (Undisturbed contexts) actions s) :
    ¬ s.Orphaned := by
  have invariant := path.invariant
    (p := fun s => s.Handshake (schedulerLength contexts) ∧
      s.Acknowledged (schedulerLength contexts))
    ⟨init_handshake, ⟨by simp [machine, init], rfl, ⟨rfl, nofun⟩, nofun, nofun, nofun⟩⟩
    fun s a s' ⟨handshake, acknowledged⟩ allow step =>
      ⟨handshake_next handshake allow.alternates step,
        acknowledged_next acknowledged handshake allow step⟩
  exact invariant.2.not_orphaned

instance [DecidableEq κ] [Fintype κ] (s : Threads κ ρ ι ε) (a : Action κ ρ ι ε) :
    Decidable (s.Undisturbed contexts a) :=
  match a with
  | .node status => inferInstanceAs (Decidable (status = .success ∨ status = .last))
  | .event => inferInstanceAs (Decidable (∀ c, s.event = .consumeError c →
      0 < (contexts c).scheduler_length →
        (s.queues (contexts c).evtQueue).errorPending = false))
  | .application => inferInstanceAs (Decidable
      (s.application = .waitEventResumed ∨ s.application = .clearPaused →
        s.cg_streamReplyEvent.isSet .eventPaused = false))
  | .pause => inferInstanceAs (Decidable (s.Alternates .pause))
  | .resume c => inferInstanceAs (Decidable (s.Alternates (.resume c)))
  | .stream | .queue _ _ => .isTrue trivial

theorem resumeOnce_acknowledged : ∃ s, (machine (fun _ => ⟨(), 1⟩) 1 ()).Path
    (Undisturbed fun _ => ⟨(), 1⟩) resumeOnce s ∧ ¬ s.Orphaned := by
  have run : ∃ s, ((machine (fun _ => ⟨(), 1⟩) 1 ()).restrict
      (Undisturbed fun _ => ⟨(), 1⟩)).run (init ()) resumeOnce = some s := ⟨_, rfl⟩
  rcases run with ⟨s, run⟩
  have path := Machine.path_of_run run
  exact ⟨s, path, wait_event_thread_paused_acknowledged path⟩

/-- A node reports an error while the application pauses. -/
def pauseDuringError : List (Action Unit Unit Empty ℕ) :=
  [.stream, .stream, .stream, .pause, .queue () (.step (.other .application) 0),
    .queue () (.step (.other .application) 0), .application, .application, .node .error,
    .queue () (.step (.other .stream) 0), .queue () (.step (.other .stream) 0), .stream, .stream,
    .event, .queue () (.execute 0), .queue () (.execute 0), .event, .event, .event, .event,
    .stream, .stream, .application]

/-- The stream thread takes the acknowledgement that the application waits for. -/
theorem wait_event_thread_paused_orphaned : ∃ s, (machine (fun _ => ⟨(), 1⟩) 1 ()).Path
    Alternates pauseDuringError s ∧ s.Orphaned := by
  have run : ∃ s, ((machine (fun _ => ⟨(), 1⟩) 1 ()).restrict Alternates).run (init ())
      pauseDuringError = some s ∧ s.application = .waitEventPaused ∧ s.event = .waitResume ∧
      s.cg_streamReplyEvent.isSet .eventPaused = false ∧
      s.cg_streamEvent.isSet .eventResume = false := ⟨_, rfl, rfl, rfl, rfl, rfl⟩
  rcases run with ⟨s, run, waits, parked, unset, unasked⟩
  exact ⟨s, Machine.path_of_run run, .event (.inl waits) parked unset unasked⟩

end Threads

end CmsisStream.Runtime
