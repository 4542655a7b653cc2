import CmsisStream.Runtime.Transitions

/-!
# The handshakes between the threads

An invariant of the flags and of the threads which holds whatever the event queues hold, and
whichever errors happen, as long as the application pauses and resumes in turn.  It holds during
a call of `stream_resume_scheduler` if it holds when the call starts.
-/

namespace CmsisStream.Runtime

variable {κ : Type}

/-- From the acknowledgement of the event thread to the request to resume it -/
def Application.eventStopped : Application κ → Bool
  | .clearQueue | .outside .paused | .setContext _ | .resumeQueue | .postStreamResume
  | .waitStreamResumed | .postEventResume => true
  | _ => false

/-- From the acknowledgement of the stream thread to the context switch -/
def Application.streamStopped : Application κ → Bool
  | .waitEventPaused | .clearQueue | .outside .paused | .setContext _ => true
  | _ => false

/-- From the context switch to the acknowledgement of the stream thread -/
def Application.switching : Application κ → Bool
  | .resumeQueue | .postStreamResume | .waitStreamResumed => true
  | _ => false

/-- In `wait_stream_resume`, after the request to resume -/
def StreamThread.resuming : StreamThread κ → Bool
  | .loadResumed | .resetFifos _ | .resumeNodes _ | .postResumed => true
  | _ => false

/-- The thread will acknowledge a request to pause. -/
def StreamThread.pausing : StreamThread κ → Bool
  | .pauseNodes _ true | .postPaused => true
  | _ => false

/-- All that the thread does when the context has no schedule. -/
def StreamThread.quiet : StreamThread κ → Bool
  | .loadContext | .callScheduler _ | .waitResume => true
  | _ => false

def StreamThread.context? : StreamThread κ → Option κ
  | .callScheduler c | .beforeNode c | .node c | .pauseQueue c | .pauseNodes c _ | .resetFifos c
  | .resumeNodes c => some c
  | _ => none

namespace Control

variable {length : κ → ℕ} {s s' : Control κ}

/-- The flags between the application and the event thread -/
structure EventSide (s : Control κ) : Prop where
  paused : s.cg_streamReplyEvent.isSet .eventPaused = true →
    s.event = .waitResume ∧ s.cg_streamEvent.isSet .eventResume = false
  stopped : s.application.eventStopped = true → s.event = .waitResume ∧
    s.cg_streamReplyEvent.isSet .eventPaused = false
  resume : s.cg_streamEvent.isSet .eventResume = true →
    s.application = .waitEventResumed ∧ s.event = .waitResume ∧
      s.cg_streamReplyEvent.isSet .eventResumed = false
  resumed : s.cg_streamReplyEvent.isSet .eventResumed = true → s.application = .waitEventResumed
  waking : s.event = .postResumed → s.application = .waitEventResumed ∧
    s.cg_streamReplyEvent.isSet .eventResumed = false

theorem EventSide.applicationStep (side : s.EventSide) (step : ApplicationStep length s s') :
    s'.EventSide := by
  rcases side with ⟨paused, stopped, resume, resumed, waking⟩
  cases step <;> constructor <;> first
    | assumption
    | simp_all [Application.eventStopped]

theorem EventSide.streamStep (side : s.EventSide) (step : StreamStep length s s') :
    s'.EventSide := by
  rcases side with ⟨paused, stopped, resume, resumed, waking⟩
  cases step with
  | streamEventPaused pc set =>
      refine ⟨fun set' => by simp at set', fun stop => ⟨(stopped stop).1, by simp⟩, resume, resumed,
        waking⟩
  | _ => exact ⟨paused, stopped, resume, resumed, waking⟩

theorem EventSide.eventStep (side : s.EventSide) (step : EventStep length s s') :
    s'.EventSide := by
  rcases side with ⟨paused, stopped, resume, resumed, waking⟩
  cases step <;> constructor <;> first
    | assumption
    | simp_all [Application.eventStopped]

/-! ## Requests to pause the stream thread -/

/-- The event thread is parked, and nobody has asked it to go on. -/
def EventParked (s : Control κ) : Prop :=
  s.event = .waitResume ∧ s.cg_streamReplyEvent.isSet .eventPaused = false ∧
    s.cg_streamEvent.isSet .eventResume = false

/-- The application waits for the acknowledgement of the stream thread. -/
def Awaits (s : Control κ) : Prop := ∃ resuming, s.application = .waitStreamPaused resuming

/-- The stream thread has acknowledged a request, or it will. -/
def Acknowledges (s : Control κ) : Prop :=
  s.stream.pausing = true ∨ s.cg_streamReplyEvent.isSet .streamPaused = true

/-- A request to pause the stream thread, or its acknowledgement, is for a thread which waits for
it, or the stream thread has taken the acknowledgement of the event thread. -/
structure Requests (s : Control κ) : Prop where
  one : s.cg_streamEvent.isSet .streamPause = true ∨ s.Acknowledges →
    s.Awaits ∨ s.event = .waitStreamPaused ∨ s.EventParked
  two : s.cg_streamEvent.isSet .streamPause = true → s.Acknowledges →
    s.Awaits ∧ (s.event = .waitStreamPaused ∨ s.EventParked)
  stopped : s.application.eventStopped = true →
    s.cg_streamEvent.isSet .streamPause = false ∧ ¬ s.Acknowledges
  paused : s.cg_streamReplyEvent.isSet .streamPaused = true → s.stream = .waitResume

/-- Fewer requests and acknowledgements need fewer threads which wait. -/
theorem Requests.mono (requests : s.Requests)
    (pause : s'.cg_streamEvent.isSet .streamPause = true →
      s.cg_streamEvent.isSet .streamPause = true)
    (acknowledges : s'.Acknowledges → s.Acknowledges) (awaits : s.Awaits → s'.Awaits)
    (event : s.event = .waitStreamPaused → s'.event = .waitStreamPaused)
    (parked : s.EventParked → s'.EventParked)
    (stopped : s'.application.eventStopped = true → s.application.eventStopped = true)
    (paused : s'.cg_streamReplyEvent.isSet .streamPaused = true → s'.stream = .waitResume) :
    s'.Requests where
  one request := (requests.one (request.imp pause acknowledges)).imp awaits (Or.imp event parked)
  two request ack :=
    (requests.two (pause request) (acknowledges ack)).imp awaits (Or.imp event parked)
  stopped stop := by
    rcases requests.stopped (stopped stop) with ⟨unset, unacknowledged⟩
    exact ⟨Bool.eq_false_iff.mpr fun set => Bool.eq_false_iff.mp unset (pause set),
      fun ack => unacknowledged (acknowledges ack)⟩
  paused := paused

/-- The thread which takes the acknowledgement was the only one to wait for it. -/
theorem Requests.taken (requests : s.Requests)
    (set : s.cg_streamReplyEvent.isSet .streamPaused = true) :
    s.stream.pausing = false := by
  rw [requests.paused set]
  rfl

theorem Requests.applicationStep (requests : s.Requests) (events : s.EventSide)
    (step : ApplicationStep length s s') : s'.Requests := by
  have ready := requests.paused
  cases step with
  | postStreamPause pc =>
      refine ⟨fun _ => .inl ⟨_, rfl⟩, fun _ ack => ⟨⟨_, rfl⟩, ?_⟩, nofun, requests.paused⟩
      rcases requests.one (.inr ack) with ⟨_, waits⟩ | waits
      · exact absurd (pc.symm.trans waits) (by simp)
      · exact waits
  | streamPaused pc set | streamPausedReturns pc set =>
      have pausing := requests.taken set
      refine ⟨?_, fun _ => ?_, nofun, fun set' => ?_⟩
      · rintro (request | ack | set')
        · exact .inr (requests.two request (.inr set)).2
        · exact absurd (pausing.symm.trans ack) Bool.false_ne_true
        · simp at set'
      · rintro (ack | set')
        · exact absurd (pausing.symm.trans ack) Bool.false_ne_true
        · simp at set'
      · simp at set'
  | eventPaused pc set =>
      -- The event thread is parked and acknowledges: nobody waits for the stream thread.
      have alone : ¬ (s.cg_streamEvent.isSet .streamPause = true ∨ s.Acknowledges) := by
        intro request
        rcases requests.one request with ⟨_, waits⟩ | waits | ⟨-, unset, -⟩
        · exact absurd (pc.symm.trans waits) (by simp)
        · exact absurd ((events.paused set).1.symm.trans waits) (by simp)
        · exact absurd (unset.symm.trans set) Bool.false_ne_true
      rcases not_or.mp alone with ⟨unset, unacknowledged⟩
      exact ⟨fun request => absurd request alone, fun request => absurd request unset,
        fun _ => ⟨Bool.eq_false_iff.mpr unset, unacknowledged⟩, requests.paused⟩
  | streamFailed pc set =>
      have stop : s.application.eventStopped = true := by rw [pc]; rfl
      exact absurd (.inr set) (requests.stopped stop).2
  | postEventResume pc =>
      have stop : s.application.eventStopped = true := by rw [pc]; rfl
      rcases requests.stopped stop with ⟨unset, unacknowledged⟩
      refine ⟨fun request => ?_, fun request => ?_, nofun, requests.paused⟩
      · rcases request with request | ack
        · exact absurd (unset.symm.trans request) Bool.false_ne_true
        · exact absurd ack unacknowledged
      · exact absurd (unset.symm.trans request) Bool.false_ne_true
  | _ =>
      refine requests.mono id ?_ ?_ id ?_ ?_ ?_
      all_goals simp_all [Application.eventStopped, EventParked, Awaits, Acknowledges]

/-- The stream thread answers only while it is not asked to go on. -/
theorem Requests.streamStep (requests : s.Requests) (events : s.EventSide)
    (asked : s.cg_streamEvent.isSet .streamResume = true → ¬ s.Acknowledges)
    (step : StreamStep length s s') : s'.Requests := by
  have ready := requests.paused
  cases step with
  | mustPause pc set =>
      have waits := requests.one (.inl set)
      refine ⟨fun _ => waits, fun request => ?_, fun stop => ?_, fun set' => ?_⟩
      · simp at request
      · exact absurd ((requests.stopped stop).1.symm.trans set) Bool.false_ne_true
      · exact absurd (pc.symm.trans (ready set')) (by simp)
  | streamEventPaused pc set =>
      have parked := events.paused set
      refine ⟨fun _ => .inr (.inr ⟨parked.1, by simp, parked.2⟩), fun request _ => ?_,
        fun stop => ?_, fun set' => ?_⟩
      · rcases requests.one (.inl request) with waits | waits | ⟨-, unset, -⟩
        · exact ⟨waits, .inr ⟨parked.1, by simp, parked.2⟩⟩
        · exact absurd (parked.1.symm.trans waits) (by simp)
        · exact absurd (unset.symm.trans set) Bool.false_ne_true
      · exact absurd ((events.stopped stop).2.symm.trans set) Bool.false_ne_true
      · exact absurd (pc.symm.trans (ready (by simpa using set'))) (by simp)
  | streamWakes pc set =>
      refine requests.mono (by simp) ?_ id id id id fun set' => absurd (.inr set') (asked set)
      rintro (ack | set')
      · exact absurd ack (by simp [StreamThread.pausing])
      · exact absurd (.inr set') (asked set)
  | _ =>
      refine requests.mono id ?_ id id id id ?_
      all_goals simp_all [Acknowledges, StreamThread.pausing]

theorem Requests.eventStep (requests : s.Requests) (events : s.EventSide)
    (step : EventStep length s s') : s'.Requests := by
  have ready := requests.paused
  cases step with
  | eventPostStreamPause pc =>
      refine ⟨fun _ => .inr (.inl rfl), fun _ ack => ?_, fun stop => ?_, ready⟩
      · rcases requests.one (.inr ack) with waits | waits | ⟨parked, -⟩
        · exact ⟨waits, .inl rfl⟩
        · exact absurd (pc.symm.trans waits) (by simp)
        · exact absurd (pc.symm.trans parked) (by simp)
      · exact absurd (pc.symm.trans (events.stopped stop).1) (by simp)
  | eventStreamPaused pc set =>
      have pausing := requests.taken set
      refine ⟨?_, fun _ => ?_, fun stop => ?_, fun set' => ?_⟩
      · rintro (request | ack | set')
        · exact .inl (requests.two request (.inr set)).1
        · exact absurd (pausing.symm.trans ack) Bool.false_ne_true
        · simp at set'
      · rintro (ack | set')
        · exact absurd (pausing.symm.trans ack) Bool.false_ne_true
        · simp at set'
      · exact absurd (pc.symm.trans (events.stopped stop).1) (by simp)
      · simp at set'
  | eventWakes pc set =>
      refine requests.mono (by simp) id id (fun waits => ?_) (fun parked => ?_) id ready
      · exact absurd (pc.symm.trans waits) (by simp)
      · exact absurd (parked.2.2.symm.trans set) Bool.false_ne_true
  | eventPostPaused pc =>
      refine requests.mono id ?_ id (fun waits => ?_) (fun parked => ?_) id ?_
      · simp [Acknowledges]
      · exact absurd (pc.symm.trans waits) (by simp)
      · exact absurd (pc.symm.trans parked.1) (by simp)
      · simpa using ready
  | _ =>
      refine requests.mono id ?_ id ?_ ?_ id ?_
      all_goals simp_all [EventParked, Acknowledges]

/-! ## The flags between the application and the stream thread -/

/-- Nobody has asked the stream thread to go on, and it has no answer to give. -/
def Unasked (s : Control κ) : Prop :=
  s.cg_streamEvent.isSet .streamResume = false ∧
    s.cg_streamReplyEvent.isSet .streamResumed = false ∧ s.stream.resuming = false

/-- The stream thread is in the current context. -/
def InContext (length : κ → ℕ) (s : Control κ) : Prop :=
  s.stream.context?.getD s.current_context = s.current_context ∧
    (length s.current_context = 0 → s.stream.quiet = true)

/-- The stream thread has been asked to go on, it is resuming, or it has answered. -/
def StreamWaking (length : κ → ℕ) (s : Control κ) : Prop :=
  (s.cg_streamEvent.isSet .streamResume = true ∧
      s.cg_streamReplyEvent.isSet .streamResumed = false ∧ s.stream.resuming = false) ∨
    (s.cg_streamEvent.isSet .streamResume = false ∧
      s.cg_streamReplyEvent.isSet .streamResumed = false ∧ s.stream.resuming = true ∧
      s.stream.context?.getD s.current_context = s.current_context) ∨
    (s.cg_streamEvent.isSet .streamResume = false ∧
      s.cg_streamReplyEvent.isSet .streamResumed = true ∧ s.stream.resuming = false ∧
      s.InContext length)

structure StreamSide (length : κ → ℕ) (s : Control κ) : Prop where
  running : s.application.switching = false → s.Unasked ∧ s.InContext length
  short : s.application.switching = false → length s.current_context = 0 → ¬ s.Acknowledges
  stopped : s.application.streamStopped = true → 0 < length s.current_context →
    s.stream = .waitResume ∧ ¬ s.Acknowledges
  switching : s.application = .resumeQueue ∨ s.application = .postStreamResume → s.Unasked
  waiting : s.application = .waitStreamResumed → s.StreamWaking length
  long : s.Awaits ∨ (∃ resuming, s.application = .postStreamPause resuming) →
    0 < length s.current_context

theorem Unasked.streamStep (unasked : s.Unasked) (step : StreamStep length s s') : s'.Unasked := by
  rcases unasked with ⟨request, answer, resuming⟩
  cases step <;> simp_all [Unasked, StreamThread.resuming]

theorem InContext.streamStep (context : s.InContext length) (resuming : s.stream.resuming = false)
    (request : s.cg_streamEvent.isSet .streamResume = false)
    (step : StreamStep length s s') : s'.InContext length := by
  rcases context with ⟨same, short⟩
  cases step <;>
    simp_all [InContext, StreamThread.quiet, StreamThread.context?, StreamThread.resuming]
  omega

theorem StreamWaking.streamStep (waking : s.StreamWaking length)
    (step : StreamStep length s s') : s'.StreamWaking length := by
  rcases waking with ⟨request, answer, resuming⟩ | ⟨request, answer, resuming, same⟩ |
    ⟨request, answer, resuming, context⟩
  · cases step <;> simp_all [StreamWaking, StreamThread.resuming, StreamThread.context?]
  · cases step <;>
      simp_all [StreamWaking, StreamThread.resuming, StreamThread.context?, InContext,
        StreamThread.quiet]
  · refine .inr (.inr ⟨?_, ?_, ?_, context.streamStep resuming request step⟩) <;>
    cases step <;> simp_all [StreamThread.resuming]

theorem StreamSide.asked (streams : s.StreamSide length) (requests : s.Requests)
    (set : s.cg_streamEvent.isSet .streamResume = true) : ¬ s.Acknowledges := by
  cases switching : s.application.switching with
  | false => exact absurd ((streams.running switching).1.1.symm.trans set) Bool.false_ne_true
  | true =>
      refine (requests.stopped ?_).2
      cases pc : s.application <;> simp_all [Application.switching, Application.eventStopped]

theorem StreamSide.mono (streams : s.StreamSide length)
    (application : s'.application = s.application) (stream : s'.stream = s.stream)
    (context : s'.current_context = s.current_context)
    (request : s'.cg_streamEvent.isSet .streamResume = s.cg_streamEvent.isSet .streamResume)
    (answer : s'.cg_streamReplyEvent.isSet .streamResumed =
      s.cg_streamReplyEvent.isSet .streamResumed)
    (acknowledges : s'.Acknowledges → s.Acknowledges) : s'.StreamSide length := by
  rcases streams with ⟨running, short, stopped, switching, waiting, long⟩
  constructor
  all_goals
    simp only [Unasked, InContext, StreamWaking, Awaits, application, stream, context, request,
      answer]
  · exact running
  · exact fun out none_ ack => short out none_ (acknowledges ack)
  · exact fun stop some_ => (stopped stop some_).imp_right fun free ack => free (acknowledges ack)
  · exact switching
  · exact waiting
  · exact long

theorem StreamSide.eventStep (streams : s.StreamSide length) (step : EventStep length s s') :
    s'.StreamSide length := by
  cases step <;> exact streams.mono rfl rfl rfl rfl rfl (by simp +contextual [Acknowledges])

theorem StreamSide.streamStep (streams : s.StreamSide length) (requests : s.Requests)
    (step : StreamStep length s s') : s'.StreamSide length := by
  have asked := streams.asked requests
  rcases streams with ⟨running, short, stopped, switching, waiting, long⟩
  have application : s'.application = s.application := by cases step <;> rfl
  have context : s'.current_context = s.current_context := by cases step <;> rfl
  have quiet : s.stream.quiet = true → ¬ s.Acknowledges →
      s.cg_streamEvent.isSet .streamResume = false → ¬ s'.Acknowledges := by
    intro quiet unacknowledged unset
    cases step <;> simp_all [Acknowledges, StreamThread.pausing, StreamThread.quiet]
  constructor
  · rw [application]
    intro out
    rcases running out with ⟨unasked, inContext⟩
    exact ⟨unasked.streamStep step, inContext.streamStep unasked.2.2 unasked.1 step⟩
  · rw [application, context]
    intro out none_
    rcases running out with ⟨unasked, inContext⟩
    exact quiet (inContext.2 none_) (short out none_) unasked.1
  · rw [application, context]
    intro stop some_
    have out : s.application.switching = false := by
      cases pc : s.application <;> simp_all [Application.switching, Application.streamStopped]
    rcases stopped stop some_ with ⟨parked, unacknowledged⟩
    have unset := (running out).1.1
    cases step <;> simp_all
  · rw [application]
    exact fun switch => (switching switch).streamStep step
  · rw [application]
    exact fun wait => (waiting wait).streamStep step
  · rw [Awaits, application, context]
    exact long

/-- The stream thread and its flags, when the application is not in a context switch. -/
theorem StreamSide.ofRunning (out : s.application.switching = false) (unasked : s.Unasked)
    (context : s.InContext length) (short : length s.current_context = 0 → ¬ s.Acknowledges)
    (stopped : s.application.streamStopped = true → 0 < length s.current_context →
      s.stream = .waitResume ∧ ¬ s.Acknowledges)
    (long : s.Awaits ∨ (∃ resuming, s.application = .postStreamPause resuming) →
      0 < length s.current_context) : s.StreamSide length where
  running _ := ⟨unasked, context⟩
  short _ := short
  stopped := stopped
  switching switch := by
    rcases switch with pc | pc <;> simp [pc, Application.switching] at out
  waiting pc := by simp [pc, Application.switching] at out
  long := long

theorem StreamSide.applicationStep (streams : s.StreamSide length) (requests : s.Requests)
    (step : ApplicationStep length s s') : s'.StreamSide length := by
  rcases streams with ⟨running, short, stopped, switching, waiting, long⟩
  cases step with
  | setContext pc =>
      rw [pc] at running
      exact ⟨nofun, nofun, nofun, fun _ => (running rfl).1, nofun, by simp [Awaits]⟩
  | queueResumed pc =>
      exact ⟨nofun, nofun, nofun, fun _ => switching (.inl pc), nofun, by simp [Awaits]⟩
  | postStreamResume pc =>
      rcases switching (.inr pc) with ⟨-, answer, resuming⟩
      exact ⟨nofun, nofun, nofun, by simp, fun _ => .inl ⟨by simp, answer, resuming⟩,
        by simp [Awaits]⟩
  | streamFailed pc set =>
      exact absurd (.inr set) (requests.stopped (by rw [pc]; rfl)).2
  | streamResumed pc set unset =>
      have unacknowledged := (requests.stopped (by rw [pc]; rfl)).2
      rcases waiting pc with ⟨-, answer, -⟩ | ⟨-, answer, -⟩ | ⟨request, -, resuming, context⟩
      · exact absurd (answer.symm.trans set) Bool.false_ne_true
      · exact absurd (answer.symm.trans set) Bool.false_ne_true
      · refine ofRunning rfl ⟨request, by simp, resuming⟩ context (fun _ => ?_) nofun
          (by simp [Awaits])
        rintro (ack | set')
        · exact unacknowledged (.inl ack)
        · simp at set'
  | streamPaused pc set =>
      rw [pc] at running
      rcases running rfl with ⟨unasked, context⟩
      have ready := requests.paused set
      have unacknowledged : ¬ Acknowledges { s with
          cg_streamReplyEvent := s.cg_streamReplyEvent.clear [.streamPaused]
          application := .waitEventPaused } := by
        simp [Acknowledges, ready, StreamThread.pausing]
      exact ofRunning rfl unasked context (fun _ => unacknowledged)
        (fun _ _ => ⟨ready, unacknowledged⟩) (by simp [Awaits])
  | eventPaused pc _ | queueCleared pc =>
      rw [pc] at running
      rcases running rfl with ⟨unasked, context⟩
      refine ofRunning rfl unasked context (fun none_ => short (by rw [pc]; rfl) none_)
        (fun _ some_ => stopped (by rw [pc]; rfl) some_) (by simp [Awaits])
  | _ =>
      have out : s.application.switching = false := by simp [*, Application.switching]
      rcases running out with ⟨unasked, context⟩
      refine ofRunning rfl unasked context (fun none_ ack => short out none_ ?_) ?_ ?_
      · exact ack.imp_right (by simp)
      all_goals simp_all [Awaits, Application.streamStopped, Acknowledges]

/-- The flags and the threads agree, whatever the event queues hold, when the application calls
the two functions in turn. -/
structure Handshake (length : κ → ℕ) (s : Control κ) : Prop where
  events : s.EventSide
  requests : s.Requests
  streams : s.StreamSide length

theorem Handshake.applicationStep (handshake : s.Handshake length)
    (step : ApplicationStep length s s') : s'.Handshake length :=
  ⟨handshake.events.applicationStep step,
    handshake.requests.applicationStep handshake.events step,
    handshake.streams.applicationStep handshake.requests step⟩

theorem Handshake.streamStep (handshake : s.Handshake length)
    (step : StreamStep length s s') : s'.Handshake length :=
  ⟨handshake.events.streamStep step,
    handshake.requests.streamStep handshake.events
      (handshake.streams.asked handshake.requests) step,
    handshake.streams.streamStep handshake.requests step⟩

theorem Handshake.eventStep (handshake : s.Handshake length)
    (step : EventStep length s s') : s'.Handshake length :=
  ⟨handshake.events.eventStep step, handshake.requests.eventStep handshake.events step,
    handshake.streams.eventStep step⟩

/-- The application starts to pause. -/
theorem Handshake.pause (handshake : s.Handshake length) {last : Returned}
    (outside : s.application = .outside last) :
    { s with application := .pauseQueue .pauseScheduler }.Handshake length := by
  rcases handshake with ⟨⟨paused, stopped, resume, resumed, waking⟩, requests, streams⟩
  refine ⟨⟨paused, nofun, ?_, ?_, ?_⟩, requests.mono id id ?_ id id nofun requests.paused, ?_⟩
  · intro set
    exact absurd (outside.symm.trans (resume set).1) (by simp)
  · intro set
    exact absurd (outside.symm.trans (resumed set)) (by simp)
  · intro pc
    exact absurd (outside.symm.trans (waking pc).1) (by simp)
  · simp [Awaits, outside]
  · have out : s.application.switching = false := by rw [outside]; rfl
    rcases streams.running out with ⟨unasked, context⟩
    exact .ofRunning rfl unasked context (streams.short out) nofun (by simp [Awaits])

/-- The application starts to resume. -/
theorem Handshake.resume (handshake : s.Handshake length) {c : κ}
    (outside : s.application = .outside .paused) :
    { s with application := .setContext c }.Handshake length := by
  rcases handshake with ⟨⟨paused, stopped, resume, resumed, waking⟩, requests, streams⟩
  refine ⟨⟨paused, fun _ => stopped (by rw [outside]; rfl), ?_, ?_, ?_⟩,
    requests.mono id id ?_ id id (fun _ => by rw [outside]; rfl) requests.paused, ?_⟩
  · intro set
    exact absurd (outside.symm.trans (resume set).1) (by simp)
  · intro set
    exact absurd (outside.symm.trans (resumed set)) (by simp)
  · intro pc
    exact absurd (outside.symm.trans (waking pc).1) (by simp)
  · simp [Awaits, outside]
  · have out : s.application.switching = false := by rw [outside]; rfl
    rcases streams.running out with ⟨unasked, context⟩
    exact .ofRunning rfl unasked context (streams.short out)
      (fun _ => streams.stopped (by rw [outside]; rfl)) (by simp [Awaits])

end Control

namespace Threads

variable {ρ ι ε : Type} [DecidableEq ρ] [DecidableEq ι] {contexts : κ → ExecutionContext ρ}
  {capacity : ℕ} {s s' : Threads κ ρ ι ε} {a : Action κ ρ ι ε}

omit [DecidableEq ρ] [DecidableEq ι] in
theorem init_handshake {context : κ} :
    (init context : Threads κ ρ ι ε).Handshake (schedulerLength contexts) where
  events := ⟨nofun, nofun, nofun, nofun, nofun⟩
  requests := by
    refine ⟨?_, nofun, nofun, nofun⟩
    simp [init, Control.Acknowledges, StreamThread.pausing]
  streams := by
    refine .ofRunning rfl ⟨rfl, rfl, rfl⟩ ⟨rfl, fun _ => rfl⟩ (fun _ => ?_) nofun ?_
    · simp [init, Control.Acknowledges, StreamThread.pausing]
    · simp [init, Control.Awaits]

/-- The application pauses and resumes in turn, with any contexts. -/
def Alternates (s : Threads κ ρ ι ε) : Action κ ρ ι ε → Prop
  | .pause => s.application ≠ .outside .paused
  | .resume _ => s.application = .outside .paused
  | _ => True

instance [DecidableEq κ] (s : Threads κ ρ ι ε) (a : Action κ ρ ι ε) :
    Decidable (s.Alternates a) :=
  match a with
  | .pause => inferInstanceAs (Decidable (_ ≠ _))
  | .resume _ => inferInstanceAs (Decidable (_ = _))
  | .application | .stream | .event | .node _ | .queue _ _ => .isTrue trivial

theorem handshake_next (handshake : s.Handshake (schedulerLength contexts))
    (turn : s.Alternates a) (step : s.next contexts capacity a = some s') :
    s'.Handshake (schedulerLength contexts) := by
  have control := next_control step
  cases a with
  | pause =>
      rcases control with ⟨⟨last, outside⟩, control⟩
      rw [control]
      exact handshake.pause outside
  | resume c =>
      rw [control.2]
      exact handshake.resume turn
  | application => exact handshake.applicationStep control
  | stream | node => exact handshake.streamStep control
  | event => exact handshake.eventStep control
  | queue r action => exact control ▸ handshake

end Threads

end CmsisStream.Runtime
