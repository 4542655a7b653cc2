import CmsisStream.Runtime.StopThreads

/-!
# The messages which end the threads

A flag which is posted by `stream_stop_threads` is taken at most once, and the thread which
takes it ends at its next test of `runtime_stop_requested`.
-/

namespace CmsisStream.Runtime

/-- `STREAM_DONE_EVENT` and the other messages are posted. -/
def StopThreads.eventsPosted : StopThreads → Bool
  | .postReplies | .joinEvent | .joinStream | .returned => true
  | _ => false

theorem StopThreads.eventsPosted_of_posted {stop : StopThreads} (posted : stop.posted = true) :
    stop.eventsPosted = true := by
  cases stop <;> simp_all [StopThreads.posted, eventsPosted]

/-- Where the stream thread tests `runtime_stop_requested` -/
def StreamThread.mayTest {κ : Type} : StreamThread κ → Bool
  | .postPaused | .loadResumed | .loadContext => true
  | _ => false

/-- Before the test of `STREAM_DONE_EVENT` -/
def StreamThread.inScheduler {κ : Type} : StreamThread κ → Bool
  | .loadContext | .callScheduler _ | .beforeNode _ | .node _ => true
  | _ => false

/-- The thread may still wait to be resumed. -/
def StreamThread.beforeResume {κ : Type} : StreamThread κ → Bool
  | .loadContext | .callScheduler _ | .beforeNode _ | .node _ | .pauseNodes _ true | .postPaused
  | .waitResume => true
  | _ => false

/-- The thread may still wait for the event thread after an error. -/
def StreamThread.beforeEventPaused {κ : Type} : StreamThread κ → Bool
  | .loadContext | .callScheduler _ | .beforeNode _ | .node _ | .pauseQueue _ | .pauseNodes _ false
  | .waitEventPaused => true
  | _ => false

def EventThread.beforeResume {κ : Type} : EventThread κ → Bool
  | .postPaused | .waitResume => true
  | _ => false

/-- The number of steps of the stream thread which are left, once it is asked to end -/
def StreamThread.rank {κ : Type} (tests : Bool) (pc : StreamThread κ) : ℕ :=
  if tests then 1 else
    match pc with
    | .finished => 0
    | .waitEventPaused | .waitResume => 2
    | .pauseNodes _ false | .postPaused => 3
    | .pauseNodes _ true | .pauseQueue _ => 4
    | .beforeNode _ => 5
    | .node _ => 6
    | .callScheduler _ => 7
    | .loadContext => 8
    | .postResumed => 9
    | .resumeNodes _ => 10
    | .resetFifos _ => 11
    | .loadResumed => 12

/-- The number of steps of the event thread which are left, given the number of those in
`execute` -/
def EventThread.rank {κ : Type} (tests : Bool) (pc : EventThread κ) (execute : κ → ℕ) : ℕ :=
  if tests then 1 else
    match pc with
    | .finished => 0
    | .pauseNodes _ | .waitStreamPaused => 2
    | .postStreamPause => 3
    | .consumeError _ => 4
    | .executed _ => 5
    | .execute c => 6 + execute c
    | .loadContext => 8
    | .postResumed => 9
    | .waitResume => 10
    | .postPaused => 11

theorem StreamThread.rank_le {κ : Type} (tests : Bool) (pc : StreamThread κ) :
    pc.rank tests ≤ 12 := by
  unfold StreamThread.rank
  split
  · omega
  · split <;> omega

theorem EventThread.rank_le {κ : Type} (tests : Bool) (pc : EventThread κ) {execute : κ → ℕ}
    (le : ∀ c, execute c ≤ 8) : pc.rank tests execute ≤ 14 := by
  cases tests with
  | true => simp [EventThread.rank]
  | false =>
      cases pc with
      | execute c =>
          have inExecute := le c
          simp only [EventThread.rank, Bool.false_eq_true, ↓reduceIte]
          omega
      | _ => simp [EventThread.rank]

/-- The number of steps of `stream_stop_threads` which are left after the messages -/
def StopThreads.rank : StopThreads → ℕ
  | .joinEvent => 2
  | .joinStream => 1
  | _ => 0

/-! ## The messages -/

namespace Control

variable {κ : Type} {length : κ → ℕ} {s s' : Control κ} {stop : StopThreads}
  {tests streamDone : Bool}

/-- The messages for the stream thread are there as long as it may wait for them. -/
structure StreamEnds (s : Control κ) (stop : StopThreads) (tests streamDone : Bool) : Prop where
  done : stop.eventsPosted = true → tests = false → s.stream.inScheduler = true →
    streamDone = true
  resume : stop.eventsPosted = true → tests = false → s.stream.beforeResume = true →
    s.cg_streamEvent.isSet .streamResume = true
  eventPaused : stop.posted = true → tests = false → s.stream.beforeEventPaused = true →
    s.cg_streamReplyEvent.isSet .eventPaused = true

/-- The messages for the event thread are there as long as it may wait for them. -/
structure EventEnds (s : Control κ) (stop : StopThreads) (tests : Bool) : Prop where
  resume : stop.eventsPosted = true → tests = false → s.event.beforeResume = true →
    s.cg_streamEvent.isSet .eventResume = true
  streamPaused : stop.posted = true → tests = false → s.event ≠ .finished →
    s.cg_streamReplyEvent.isSet .streamPaused = true

theorem streamEnds_of_notPosted (notPosted : stop.eventsPosted = false)
    (notReplied : stop.posted = false) : s.StreamEnds stop tests streamDone := by
  constructor <;> simp [notPosted, notReplied]

theorem streamEnds_of_finished (finished : s.stream = .finished) :
    s.StreamEnds stop tests streamDone := by
  constructor <;> simp [finished, StreamThread.inScheduler, StreamThread.beforeResume,
    StreamThread.beforeEventPaused]

theorem eventEnds_of_notPosted (notPosted : stop.eventsPosted = false)
    (notReplied : stop.posted = false) : s.EventEnds stop tests := by
  constructor <;> simp [notPosted, notReplied]

theorem eventEnds_of_finished (finished : s.event = .finished) : s.EventEnds stop tests := by
  constructor <;> simp [finished, EventThread.beforeResume]

theorem StreamEnds.streamStep (ends : s.StreamEnds stop false streamDone)
    (step : StreamStep length s s') : s'.StreamEnds stop s.stream.thenTests streamDone := by
  rcases ends with ⟨done, resume, eventPaused⟩
  cases step <;> constructor <;>
    simp_all [StreamThread.inScheduler, StreamThread.beforeResume, StreamThread.beforeEventPaused,
      StreamThread.thenTests]

theorem StreamEnds.eventStep (ends : s.StreamEnds stop tests streamDone)
    (step : EventStep length s s') : s'.StreamEnds stop tests streamDone := by
  rcases ends with ⟨done, resume, eventPaused⟩
  cases step <;> constructor <;> simp_all

theorem EventEnds.streamStep (ends : s.EventEnds stop tests) (step : StreamStep length s s') :
    s'.EventEnds stop tests := by
  rcases ends with ⟨resume, streamPaused⟩
  cases step <;> constructor <;> simp_all

theorem EventEnds.eventStep (ends : s.EventEnds stop false) (step : EventStep length s s') :
    s'.EventEnds stop s'.event.tests := by
  rcases ends with ⟨resume, streamPaused⟩
  cases step <;> constructor <;> simp_all [EventThread.tests, EventThread.beforeResume]

/-- Each step of the stream thread brings it nearer to its end, when it is not to execute a
node. -/
theorem StreamStep.rank_lt (step : StreamStep length s s')
    (notNode : ∀ c, s.stream ≠ .beforeNode c) :
    s'.stream.rank s.stream.thenTests < s.stream.rank false := by
  cases step <;> simp_all [StreamThread.rank, StreamThread.thenTests]

theorem StreamStep.notFinished (step : StreamStep length s s') : s.stream ≠ .finished := by
  cases step <;> simp_all

theorem StreamStep.mayTest (step : StreamStep length s s') (tests : s.stream.thenTests = true) :
    s'.stream.mayTest = true := by
  cases step <;> simp_all [StreamThread.thenTests, StreamThread.mayTest]

theorem EventStep.notFinished (step : EventStep length s s') : s.event ≠ .finished := by
  cases step <;> simp_all

/-- The event thread executes the queue of the current context. -/
theorem EventStep.executes (step : EventStep length s s') {c : κ} (pc : s'.event = .execute c) :
    c = s.current_context := by
  cases step <;> simp_all

/-- Each step of the event thread brings it nearer to its end. -/
theorem EventStep.rank_lt (step : EventStep length s s') {execute execute' : κ → ℕ}
    (starts : s.event = .loadContext → execute' s.current_context ≤ 1) :
    s'.event.rank s'.event.tests execute' < s.event.rank false execute := by
  cases step with
  | eventLoad pc =>
      have one := starts pc
      simp only [EventThread.rank, EventThread.tests, pc, Bool.false_eq_true, ↓reduceIte]
      omega
  | eventReturns pc =>
      simp only [EventThread.rank, EventThread.tests, pc, Bool.false_eq_true, ↓reduceIte]
      omega
  | _ => simp_all [EventThread.rank, EventThread.tests]

end Control

end CmsisStream.Runtime
