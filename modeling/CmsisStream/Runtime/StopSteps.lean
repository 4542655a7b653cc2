import CmsisStream.Runtime.StopMessages

/-!
# Steps of the threads which are stopped

An invariant of the runtime from the call of `stream_stop_threads` on.  Once the messages are
posted every step of a thread decreases a rank, whatever the others do.
-/

namespace CmsisStream.Runtime

namespace StoppableThreads

variable {κ ρ ι ε : Type} [DecidableEq ρ] [DecidableEq ι]

section

variable (contexts : κ → ExecutionContext ρ) (s : StoppableThreads κ ρ ι ε)

/-- The event queue of the current context -/
def ownQueue : PosixEventQueue (Caller ι) ε :=
  s.threads.queues (contexts s.threads.current_context).evtQueue

/-- The number of steps in `execute` of the queue of a context -/
def executeRank (c : κ) : ℕ :=
  PosixEventQueue.leaveRank (s.threads.queues (contexts c).evtQueue).execute

def rank : ℕ :=
  s.stop.rank + s.threads.stream.rank s.streamTests +
    s.threads.event.rank s.eventTests (s.executeRank contexts)

/-- What has become of the event queue -/
def EndsQueue : Prop :=
  match s.stop with
  | .notCalled | .endQueue => True
  | .endedQueue => (s.ownQueue contexts).Ending (.other .application)
  | _ => (s.ownQueue contexts).Leaves

/-- What holds in every state -/
structure Usual (s : StoppableThreads κ ρ ι ε) (capacity : ℕ) : Prop where
  streamTests : s.streamTests = true → s.threads.stream.mayTest = true
  eventTests : s.eventTests = true → s.threads.event.tests = true
  stored : ∀ r, ∃ items, (s.threads.queues r).Stored capacity items

/-- While `stream_stop_threads` is executed, and afterwards -/
structure Stops (capacity : ℕ) : Prop where
  usual : s.Usual capacity
  requested : s.runtime_stop_requested = true
  called : s.stop ≠ .notCalled
  outside : ∃ last, s.threads.application = .outside last
  own : ∀ c, s.threads.event = .execute c →
    (contexts c).evtQueue = (contexts s.threads.current_context).evtQueue
  ends : s.EndsQueue contexts
  streamEnds : s.threads.StreamEnds s.stop s.streamTests s.streamDone
  eventEnds : s.threads.EventEnds s.stop s.eventTests
  eventJoined : s.stop = .joinStream ∨ s.stop = .returned → s.threads.event = .finished
  streamJoined : s.stop = .returned → s.threads.stream = .finished

end

variable {contexts : κ → ExecutionContext ρ} {capacity : ℕ} {s s' : StoppableThreads κ ρ ι ε}

/-- The queue of the current context, when the threads go on -/
theorem Stops.endsQueue (stops : s.Stops contexts capacity)
    (works : ∀ r, s.threads.Works capacity contexts r (s'.threads.queues r))
    (context : s'.threads.current_context = s.threads.current_context) (stop : s'.stop = s.stop) :
    s'.EndsQueue contexts := by
  have isOwn := works (contexts s.threads.current_context).evtQueue
  have same : s'.ownQueue contexts =
      s'.threads.queues (contexts s.threads.current_context).evtQueue := by
    rw [StoppableThreads.ownQueue, context]
  have ends := stops.ends
  simp only [EndsQueue, stop, same] at ends ⊢
  split at ends
  · trivial
  · trivial
  · exact isOwn.ending ends
  · exact isOwn.leaves ends

/-! ## Steps of the stream thread -/

/-- What the stream thread can do -/
inductive StreamCase (contexts : κ → ExecutionContext ρ) (s : StoppableThreads κ ρ ι ε) :
    StoppableThreads κ ρ ι ε → Prop
  | ends (tests : s.streamTests = true) (requested : s.runtime_stop_requested = true) :
      StreamCase contexts s
        { s with streamTests := false, threads := { s.threads with stream := .finished } }
  | goesOn (tests : s.streamTests = true) (notRequested : s.runtime_stop_requested = false) :
      StreamCase contexts s { s with streamTests := false }
  | done {c : κ} (noTest : s.streamTests = false) (pc : s.threads.stream = .beforeNode c)
      (isSet : s.streamDone = true) :
      StreamCase contexts s
        { s with
          streamDone := false
          threads := { s.threads.call (contexts c).evtQueue .stream .pause with
            cg_streamEvent := s.threads.cg_streamEvent.clear [.streamPause]
            stream := .pauseQueue c } }
  | step {threads : Threads κ ρ ι ε} (noTest : s.streamTests = false)
      (notDone : ∀ c, s.threads.stream = .beforeNode c → s.streamDone = false)
      (step : s.threads.streamStep contexts = some threads) :
      StreamCase contexts s { s with threads := threads, streamTests := s.threads.stream.thenTests }

theorem streamCase (next : s.streamStep contexts = some s') : s.StreamCase contexts s' := by
  simp only [streamStep] at next
  split at next
  · rename_i tests
    by_cases requested : s.runtime_stop_requested = true
    · rw [if_pos requested] at next
      cases next
      exact .ends tests requested
    · rw [if_neg requested] at next
      cases next
      exact .goesOn tests (Bool.eq_false_iff.mpr requested)
  · rename_i noTest
    split at next
    · rename_i c pc isSet
      cases next
      exact .done (Bool.eq_false_iff.mpr noTest) pc isSet
    · rename_i pc notBoth
      rcases Option.map_eq_some_iff.mp next with ⟨threads, step, rfl⟩
      refine .step (Bool.eq_false_iff.mpr noTest) (fun c isBefore => ?_) step
      exact Bool.eq_false_iff.mpr fun isSet => notBoth c isBefore isSet

theorem usual_of_queues {threads : Threads κ ρ ι ε} (usual : s.Usual capacity)
    (works : ∀ r, s.threads.Works capacity contexts r (threads.queues r)) (r : ρ) :
    ∃ items, (threads.queues r).Stored capacity items := by
  rcases usual.stored r with ⟨items, stored⟩
  exact (works r).stored stored

theorem works_streamStep {threads : Threads κ ρ ι ε}
    (step : s.threads.streamStep contexts = some threads) (r : ρ) :
    s.threads.Works capacity contexts r (threads.queues r) := by
  rw [Threads.streamStep_queues step]
  exact .same

theorem StreamCase.works (case : s.StreamCase contexts s') (r : ρ) :
    s.threads.Works capacity contexts r (s'.threads.queues r) := by
  cases case with
  | ends | goesOn => exact .same
  | done => exact Threads.works_pause _ r
  | step _ _ step => exact works_streamStep step r

theorem StreamCase.usual (case : s.StreamCase contexts s') (usual : s.Usual capacity) :
    s'.Usual capacity := by
  have stored := usual_of_queues usual case.works
  cases case with
  | ends | goesOn => exact ⟨by simp, usual.eventTests, stored⟩
  | done noTest =>
      exact ⟨fun tests => absurd (noTest.symm.trans tests) (by simp), usual.eventTests, stored⟩
  | step _ _ step =>
      have control := Threads.streamStep_control step
      refine ⟨control.mayTest, fun tests => ?_, stored⟩
      rw [(Control.StreamStep.frame control).2.1]
      exact usual.eventTests tests

theorem executeRank_call (r : ρ) (caller : Caller ι) (operation : Operation ε) (r' : ρ) :
    ((s.threads.call r caller operation).queues r').execute = (s.threads.queues r').execute := by
  rw [Threads.call]
  by_cases same : r' = r
  · subst same
    rw [Threads.setQueue_self]
    rfl
  · rw [Threads.setQueue_of_ne _ same]

omit [DecidableEq ρ] [DecidableEq ι] in
/-- Only the rank of the stream thread changes. -/
theorem rank_lt_of_stream (stop : s'.stop = s.stop) (event : s'.threads.event = s.threads.event)
    (tests : s'.eventTests = s.eventTests)
    (execute : ∀ r, (s'.threads.queues r).execute = (s.threads.queues r).execute)
    (lt : s'.threads.stream.rank s'.streamTests < s.threads.stream.rank s.streamTests) :
    s'.rank contexts < s.rank contexts := by
  have same : s'.executeRank contexts = s.executeRank contexts := by
    funext c
    rw [executeRank, execute, executeRank]
  rw [rank, rank, stop, event, tests, same]
  omega

/-- A step of the stream thread after the call of `stream_stop_threads` -/
theorem StreamCase.stops (case : s.StreamCase contexts s') (stops : s.Stops contexts capacity) :
    s'.Stops contexts capacity ∧ (s.stop.posted = true → s'.rank contexts < s.rank contexts) := by
  have usual := case.usual stops.usual
  have works : ∀ r, s.threads.Works capacity contexts r (s'.threads.queues r) := case.works
  rcases stops.streamEnds with ⟨done, resume, eventPaused⟩
  rcases stops.eventEnds with ⟨eventResume, streamPaused⟩
  cases case with
  | goesOn _ notRequested => exact absurd (stops.requested.symm.trans notRequested) (by simp)
  | ends tests =>
      refine ⟨⟨usual, stops.requested, stops.called, stops.outside, stops.own,
        stops.endsQueue works rfl rfl, Control.streamEnds_of_finished rfl,
        ⟨eventResume, streamPaused⟩, stops.eventJoined, fun _ => rfl⟩, fun _ => ?_⟩
      refine rank_lt_of_stream rfl rfl rfl (fun _ => rfl) ?_
      simp [StreamThread.rank, tests]
  | @done c noTest pc isSet =>
      have waits : s.stop.posted = true → s.threads.cg_streamReplyEvent.isSet .eventPaused = true :=
        fun posted => eventPaused posted noTest (by simp [pc, StreamThread.beforeEventPaused])
      refine ⟨⟨usual, stops.requested, stops.called, stops.outside, stops.own,
        stops.endsQueue works rfl rfl, ⟨?_, ?_, fun posted _ _ => waits posted⟩,
        ⟨?_, streamPaused⟩, stops.eventJoined, fun returned => ?_⟩, fun _ => ?_⟩
      · simp [StreamThread.inScheduler]
      · simp [StreamThread.beforeResume]
      · intro posted noTest before
        simpa using eventResume posted noTest before
      · exact absurd (pc.symm.trans (stops.streamJoined returned)) (by simp)
      · refine rank_lt_of_stream rfl rfl rfl (executeRank_call _ _ _) ?_
        simp [StreamThread.rank, noTest, pc]
  | step noTest notDone step =>
      have control := Threads.streamStep_control step
      rcases Control.StreamStep.frame control with ⟨application, event, context⟩
      have queues := Threads.streamStep_queues step
      refine ⟨⟨usual, stops.requested, stops.called, ?_, ?_, stops.endsQueue works context rfl, ?_,
        stops.eventEnds.streamStep control, ?_, fun returned => ?_⟩, fun posted => ?_⟩
      · exact application ▸ stops.outside
      · exact context ▸ event ▸ stops.own
      · exact (noTest ▸ stops.streamEnds).streamStep control
      · exact event ▸ stops.eventJoined
      · exact absurd (stops.streamJoined returned) control.notFinished
      · refine rank_lt_of_stream rfl event rfl (fun r => by rw [queues]) ?_
        rw [noTest]
        refine control.rank_lt fun c pc => ?_
        have isSet := done (StopThreads.eventsPosted_of_posted posted) noTest
          (by simp [pc, StreamThread.inScheduler])
        exact absurd (isSet.symm.trans (notDone c pc)) (by simp)

/-! ## Steps of the nodes -/

theorem nodeStep_node {threads : Threads κ ρ ι ε} {status : NodeStatus}
    (step : s.threads.nodeStep contexts status = some threads) :
    ∃ c, s.threads.stream = .node c := by
  simp only [Threads.nodeStep] at step
  split at step
  · rename_i c pc
    exact ⟨c, pc⟩
  · cases step

theorem node_usual {threads : Threads κ ρ ι ε} {status : NodeStatus} (usual : s.Usual capacity)
    (step : s.threads.nodeStep contexts status = some threads) :
    s.streamTests = false ∧ ({ s with threads := threads } : StoppableThreads κ ρ ι ε).Usual
      capacity := by
  rcases nodeStep_node step with ⟨c, pc⟩
  have noTest : s.streamTests = false := by
    refine Bool.eq_false_iff.mpr fun tests => ?_
    have may := usual.streamTests tests
    rw [pc] at may
    cases may
  have stored := usual_of_queues usual (Threads.nodeStep_works step)
  refine ⟨noTest, fun tests => absurd (noTest.symm.trans tests) (by simp), fun tests => ?_, stored⟩
  rw [(Control.StreamStep.frame (Threads.nodeStep_control step)).2.1]
  exact usual.eventTests tests

theorem node_queues {threads : Threads κ ρ ι ε} {status : NodeStatus}
    (step : s.threads.nodeStep contexts status = some threads) (r : ρ) :
    (threads.queues r).execute = (s.threads.queues r).execute := by
  simp only [Threads.nodeStep] at step
  split at step
  · split at step
    · cases status <;> cases step
      · rfl
      · rfl
      · exact executeRank_call _ _ _ r
      · exact executeRank_call _ _ _ r
    · cases step
  · cases step

/-- A node returns after the call of `stream_stop_threads`. -/
theorem Stops.node {threads : Threads κ ρ ι ε} {status : NodeStatus}
    (stops : s.Stops contexts capacity)
    (step : s.threads.nodeStep contexts status = some threads) :
    ({ s with threads := threads } : StoppableThreads κ ρ ι ε).Stops contexts capacity ∧
      ({ s with threads := threads } : StoppableThreads κ ρ ι ε).rank contexts <
        s.rank contexts := by
  rcases node_usual stops.usual step with ⟨noTest, usual⟩
  rcases nodeStep_node step with ⟨c, pc⟩
  have control := Threads.nodeStep_control step
  have tests : s.threads.stream.thenTests = false := by
    rw [pc]
    rfl
  rcases Control.StreamStep.frame control with ⟨application, event, context⟩
  refine ⟨⟨usual, stops.requested, stops.called, application ▸ stops.outside,
    context ▸ event ▸ stops.own,
    stops.endsQueue (Threads.nodeStep_works step) context rfl, ?_,
    stops.eventEnds.streamStep control, event ▸ stops.eventJoined, fun returned => ?_⟩, ?_⟩
  · have ends := (noTest ▸ stops.streamEnds).streamStep control
    rwa [tests, ← noTest] at ends
  · exact absurd (stops.streamJoined returned) control.notFinished
  · refine rank_lt_of_stream rfl event rfl (node_queues step) ?_
    have lt := control.rank_lt fun c' before => absurd (pc.symm.trans before) (by simp)
    rwa [tests, ← noTest] at lt

/-! ## Steps of the event thread -/

/-- What the event thread can do outside of `execute` -/
inductive EventCase (contexts : κ → ExecutionContext ρ) (s : StoppableThreads κ ρ ι ε) :
    StoppableThreads κ ρ ι ε → Prop
  | ends (tests : s.eventTests = true) (requested : s.runtime_stop_requested = true) :
      EventCase contexts s
        { s with eventTests := false, threads := { s.threads with event := .finished } }
  | goesOn (tests : s.eventTests = true) (notRequested : s.runtime_stop_requested = false) :
      EventCase contexts s { s with eventTests := false }
  | step {threads : Threads κ ρ ι ε} (noTest : s.eventTests = false)
      (step : s.threads.eventStep contexts = some threads) :
      EventCase contexts s { s with threads := threads, eventTests := threads.event.tests }

omit [DecidableEq ι] in
theorem eventCase (next : s.eventStep contexts = some s') : s.EventCase contexts s' := by
  simp only [eventStep] at next
  split at next
  · rename_i tests
    by_cases requested : s.runtime_stop_requested = true
    · rw [if_pos requested] at next
      cases next
      exact .ends tests requested
    · rw [if_neg requested] at next
      cases next
      exact .goesOn tests (Bool.eq_false_iff.mpr requested)
  · rename_i noTest
    rcases Option.map_eq_some_iff.mp next with ⟨threads, step, rfl⟩
    exact .step (Bool.eq_false_iff.mpr noTest) step

theorem EventCase.works (case : s.EventCase contexts s') (r : ρ) :
    s.threads.Works capacity contexts r (s'.threads.queues r) := by
  cases case with
  | ends | goesOn => exact .same
  | step _ step => exact Threads.eventStep_works step r

theorem EventCase.usual (case : s.EventCase contexts s') (usual : s.Usual capacity) :
    s'.Usual capacity := by
  have stored := usual_of_queues usual case.works
  cases case with
  | ends | goesOn => exact ⟨usual.streamTests, by simp, stored⟩
  | step _ step =>
      refine ⟨fun tests => ?_, id, stored⟩
      rw [(Control.EventStep.frame (Threads.eventStep_control step)).2.1]
      exact usual.streamTests tests

omit [DecidableEq ρ] [DecidableEq ι] in
/-- Only the rank of the event thread changes. -/
theorem rank_lt_of_event (stop : s'.stop = s.stop) (stream : s'.threads.stream = s.threads.stream)
    (tests : s'.streamTests = s.streamTests)
    (lt : s'.threads.event.rank s'.eventTests (s'.executeRank contexts) <
      s.threads.event.rank s.eventTests (s.executeRank contexts)) :
    s'.rank contexts < s.rank contexts := by
  rw [rank, rank, stop, stream, tests]
  omega

omit [DecidableEq ι] in
/-- The event thread starts `execute` again. -/
theorem executeRank_load {threads : Threads κ ρ ι ε}
    (step : s.threads.eventStep contexts = some threads) (pc : s.threads.event = .loadContext) :
    ({ s with threads := threads } : StoppableThreads κ ρ ι ε).executeRank contexts
      s.threads.current_context ≤ 1 := by
  simp only [Threads.eventStep, pc] at step
  cases step
  simp [executeRank, PosixEventQueue.leaveRank]

/-- A step of the event thread after the call of `stream_stop_threads` -/
theorem EventCase.stops (case : s.EventCase contexts s') (stops : s.Stops contexts capacity) :
    s'.Stops contexts capacity ∧ s'.rank contexts < s.rank contexts := by
  have usual := case.usual stops.usual
  have works : ∀ r, s.threads.Works capacity contexts r (s'.threads.queues r) := case.works
  cases case with
  | goesOn _ notRequested => exact absurd (stops.requested.symm.trans notRequested) (by simp)
  | ends tests =>
      refine ⟨⟨usual, stops.requested, stops.called, stops.outside, by simp,
        stops.endsQueue works rfl rfl, ?_, Control.eventEnds_of_finished rfl, fun _ => rfl,
        stops.streamJoined⟩, ?_⟩
      · exact ⟨stops.streamEnds.done, stops.streamEnds.resume, stops.streamEnds.eventPaused⟩
      · refine rank_lt_of_event rfl rfl rfl ?_
        simp [EventThread.rank, tests]
  | step noTest step =>
      have control := Threads.eventStep_control step
      rcases Control.EventStep.frame control with ⟨application, stream, context⟩
      refine ⟨⟨usual, stops.requested, stops.called, application ▸ stops.outside, ?_,
        stops.endsQueue works context rfl, stops.streamEnds.eventStep control,
        (noTest ▸ stops.eventEnds).eventStep control, fun joined => ?_,
        stream ▸ stops.streamJoined⟩, ?_⟩
      · intro c executes
        rw [context, control.executes executes]
      · exact absurd (stops.eventJoined joined) control.notFinished
      · refine rank_lt_of_event rfl stream rfl ?_
        rw [noTest]
        exact control.rank_lt (executeRank_load step)

/-! ## Steps of the event queues -/

/-- A step of the event thread in `execute`, or the return of its handler -/
def executes {ι ε : Type} : QueueAction ι ε → Bool
  | .execute _ | .handled _ => true
  | _ => false

/-- An action which is not one of the event thread leaves its position. -/
theorem next_execute {q q' : PosixEventQueue (Caller ι) ε} {action : QueueAction (Caller ι) ε}
    (next : q.next capacity action = some q') (other : executes action = false) :
    q'.execute = q.execute := by
  cases action with
  | call t operation =>
      rcases PosixEventQueue.next_call next with ⟨-, rfl⟩
      rfl
  | step t now => exact PosixEventQueue.callStep_execute next
  | execute | handled => cases other

/-- The rank decreases in `execute` once the queue must end. -/
theorem leaveRank_next {q q' : PosixEventQueue (Caller ι) ε} {action : QueueAction (Caller ι) ε}
    (leaves : q.Leaves) (notReturned : q.execute ≠ .returned)
    (next : q.next capacity action = some q') (own : executes action = true) :
    PosixEventQueue.leaveRank q'.execute < PosixEventQueue.leaveRank q.execute := by
  cases action with
  | call | step => cases own
  | execute now => exact (leaves.executeStep notReturned next).2
  | handled success =>
      rcases PosixEventQueue.next_handled next with ⟨⟨msg, dispatch⟩, -, rfl⟩
      rw [dispatch]
      cases success <;> simp [PosixEventQueue.leaveRank, PosixEventQueue.setCall]

omit [DecidableEq ι] in
/-- The event thread is executing the queue. -/
theorem executing_of_permits {r : ρ} {action : QueueAction (Caller ι) ε} {threads : Threads κ ρ ι ε}
    (permitted : threads.permits contexts r action = true) (own : executes action = true) :
    ∃ c, threads.event = .execute c ∧ (contexts c).evtQueue = r ∧
      ((∃ success, action = .handled success) ∨ (threads.queues r).execute ≠ .returned) := by
  cases action with
  | call | step => cases own
  | handled success =>
      simp only [Threads.permits] at permitted
      split at permitted
      · rename_i c pc
        exact ⟨c, pc, by simpa using permitted, .inl ⟨success, rfl⟩⟩
      · cases permitted
  | execute now =>
      simp only [Threads.permits] at permitted
      split at permitted
      · rename_i c pc
        simp only [Bool.and_eq_true, decide_eq_true_eq, Bool.not_eq_true'] at permitted
        refine ⟨c, pc, permitted.1, .inr fun returned => ?_⟩
        rw [returned] at permitted
        cases permitted.2
      · cases permitted

theorem queueStep_eq {r : ρ} {action : QueueAction (Caller ι) ε} {threads : Threads κ ρ ι ε}
    (step : s.threads.next contexts capacity (.queue r action) = some threads) :
    s.threads.permits contexts r action = true ∧ ∃ q,
      (s.threads.queues r).next capacity action = some q ∧ threads = s.threads.setQueue r q := by
  simp only [Threads.next] at step
  split at step
  · rename_i permitted
    rcases Option.map_eq_some_iff.mp step with ⟨q, next, rfl⟩
    exact ⟨permitted, q, next, rfl⟩
  · cases step

theorem queue_usual {r : ρ} {action : QueueAction (Caller ι) ε} {threads : Threads κ ρ ι ε}
    (usual : s.Usual capacity)
    (step : s.threads.next contexts capacity (.queue r action) = some threads) :
    ({ s with threads := threads } : StoppableThreads κ ρ ι ε).Usual capacity := by
  have stored := usual_of_queues usual (Threads.queueStep_works step)
  rcases queueStep_eq step with ⟨-, q, -, rfl⟩
  exact ⟨usual.streamTests, usual.eventTests, stored⟩

/-- Something is done with an event queue after the call of `stream_stop_threads`. -/
theorem Stops.queue {r : ρ} {action : QueueAction (Caller ι) ε} {threads : Threads κ ρ ι ε}
    (stops : s.Stops contexts capacity)
    (step : s.threads.next contexts capacity (.queue r action) = some threads) :
    ({ s with threads := threads } : StoppableThreads κ ρ ι ε).Stops contexts capacity := by
  have usual := queue_usual stops.usual step
  have works := Threads.queueStep_works step
  rcases queueStep_eq step with ⟨-, q, -, rfl⟩
  exact ⟨usual, stops.requested, stops.called, stops.outside, stops.own,
    stops.endsQueue works rfl rfl,
    ⟨stops.streamEnds.done, stops.streamEnds.resume, stops.streamEnds.eventPaused⟩,
    ⟨stops.eventEnds.resume, stops.eventEnds.streamPaused⟩, stops.eventJoined,
    stops.streamJoined⟩

/-- The event thread has fewer steps left, when it is the one which makes a step. -/
theorem Stops.queue_rank {r : ρ} {action : QueueAction (Caller ι) ε} {threads : Threads κ ρ ι ε}
    (stops : s.Stops contexts capacity) (posted : s.stop.posted = true)
    (step : s.threads.next contexts capacity (.queue r action) = some threads) :
    ({ s with threads := threads } : StoppableThreads κ ρ ι ε).rank contexts ≤ s.rank contexts ∧
      (executes action = true →
        ({ s with threads := threads } : StoppableThreads κ ρ ι ε).rank contexts <
          s.rank contexts) := by
  rcases queueStep_eq step with ⟨permitted, q, next, rfl⟩
  cases own : executes action with
  | false =>
      refine ⟨le_of_eq ?_, by simp⟩
      have same : ({ s with threads := s.threads.setQueue r q } :
          StoppableThreads κ ρ ι ε).executeRank contexts = s.executeRank contexts := by
        funext c
        rw [executeRank, executeRank]
        by_cases same : (contexts c).evtQueue = r
        · subst same
          rw [Threads.setQueue_self, next_execute next own]
        · rw [Threads.setQueue_of_ne _ same]
      rw [rank, rank, same]
      rfl
  | true =>
      rcases executing_of_permits permitted own with ⟨c, pc, isQueue, cause⟩
      have noTest : s.eventTests = false := by
        refine Bool.eq_false_iff.mpr fun tests => ?_
        have may := stops.usual.eventTests tests
        rw [pc] at may
        cases may
      have leaves : (s.threads.queues r).Leaves := by
        have ends := stops.ends
        rw [← isQueue, stops.own c pc]
        cases stop : s.stop <;> simp_all [EndsQueue, StopThreads.posted, ownQueue]
      have notReturned : (s.threads.queues r).execute ≠ .returned := by
        rcases cause with ⟨success, rfl⟩ | notReturned
        · rcases (PosixEventQueue.next_handled next).1 with ⟨msg, dispatch⟩
          rw [dispatch]
          simp
        · exact notReturned
      have decreases := leaveRank_next leaves notReturned next own
      have lt : ({ s with threads := s.threads.setQueue r q } :
          StoppableThreads κ ρ ι ε).rank contexts < s.rank contexts := by
        refine rank_lt_of_event rfl rfl rfl ?_
        have event : (s.threads.setQueue r q).event = .execute c := pc
        simp only [event, pc, noTest, EventThread.rank, executeRank, Bool.false_eq_true, ↓reduceIte,
          isQueue, Threads.setQueue_self]
        omega
      exact ⟨lt.le, fun _ => lt⟩

/-! ## Steps of `stream_stop_threads` -/

theorem stored_call (usual : s.Usual capacity) (r r' : ρ) (caller : Caller ι)
    (operation : Operation ε) :
    ∃ items, ((s.threads.call r caller operation).queues r').Stored capacity items := by
  rcases usual.stored r' with ⟨items, stored⟩
  refine ⟨items, ?_⟩
  rw [Threads.call]
  by_cases same : r' = r
  · subst same
    rw [Threads.setQueue_self]
    exact stored
  · rwa [Threads.setQueue_of_ne _ same]

theorem Stops.stopStep (stops : s.Stops contexts capacity)
    (step : s.stopStep contexts = some s') :
    s'.Stops contexts capacity ∧ (s.stop.posted = true →
      s'.stop.posted = true ∧ s'.rank contexts < s.rank contexts) := by
  rcases stops with ⟨usual, requested, called, outside, own, ends, streamEnds, eventEnds,
    eventJoined, streamJoined⟩
  rcases usual with ⟨streamTests, eventTests, stored⟩
  cases pc : s.stop with
  | notCalled => exact absurd pc called
  | returned =>
      simp only [StoppableThreads.stopStep, pc] at step
      cases step
  | endQueue =>
      simp only [StoppableThreads.stopStep, pc] at step
      cases step
      refine ⟨⟨⟨streamTests, eventTests, fun r => ?_⟩, requested, by simp, outside, own,
        .inl (Threads.call_calls _ _ _ _), Control.streamEnds_of_notPosted rfl rfl,
        Control.eventEnds_of_notPosted rfl rfl, by simp, by simp⟩, by simp [StopThreads.posted]⟩
      exact stored_call ⟨streamTests, eventTests, stored⟩ _ r _ _
  | endedQueue =>
      simp only [StoppableThreads.stopStep, pc] at step
      split at step
      · rename_i idle
        cases step
        have isIdle := Call.isIdle_iff.mp idle
        have leaves : (s.ownQueue contexts).Leaves := by
          simp only [EndsQueue, pc] at ends
          rcases ends with store | ⟨notify, -⟩ | leaves
          · exact absurd (isIdle.symm.trans store) (by simp)
          · exact absurd (isIdle.symm.trans notify) (by simp)
          · exact leaves
        exact ⟨⟨⟨streamTests, eventTests, stored⟩, requested, by simp, outside, own, leaves,
          Control.streamEnds_of_notPosted rfl rfl, Control.eventEnds_of_notPosted rfl rfl,
          by simp, by simp⟩, by simp [StopThreads.posted]⟩
      · cases step
  | postEvents =>
      simp only [StoppableThreads.stopStep, pc] at step
      cases step
      simp only [EndsQueue, pc] at ends
      exact ⟨⟨⟨streamTests, eventTests, stored⟩, requested, by simp, outside, own, ends,
        ⟨fun _ _ _ => rfl, by simp, by simp [StopThreads.posted]⟩,
        ⟨by simp, by simp [StopThreads.posted]⟩, by simp, by simp⟩, by simp [StopThreads.posted]⟩
  | postReplies =>
      simp only [StoppableThreads.stopStep, pc] at step
      cases step
      simp only [EndsQueue, pc] at ends
      rcases streamEnds with ⟨done, resume, -⟩
      rcases eventEnds with ⟨eventResume, -⟩
      have eventsPosted : s.stop.eventsPosted = true := by
        rw [pc]
        rfl
      exact ⟨⟨⟨streamTests, eventTests, stored⟩, requested, by simp, outside, own, ends,
        ⟨fun _ => done eventsPosted, fun _ => resume eventsPosted, by simp⟩,
        ⟨fun _ => eventResume eventsPosted, by simp⟩, by simp, by simp⟩,
        by simp [StopThreads.posted]⟩
  | joinEvent =>
      simp only [StoppableThreads.stopStep, pc] at step
      split at step
      · rename_i finished
        cases step
        simp only [EndsQueue, pc] at ends
        rw [pc] at streamEnds eventEnds
        refine ⟨⟨⟨streamTests, eventTests, stored⟩, requested, by simp, outside, own, ends,
          ⟨streamEnds.done, streamEnds.resume, streamEnds.eventPaused⟩,
          ⟨eventEnds.resume, eventEnds.streamPaused⟩, fun _ => finished, by simp⟩,
          fun _ => ⟨rfl, ?_⟩⟩
        simp only [rank, pc, StopThreads.rank]
        exact Nat.add_lt_add_right (Nat.add_lt_add_right Nat.one_lt_two _) _
      · cases step
  | joinStream =>
      simp only [StoppableThreads.stopStep, pc] at step
      split at step
      · rename_i finished
        cases step
        simp only [EndsQueue, pc] at ends
        rw [pc] at streamEnds eventEnds
        refine ⟨⟨⟨streamTests, eventTests, stored⟩, requested, by simp, outside, own, ends,
          ⟨streamEnds.done, streamEnds.resume, streamEnds.eventPaused⟩,
          ⟨eventEnds.resume, eventEnds.streamPaused⟩, fun _ => eventJoined (.inl pc),
          fun _ => finished⟩, fun _ => ⟨rfl, ?_⟩⟩
        simp only [rank, pc, StopThreads.rank]
        exact Nat.add_lt_add_right (Nat.add_lt_add_right Nat.zero_lt_one _) _
      · cases step

/-! ## All the steps -/

/-- A step of a thread of the runtime or of `stream_stop_threads` -/
def isStep : StoppableAction κ ρ ι ε → Bool
  | .stopping | .threads .stream | .threads .event | .threads (.node _) => true
  | .threads (.queue _ action) => executes action
  | _ => false

/-- A step after the call of `stream_stop_threads` -/
theorem Stops.next {a : StoppableAction κ ρ ι ε} (stops : s.Stops contexts capacity)
    (next : s.next contexts capacity a = some s') :
    s'.Stops contexts capacity ∧ (s.stop.posted = true → s'.stop.posted = true ∧
      s'.rank contexts ≤ s.rank contexts ∧
      (isStep a = true → s'.rank contexts < s.rank contexts)) := by
  rcases stops.outside with ⟨last, outside⟩
  cases a with
  | stop =>
      simp only [StoppableThreads.next] at next
      split at next
      · rename_i notCalled _
        exact absurd notCalled stops.called
      · cases next
  | stopping =>
      rcases stops.stopStep next with ⟨kept, lt⟩
      exact ⟨kept, fun posted => ⟨(lt posted).1, (lt posted).2.le, fun _ => (lt posted).2⟩⟩
  | threads action =>
      cases action with
      | pause | resume =>
          simp only [StoppableThreads.next, stops.called, ↓reduceIte] at next
          cases next
      | application =>
          simp only [StoppableThreads.next, Threads.next, Threads.applicationStep, outside] at next
          cases next
      | stream =>
          have case := streamCase next
          rcases case.stops stops with ⟨kept, lt⟩
          refine ⟨kept, fun posted => ⟨?_, (lt posted).le, fun _ => lt posted⟩⟩
          cases case <;> exact posted
      | event =>
          have case := eventCase next
          rcases case.stops stops with ⟨kept, lt⟩
          refine ⟨kept, fun posted => ⟨?_, lt.le, fun _ => lt⟩⟩
          cases case <;> exact posted
      | node status =>
          rcases Option.map_eq_some_iff.mp next with ⟨threads, step, rfl⟩
          rcases stops.node step with ⟨kept, lt⟩
          exact ⟨kept, fun posted => ⟨posted, lt.le, fun _ => lt⟩⟩
      | queue r action =>
          rcases Option.map_eq_some_iff.mp next with ⟨threads, step, rfl⟩
          exact ⟨stops.queue step, fun posted => ⟨posted, stops.queue_rank posted step⟩⟩

end StoppableThreads

end CmsisStream.Runtime
