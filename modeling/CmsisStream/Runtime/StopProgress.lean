import CmsisStream.Runtime.StopSteps

/-!
# The threads end

After the call of `stream_stop_threads` nobody waits in vain, and the threads have a bounded
number of steps left, so that freeing what they use is safe once it has returned.
-/

namespace CmsisStream.Runtime

namespace StoppableThreads

variable {κ ρ ι ε : Type} [DecidableEq ρ] [DecidableEq ι] {contexts : κ → ExecutionContext ρ}
  {capacity : ℕ} {s s' : StoppableThreads κ ρ ι ε}

/-! ## Nobody waits in vain -/

/-- A step of a function of an event queue, called by a thread of the runtime or by the
application -/
def isCall : StoppableAction κ ρ ι ε → Bool
  | .threads (.queue _ (.step (.other (.external _)) _)) => false
  | .threads (.queue _ (.step _ _)) => true
  | _ => false

/-- Some thread of the runtime, or `stream_stop_threads`, can go on. -/
def GoesOn (contexts : κ → ExecutionContext ρ) (capacity : ℕ) (s : StoppableThreads κ ρ ι ε) :
    Prop :=
  ∃ a, (isStep a = true ∨ isCall a = true) ∧ (s.next contexts capacity a).isSome

/-- A thread which is in a function of an event queue can go on. -/
theorem goesOn_of_call {r : ρ} {t : Thread (Caller ι)}
    (called : (s.threads.queues r).calls t ≠ .idle)
    (own : ∀ now, isCall (κ := κ) (ρ := ρ) (ε := ε) (.threads (.queue r (.step t now))) = true) :
    s.GoesOn contexts capacity := by
  refine ⟨.threads (.queue r (.step t 0)), .inr (own 0), ?_⟩
  have isSome : ((s.threads.queues r).callStep capacity t 0).isSome :=
    PosixEventQueue.callStep_isSome called 0
  simpa [next, Threads.next, Threads.permits, PosixEventQueue.next] using isSome

theorem goesOn_of_notIdle {r : ρ} {caller : Caller ι} (notIdle : s.threads.isIdle r caller = false)
    (own : ∀ now, isCall (κ := κ) (ρ := ρ) (ε := ε)
      (.threads (.queue r (.step (.other caller) now))) = true) :
    s.GoesOn contexts capacity := by
  refine goesOn_of_call (fun idle => ?_) own
  rw [Threads.isIdle, idle] at notIdle
  cases notIdle

theorem goesOn_stream (isSome : (s.streamStep contexts).isSome) : s.GoesOn contexts capacity :=
  ⟨.threads .stream, .inl rfl, isSome⟩

/-- The stream thread, when it is not about to test `runtime_stop_requested` -/
theorem streamStep_isSome (noTest : s.streamTests = false)
    (isSome : (s.threads.streamStep contexts).isSome) : (s.streamStep contexts).isSome := by
  simp only [streamStep, noTest, Bool.false_eq_true, ↓reduceIte]
  split
  · rfl
  · rwa [Option.isSome_map]

theorem Stops.stream_goesOn (stops : s.Stops contexts capacity) (posted : s.stop.posted = true)
    (notFinished : s.threads.stream ≠ .finished) : s.GoesOn contexts capacity := by
  have eventsPosted := StopThreads.eventsPosted_of_posted posted
  rcases stops.streamEnds with ⟨-, resume, eventPaused⟩
  cases noTest : s.streamTests with
  | true =>
      apply goesOn_stream
      simp [streamStep, noTest]
  | false =>
      cases pc : s.threads.stream with
      | finished => exact absurd pc notFinished
      | node c =>
          cases idle : s.threads.isIdle (contexts c).evtQueue .stream with
          | true =>
              refine ⟨.threads (.node .last), .inl rfl, ?_⟩
              simp [StoppableThreads.next, Threads.next, Threads.nodeStep, pc, idle]
          | false => exact goesOn_of_notIdle idle fun _ => rfl
      | pauseQueue c | pauseNodes c requested | resumeNodes c =>
          cases idle : s.threads.isIdle (contexts c).evtQueue .stream with
          | true =>
              apply goesOn_stream
              apply streamStep_isSome noTest
              simp [Threads.streamStep, pc, idle]
          | false => exact goesOn_of_notIdle idle fun _ => rfl
      | waitEventPaused =>
          have set := eventPaused posted noTest (by simp [pc, StreamThread.beforeEventPaused])
          apply goesOn_stream
          apply streamStep_isSome noTest
          simp only [Threads.streamStep, pc, Option.isSome_map]
          exact EventFlags.isSome_wait_singleton set
      | waitResume =>
          have set := resume eventsPosted noTest (by simp [pc, StreamThread.beforeResume])
          apply goesOn_stream
          apply streamStep_isSome noTest
          simp only [Threads.streamStep, pc, Option.isSome_map]
          exact EventFlags.isSome_wait_singleton set
      | beforeNode c =>
          apply goesOn_stream
          apply streamStep_isSome noTest
          simp only [Threads.streamStep, pc]
          split <;> rfl
      | _ =>
          apply goesOn_stream
          apply streamStep_isSome noTest
          simp [Threads.streamStep, pc]

theorem goesOn_event (isSome : (s.eventStep contexts).isSome) : s.GoesOn contexts capacity :=
  ⟨.threads .event, .inl rfl, isSome⟩

omit [DecidableEq ι] in
theorem eventStep_isSome (noTest : s.eventTests = false)
    (isSome : (s.threads.eventStep contexts).isSome) : (s.eventStep contexts).isSome := by
  simp only [eventStep, noTest, Bool.false_eq_true, ↓reduceIte]
  rwa [Option.isSome_map]

/-- The event thread goes on in `execute` or returns from it. -/
theorem Stops.execute_goesOn (stops : s.Stops contexts capacity) (posted : s.stop.posted = true)
    (noTest : s.eventTests = false) {c : κ} (pc : s.threads.event = .execute c) :
    s.GoesOn contexts capacity := by
  have leaves : (s.threads.queues (contexts c).evtQueue).Leaves := by
    have ends := stops.ends
    rw [stops.own c pc]
    cases stop : s.stop <;> simp_all [EndsQueue, StopThreads.posted, ownQueue]
  rcases stops.usual.stored (contexts c).evtQueue with ⟨items, stored⟩
  by_cases returned : (s.threads.queues (contexts c).evtQueue).execute = .returned
  · apply goesOn_event
    apply eventStep_isSome noTest
    simp [Threads.eventStep, pc, returned, Execute.isReturned]
  · have notReturned : (s.threads.queues (contexts c).evtQueue).execute.isReturned = false := by
      cases execute : (s.threads.queues (contexts c).evtQueue).execute <;>
        simp_all [Execute.isReturned]
    by_cases idle : (s.threads.queues (contexts c).evtQueue).calls .event = .idle
    · rcases leaves.executes stored 0 with isSome | ⟨msg, dispatch⟩ | notIdle
      · refine ⟨.threads (.queue (contexts c).evtQueue (.execute 0)), .inl rfl, ?_⟩
        simpa [StoppableThreads.next, Threads.next, Threads.permits, pc, notReturned,
          PosixEventQueue.next] using isSome
      · refine ⟨.threads (.queue (contexts c).evtQueue (.handled true)), .inl rfl, ?_⟩
        simp [StoppableThreads.next, Threads.next, Threads.permits, pc, PosixEventQueue.next,
          dispatch, idle, Call.isIdle]
      · exact absurd idle notIdle
    · exact goesOn_of_call idle fun _ => rfl

theorem Stops.event_goesOn (stops : s.Stops contexts capacity) (posted : s.stop.posted = true)
    (notFinished : s.threads.event ≠ .finished) : s.GoesOn contexts capacity := by
  have eventsPosted := StopThreads.eventsPosted_of_posted posted
  rcases stops.eventEnds with ⟨resume, streamPaused⟩
  cases noTest : s.eventTests with
  | true =>
      apply goesOn_event
      simp [eventStep, noTest]
  | false =>
      cases pc : s.threads.event with
      | finished => exact absurd pc notFinished
      | execute c => exact stops.execute_goesOn posted noTest pc
      | pauseNodes c =>
          cases idle : s.threads.isIdle (contexts c).evtQueue .event with
          | true =>
              apply goesOn_event
              apply eventStep_isSome noTest
              simp [Threads.eventStep, pc, idle]
          | false => exact goesOn_of_notIdle idle fun _ => rfl
      | waitStreamPaused =>
          have set := streamPaused posted noTest notFinished
          apply goesOn_event
          apply eventStep_isSome noTest
          simp only [Threads.eventStep, pc, Option.isSome_map]
          exact EventFlags.isSome_wait_singleton set
      | waitResume =>
          have set := resume eventsPosted noTest (by simp [pc, EventThread.beforeResume])
          apply goesOn_event
          apply eventStep_isSome noTest
          simp only [Threads.eventStep, pc, Option.isSome_map]
          exact EventFlags.isSome_wait_singleton set
      | consumeError c =>
          apply goesOn_event
          apply eventStep_isSome noTest
          simp only [Threads.eventStep, pc]
          split <;> rfl
      | _ =>
          apply goesOn_event
          apply eventStep_isSome noTest
          simp [Threads.eventStep, pc]

/-- `stream_stop_threads` is never blocked. -/
theorem Stops.goesOn (stops : s.Stops contexts capacity) :
    s.stop = .returned ∨ s.GoesOn contexts capacity := by
  cases pc : s.stop with
  | notCalled => exact absurd pc stops.called
  | returned => exact .inl rfl
  | endedQueue =>
      right
      cases idle : s.threads.isIdle (contexts s.threads.current_context).evtQueue .application with
      | true =>
          refine ⟨.stopping, .inl rfl, ?_⟩
          simp [StoppableThreads.next, StoppableThreads.stopStep, pc, idle]
      | false => exact goesOn_of_notIdle idle fun _ => rfl
  | joinEvent =>
      right
      by_cases finished : s.threads.event = .finished
      · refine ⟨.stopping, .inl rfl, ?_⟩
        simp [StoppableThreads.next, StoppableThreads.stopStep, pc, finished]
      · exact stops.event_goesOn (by rw [pc]; rfl) finished
  | joinStream =>
      right
      by_cases finished : s.threads.stream = .finished
      · refine ⟨.stopping, .inl rfl, ?_⟩
        simp [StoppableThreads.next, StoppableThreads.stopStep, pc, finished]
      · exact stops.stream_goesOn (by rw [pc]; rfl) finished
  | _ =>
      right
      refine ⟨.stopping, .inl rfl, ?_⟩
      simp [StoppableThreads.next, StoppableThreads.stopStep, pc]

/-! ## The whole run -/

/-- When the threads are stopped, the event thread does not execute the queue of a context which
is no longer the current one. -/
def StopsOwnQueue (contexts : κ → ExecutionContext ρ) (s : StoppableThreads κ ρ ι ε) :
    StoppableAction κ ρ ι ε → Prop
  | .stop => ∀ c, s.threads.event = .execute c →
      (contexts c).evtQueue = (contexts s.threads.current_context).evtQueue
  | _ => True

omit [DecidableEq ρ] in
theorem touches_stored {r : ρ} {q : PosixEventQueue (Caller ι) ε} (usual : s.Usual capacity)
    (touches : s.threads.Touches r q) : ∃ items, q.Stored capacity items := by
  rcases usual.stored r with ⟨items, stored⟩
  cases touches <;> exact ⟨items, stored⟩

/-- An action of the application -/
theorem application_usual {threads : Threads κ ρ ι ε} {a : Action κ ρ ι ε}
    (usual : s.Usual capacity) (step : s.threads.next contexts capacity a = some threads)
    (stream : threads.stream = s.threads.stream) (event : threads.event = s.threads.event) :
    ({ s with threads := threads } : StoppableThreads κ ρ ι ε).Usual capacity := by
  refine ⟨stream ▸ usual.streamTests, event ▸ usual.eventTests, fun r => ?_⟩
  rcases Threads.next_touches step r with touches | ⟨action, -, -, next⟩
  · exact touches_stored usual touches
  · rcases usual.stored r with ⟨items, stored⟩
    rcases stored.next next with ⟨items', stored', -⟩
    exact ⟨items', stored'⟩

theorem Usual.next {a : StoppableAction κ ρ ι ε} (usual : s.Usual capacity)
    (next : s.next contexts capacity a = some s') : s'.Usual capacity := by
  cases a with
  | stop =>
      simp only [StoppableThreads.next] at next
      split at next
      · cases next
        exact ⟨usual.streamTests, usual.eventTests, usual.stored⟩
      · cases next
  | stopping =>
      simp only [StoppableThreads.next, stopStep] at next
      split at next
      · cases next
      · cases next
        exact ⟨usual.streamTests, usual.eventTests, fun r => stored_call usual _ r _ _⟩
      · split at next <;> cases next
        exact ⟨usual.streamTests, usual.eventTests, usual.stored⟩
      · cases next
        exact ⟨usual.streamTests, usual.eventTests, usual.stored⟩
      · cases next
        exact ⟨usual.streamTests, usual.eventTests, usual.stored⟩
      · split at next <;> cases next
        exact ⟨usual.streamTests, usual.eventTests, usual.stored⟩
      · split at next <;> cases next
        exact ⟨usual.streamTests, usual.eventTests, usual.stored⟩
      · cases next
  | threads action =>
      cases action with
      | pause | resume =>
          simp only [StoppableThreads.next] at next
          split at next
          · rcases Option.map_eq_some_iff.mp next with ⟨threads, step, rfl⟩
            have control := Threads.next_control step
            exact application_usual usual step (control.2 ▸ rfl) (control.2 ▸ rfl)
          · cases next
      | application =>
          rcases Option.map_eq_some_iff.mp next with ⟨threads, step, rfl⟩
          have frame := Control.ApplicationStep.frame (Threads.applicationStep_control step)
          exact application_usual usual step frame.1 frame.2
      | stream => exact (streamCase next).usual usual
      | event => exact (eventCase next).usual usual
      | node status =>
          rcases Option.map_eq_some_iff.mp next with ⟨threads, step, rfl⟩
          exact (node_usual usual step).2
      | queue r action =>
          rcases Option.map_eq_some_iff.mp next with ⟨threads, step, rfl⟩
          exact queue_usual usual step

/-- The call of `stream_stop_threads` -/
theorem stops_of_stop (usual : s.Usual capacity)
    (allow : s.StopsOwnQueue contexts .stop)
    (next : s.next contexts capacity .stop = some s') : s'.Stops contexts capacity := by
  simp only [StoppableThreads.next] at next
  split at next
  · rename_i last _ outside
    cases next
    exact ⟨⟨usual.streamTests, usual.eventTests, usual.stored⟩, rfl, by simp, ⟨last, outside⟩,
      allow, trivial, Control.streamEnds_of_notPosted rfl rfl,
      Control.eventEnds_of_notPosted rfl rfl, by simp, by simp⟩
  · cases next

theorem not_called_of_next {a : StoppableAction κ ρ ι ε} (notCalled : s.stop = .notCalled)
    (next : s.next contexts capacity a = some s') : a = .stop ∨ s'.stop = .notCalled := by
  cases a with
  | stop => exact .inl rfl
  | stopping =>
      simp only [StoppableThreads.next, stopStep, notCalled] at next
      cases next
  | threads action =>
      right
      cases action with
      | pause | resume =>
          simp only [StoppableThreads.next, notCalled, ↓reduceIte] at next
          rcases Option.map_eq_some_iff.mp next with ⟨threads, -, rfl⟩
          rfl
      | stream =>
          have case := streamCase next
          cases case <;> exact notCalled
      | event =>
          have case := eventCase next
          cases case <;> exact notCalled
      | application | node | queue =>
          rcases Option.map_eq_some_iff.mp next with ⟨threads, -, rfl⟩
          exact notCalled

theorem stops_of_path {context : κ} {actions : List (StoppableAction κ ρ ι ε)}
    (path : (machine contexts capacity context).Path (StopsOwnQueue contexts) actions s) :
    s.Usual capacity ∧ (s.stop ≠ .notCalled → s.Stops contexts capacity) := by
  refine path.invariant
    (p := fun s => s.Usual capacity ∧ (s.stop ≠ .notCalled → s.Stops contexts capacity)) ?_ ?_
  · exact ⟨⟨by simp [machine, init], by simp [machine, init],
      fun r => ⟨fun _ => [], fun _ => RingBuffer.holds_empty capacity⟩⟩,
      fun called => absurd rfl called⟩
  · intro s a s' ⟨usual, stops⟩ allow next
    refine ⟨usual.next next, fun called => ?_⟩
    by_cases notCalled : s.stop = .notCalled
    · rcases not_called_of_next notCalled next with rfl | still
      · exact stops_of_stop usual allow next
      · exact absurd still called
    · exact ((stops notCalled).next next).1

omit [DecidableEq ρ] [DecidableEq ι] in
/-- No state has more steps left. -/
theorem rank_le (s : StoppableThreads κ ρ ι ε) : s.rank contexts ≤ 28 := by
  have stop : s.stop.rank ≤ 2 := by
    cases s.stop <;> simp [StopThreads.rank]
  have stream := s.threads.stream.rank_le s.streamTests
  have event : s.threads.event.rank s.eventTests (s.executeRank contexts) ≤ 14 :=
    s.threads.event.rank_le s.eventTests fun c => PosixEventQueue.leaveRank_le _
  rw [rank]
  omega

/-- `stream_stop_threads` is never blocked, whatever the threads were doing when it is called;
both threads are finished when it returns, and after the messages they and the function have at
most 28 steps left. -/
theorem stream_stop_threads_returns {context : κ} {actions : List (StoppableAction κ ρ ι ε)}
    (path : (machine contexts capacity context).Path (StopsOwnQueue contexts) actions s)
    (called : s.stop ≠ .notCalled) :
    (s.stop = .returned ∨ s.GoesOn contexts capacity) ∧
      (s.stop = .returned → s.threads.event = .finished ∧ s.threads.stream = .finished) ∧
      (s.stop.posted = true → ∀ more s',
        (machine contexts capacity context).run s more = some s' →
          (more.filter isStep).length ≤ 28) := by
  have stops := (stops_of_path path).2 called
  refine ⟨stops.goesOn, fun returned => ⟨stops.eventJoined (.inr returned),
    stops.streamJoined returned⟩, fun posted more s' run => ?_⟩
  have ranked : (machine contexts capacity context).Ranked isStep
      (fun s : StoppableThreads κ ρ ι ε => s.Stops contexts capacity ∧ s.stop.posted = true)
      (rank contexts) := by
    intro s a t ⟨stops, posted⟩ next
    rcases stops.next next with ⟨kept, decreases⟩
    rcases decreases posted with ⟨stillPosted, le, lt⟩
    exact ⟨⟨kept, stillPosted⟩, le, lt⟩
  have bound := (ranked.run ⟨stops, posted⟩ run).2
  have most : s.rank contexts ≤ 28 := rank_le s
  omega

/-- The threads are stopped while the stream thread executes a node and the event thread waits for
an event. -/
def stopOnce : List (StoppableAction Unit Unit Empty ℕ) :=
  [.threads .stream, .threads .stream, .threads .stream, .threads .event,
    .threads (.queue () (.execute 0)), .threads (.queue () (.execute 0)),
    .threads (.queue () (.execute 0)), .threads (.queue () (.execute 0)),
    .threads (.queue () (.execute 0)), .threads (.queue () (.execute 0)),
    .threads (.queue () (.execute 0)),
    .stop, .stopping, .threads (.queue () (.step (.other .application) 0)),
    .threads (.queue () (.step (.other .application) 0)), .stopping, .stopping, .stopping]

theorem stopOnce_returns : ∃ s, (machine (fun _ => ⟨(), 1⟩) 1 ()).Path
    (StopsOwnQueue fun _ => ⟨(), 1⟩) stopOnce s ∧ s.threads.stream = .node () ∧
      s.GoesOn (fun _ => ⟨(), 1⟩) 1 := by
  have run : ∃ s, (machine (fun _ => ⟨(), 1⟩) 1 ()).run (init ()) stopOnce = some s ∧
      s.threads.stream = .node () ∧ s.stop = .joinEvent := ⟨_, rfl, rfl, rfl⟩
  rcases run with ⟨s, run, executes, joins⟩
  have path : (machine (fun _ => ⟨(), 1⟩) 1 ()).Path (StopsOwnQueue fun _ => ⟨(), 1⟩) stopOnce s :=
    (Machine.runs_of_run run).mono fun _ a _ => by cases a <;> simp [StopsOwnQueue]
  have called : s.stop ≠ .notCalled := by simp [joins]
  exact ⟨s, path, executes,
    (stream_stop_threads_returns path called).1.resolve_left (by simp [joins])⟩

end StoppableThreads

end CmsisStream.Runtime
