import CmsisStream.Runtime.Handshake
import CmsisStream.Runtime.QueueHistory

/-!
# A pause of the scheduler

When `stream_pause_current_scheduler` returns, the two threads are parked and stay so, and the
event queue of the context is empty.
-/

namespace CmsisStream.Runtime

/-- The next steps of the thread may add a message to the queue. -/
inductive Adding {ε : Type} : Call ε → Prop
  | testPause (msg : Message ε) : Adding (.pushTestPause msg)
  | testEnd (msg : Message ε) : Adding (.pushTestEnd msg)
  | locked (msg : Message ε) : Adding (.pushLocked msg)

theorem not_adding_start {ε : Type} {operation : Operation ε}
    (other : ∀ msg, operation ≠ .push msg) : ¬ Adding operation.start := by
  cases operation with
  | push msg => exact absurd rfl (other msg)
  | _ => nofun

namespace PosixEventQueue

variable {ι ε : Type} [DecidableEq ι] {capacity : ℕ} {q q' : PosixEventQueue ι ε}
  {action : QueueAction ι ε} {t : Thread ι}

/-- Only a call of `push` makes a thread add a message. -/
theorem adding_next (next : q.next capacity action = some q') (adding : Adding (q'.calls t)) :
    Adding (q.calls t) ∨ ∃ msg, action = .call t (.push msg) := by
  cases action with
  | call t' operation =>
      rcases next_call next with ⟨-, rfl⟩
      by_cases same : t = t'
      · subst same
        rw [setCall_self] at adding
        cases operation with
        | push msg => exact .inr ⟨msg, rfl⟩
        | _ => cases adding
      · rw [setCall_of_ne _ same] at adding
        exact .inl adding
  | step t' now =>
      left
      by_cases same : t = t'
      · subst same
        cases call : q.calls t with
        | pushTestPause msg => exact .testPause msg
        | pushTestEnd msg => exact .testEnd msg
        | pushLocked msg => exact .locked msg
        | idle =>
            simp only [PosixEventQueue.next, callStep, call] at next
            cases next
        | pauseNotify refused =>
            simp only [PosixEventQueue.next, callStep, call] at next
            cases next
            rw [setCall_self] at adding
            cases refused <;> cases adding
        | _ =>
            simp only [PosixEventQueue.next, callStep, call] at next
            cases next
            rw [setCall_self] at adding
            cases adding
      · rwa [callStep_other same next] at adding
  | execute now =>
      left
      rwa [executeStep_calls next] at adding
  | handled success =>
      left
      rcases next_handled next with ⟨-, idle, rfl⟩
      cases success with
      | true => exact adding
      | false =>
          by_cases same : t = .event
          · subst same
            simp only [Bool.false_eq_true, ↓reduceIte, setCall_self] at adding
            cases adding
          · simpa [setCall_of_ne _ same] using adding

omit [DecidableEq ι] in
/-- A message is accepted in the critical section of `push`. -/
theorem pushing_of_accepted {msg : Message ε}
    (mem : .accepted t msg ∈ q.entries capacity action) :
    ∃ t' msg', q.calls t' = .pushLocked msg' := by
  cases action with
  | call t' operation => cases operation <;> simp [entries] at mem
  | step t' now =>
      cases call : q.calls t' with
      | pushLocked msg' => exact ⟨t', msg', call⟩
      | clear => simp [entries, call, clearEntries] at mem
      | _ => simp [entries, call] at mem
  | execute now =>
      cases pc : q.execute with
      | pop =>
          simp only [entries, pc, Option.mem_toList] at mem
          rcases Option.bind_eq_some_iff.mp mem with ⟨p, -, front⟩
          rcases Option.map_eq_some_iff.mp front with ⟨msg', -, eq⟩
          cases eq
      | _ => simp [entries, pc] at mem
  | handled success => simp [entries] at mem

/-- An empty queue stays empty while no thread adds a message. -/
theorem empty_next (next : q.next capacity action = some q')
    (nobody : ∀ t, ¬ Adding (q.calls t)) (empty : ∀ p, (q.queue p).count = 0) (p : Fin 3) :
    (q'.queue p).count = 0 := by
  rcases next_queue next with ⟨same, -⟩ | ⟨t, msg, -, -, accepted⟩ | ⟨p', msg, found, -⟩ |
    ⟨clear, -⟩
  · rw [same, empty]
  · rcases pushing_of_accepted (accepted ▸ List.mem_cons_of_mem _ (List.mem_singleton_self _)) with
      ⟨t', msg', locked⟩
    exact absurd (locked ▸ .locked msg') (nobody t')
  · exact absurd (empty p') (highest_eq_some found).1
  · rw [clear]
    exact RingBuffer.count_clear

/-- A call of `clear` goes on until the queue is empty. -/
theorem clear_next (next : q.next capacity action = some q') (called : q.calls t = .clear)
    (other : ∀ operation, action ≠ .call t operation) :
    q'.calls t = .clear ∨ ∀ p, (q'.queue p).count = 0 := by
  cases action with
  | call t' operation =>
      left
      rcases next_call next with ⟨-, rfl⟩
      rwa [setCall_of_ne _ fun same : t = t' => other operation (by rw [same])]
  | step t' now =>
      by_cases same : t = t'
      · subst same
        right
        simp only [PosixEventQueue.next, callStep, called] at next
        cases next
        exact fun p => RingBuffer.count_clear
      · exact .inl (callStep_other same next ▸ called)
  | execute now => exact .inl (executeStep_calls next ▸ called)
  | handled success =>
      left
      rcases next_handled next with ⟨-, idle, rfl⟩
      have ne : t ≠ .event := by
        rintro rfl
        exact absurd (idle.symm.trans called) (by simp)
      cases success with
      | true => exact called
      | false => simpa [setCall_of_ne _ ne] using called

/-- A handler is called by a step of `execute`. -/
theorem dispatch_next (next : q.next capacity action = some q') {msg : Message ε}
    (dispatch : q'.execute = .dispatch msg) :
    q.execute = .dispatch msg ∨ ∃ now, action = .execute now := by
  cases action with
  | call t' operation =>
      rcases next_call next with ⟨-, rfl⟩
      exact .inl dispatch
  | step t' now => exact .inl (callStep_execute next ▸ dispatch)
  | execute now => exact .inr ⟨now, rfl⟩
  | handled success =>
      rcases next_handled next with ⟨-, -, rfl⟩
      cases success <;> cases dispatch

/-- The event thread adds messages to the queue only in a handler. -/
def InHandler (q : PosixEventQueue ι ε) : Prop :=
  Adding (q.calls .event) → ∃ msg, q.execute = .dispatch msg

theorem InHandler.next (inside : q.InHandler) (next : q.next capacity action = some q') :
    q'.InHandler := by
  intro adding
  cases action with
  | call t' operation =>
      rcases next_call next with ⟨-, rfl⟩
      by_cases same : t' = .event
      · subst same
        simp only [PosixEventQueue.next] at next
        split at next
        · split at next
          · rename_i other
            cases other
          · rename_i msg _ pc
            exact ⟨msg, pc⟩
          · cases next
        · cases next
      · rw [setCall_of_ne _ (Ne.symm same)] at adding
        exact inside adding
  | step t' now =>
      have before := (adding_next next adding).resolve_right (by simp)
      rw [callStep_execute next]
      exact inside before
  | execute now =>
      rw [executeStep_calls next] at adding
      rcases inside adding with ⟨msg, pc⟩
      simp only [PosixEventQueue.next, executeStep, pc] at next
      cases next
  | handled success =>
      rcases next_handled next with ⟨-, idle, rfl⟩
      cases success
      · simp only [Bool.false_eq_true, ↓reduceIte, setCall_self] at adding
        cases adding
      · simp only [↓reduceIte, idle] at adding
        cases adding

end PosixEventQueue

/-- The queue is cleared after the acknowledgement of the event thread. -/
theorem Control.ApplicationStep.clearing {κ : Type} {length : κ → ℕ} {s s' : Control κ}
    (step : ApplicationStep length s s') (clearing : s'.application = .clearQueue) :
    s.application = .waitEventPaused := by
  cases step with
  | eventPaused pc => exact pc
  | _ => cases clearing

theorem Control.ApplicationStep.cleared {κ : Type} {length : κ → ℕ} {s s' : Control κ}
    (step : ApplicationStep length s s') (cleared : s'.application = .outside .paused) :
    s.application = .clearQueue := by
  cases step with
  | queueCleared pc => exact pc
  | _ => cases cleared

namespace Threads

variable {κ ρ ι ε : Type} [DecidableEq ρ] [DecidableEq ι] {contexts : κ → ExecutionContext ρ}
  {capacity : ℕ} {s s' : Threads κ ρ ι ε} {a : Action κ ρ ι ε}

/-- What the functions of the runtime do with an event queue. -/
inductive Touches (s : Threads κ ρ ι ε) (r : ρ) : PosixEventQueue (Caller ι) ε → Prop
  | same : Touches s r (s.queues r)
  | call (caller : Caller ι) {operation : Operation ε}
      (function : operation = .pause ∨ operation = .clear ∨ operation = .resume) :
      Touches s r ((s.queues r).setCall (.other caller) operation.start)
  | execute (pc : s.event = .loadContext) :
      Touches s r { s.queues r with execute := .outerTestEnd }
  | consumeError : Touches s r { s.queues r with errorPending := false }

theorem touches_call {caller : Caller ι} {operation : Operation ε}
    (function : operation = .pause ∨ operation = .clear ∨ operation = .resume) (r r' : ρ) :
    s.Touches r' ((s.call r caller operation).queues r') := by
  rw [Threads.call]
  by_cases same : r' = r
  · subst same
    rw [setQueue_self]
    exact .call caller function
  · rw [setQueue_of_ne _ same]
    exact .same

theorem applicationStep_touches (step : s.applicationStep contexts = some s') (r : ρ) :
    s.Touches r (s'.queues r) := by
  cases pc : s.application <;> simp only [applicationStep, pc] at step
  case outside => cases step
  case pauseQueue | clearQueue | resumeQueue =>
    split at step <;> cases step
    exact .same
  case waitStreamPaused =>
    rcases Option.map_eq_some_iff.mp step with ⟨_, -, rfl⟩
    exact .same
  case waitEventPaused =>
    rcases Option.map_eq_some_iff.mp step with ⟨_, -, rfl⟩
    exact touches_call (.inr (.inl rfl)) _ r
  case setContext =>
    cases step
    exact touches_call (.inr (.inr rfl)) _ r
  case waitStreamResumed | waitEventResumed =>
    rcases Option.map_eq_some_iff.mp step with ⟨_, -, rfl⟩
    split
    · exact touches_call (.inl rfl) _ r
    · exact .same
  all_goals
    cases step
    exact .same

omit [DecidableEq ρ] [DecidableEq ι] in
theorem streamStep_queues (step : s.streamStep contexts = some s') : s'.queues = s.queues := by
  cases pc : s.stream <;> simp only [streamStep, pc] at step
  case node | finished => cases step
  case pauseQueue | pauseNodes | resumeNodes =>
    split at step <;> cases step
    rfl
  case waitEventPaused | waitResume =>
    rcases Option.map_eq_some_iff.mp step with ⟨_, -, rfl⟩
    rfl
  case beforeNode =>
    split at step
    all_goals
      cases step
      rfl
  all_goals
    cases step
    rfl

theorem nodeStep_touches {status : NodeStatus} (step : s.nodeStep contexts status = some s')
    (r : ρ) : s.Touches r (s'.queues r) := by
  simp only [nodeStep] at step
  split at step
  · split at step
    · cases status <;> cases step
      · exact .same
      · exact .same
      · exact touches_call (.inl rfl) _ r
      · exact touches_call (.inl rfl) _ r
    · cases step
  · cases step

theorem eventStep_touches (step : s.eventStep contexts = some s') (r : ρ) :
    s.Touches r (s'.queues r) := by
  cases pc : s.event <;> simp only [eventStep, pc] at step
  case finished => cases step
  case loadContext =>
    cases step
    by_cases same : r = (contexts s.current_context).evtQueue
    · subst same
      simpa using Touches.execute pc
    · simpa [setQueue_of_ne _ same] using Touches.same
  case execute | pauseNodes =>
    split at step <;> cases step
    exact .same
  case consumeError c =>
    split at step <;> cases step
    · by_cases same : r = (contexts c).evtQueue
      · subst same
        simpa using Touches.consumeError
      · simpa [setQueue_of_ne _ same] using Touches.same
    · exact .same
  case waitStreamPaused | waitResume =>
    rcases Option.map_eq_some_iff.mp step with ⟨_, -, rfl⟩
    exact .same
  all_goals
    cases step
    exact .same

/-- What an action does with an event queue. -/
theorem next_touches (step : s.next contexts capacity a = some s') (r : ρ) :
    s.Touches r (s'.queues r) ∨ ∃ action, a = .queue r action ∧
      s.permits contexts r action = true ∧
      (s.queues r).next capacity action = some (s'.queues r) := by
  cases a with
  | pause =>
      left
      simp only [next] at step
      split at step <;> cases step
      exact touches_call (.inl rfl) _ r
  | resume =>
      left
      simp only [next] at step
      split at step <;> cases step
      exact .same
  | application => exact .inl (applicationStep_touches step r)
  | stream =>
      left
      rw [streamStep_queues step]
      exact .same
  | event => exact .inl (eventStep_touches step r)
  | node status => exact .inl (nodeStep_touches step r)
  | queue r' action =>
      simp only [next] at step
      split at step
      · rename_i permitted
        rcases Option.map_eq_some_iff.mp step with ⟨q, next, rfl⟩
        by_cases same : r = r'
        · subst same
          right
          exact ⟨action, rfl, permitted, by rwa [setQueue_self]⟩
        · left
          rw [setQueue_of_ne _ same]
          exact .same
      · cases step

/-! ## Who adds messages -/

/-- Events are pushed by the threads of the runtime only. -/
def ownEvents : Action κ ρ ι ε → Bool
  | .queue _ (.call (.other (.external _)) _) => false
  | _ => true

/-- A thread which adds a message to a queue is in a node, or in a handler. -/
structure Producers (contexts : κ → ExecutionContext ρ) (s : Threads κ ρ ι ε) : Prop where
  application : ∀ r, ¬ Adding ((s.queues r).calls (.other .application))
  external : ∀ r i, ¬ Adding ((s.queues r).calls (.other (.external i)))
  stream : ∀ r, Adding ((s.queues r).calls (.other .stream)) →
    ∃ c, s.stream.calling? = some c ∧ (contexts c).evtQueue = r
  event : ∀ r, Adding ((s.queues r).calls (.other .event)) →
    ∃ c, s.event = .pauseNodes c ∧ (contexts c).evtQueue = r
  handler : ∀ r, (s.queues r).InHandler
  dispatch : ∀ r msg, (s.queues r).execute = .dispatch msg →
    ∃ c, s.event = .execute c ∧ (contexts c).evtQueue = r

omit [DecidableEq ρ] in
theorem Touches.adding {r : ρ} {q : PosixEventQueue (Caller ι) ε} (touches : s.Touches r q)
    {t : Thread (Caller ι)} (adding : Adding (q.calls t)) : Adding ((s.queues r).calls t) := by
  cases touches with
  | call caller function =>
      by_cases same : t = .other caller
      · subst same
        rw [PosixEventQueue.setCall_self] at adding
        exact absurd adding (not_adding_start (by rcases function with rfl | rfl | rfl <;> simp))
      · rwa [PosixEventQueue.setCall_of_ne _ same] at adding
  | _ => exact adding

/-- The stream thread leaves a node when it has returned from the event queue. -/
theorem next_calling (step : s.next contexts capacity a = some s') {c : κ}
    (calling : s.stream.calling? = some c) :
    s'.stream.calling? = some c ∨ s.isIdle (contexts c).evtQueue .stream = true := by
  rcases next_stream step with same | rfl | ⟨status, rfl⟩
  · exact .inl (same ▸ calling)
  · cases pc : s.stream with
    | pauseNodes c' requested | resumeNodes c' =>
        rw [pc] at calling
        cases calling
        simp only [next, streamStep, pc] at step
        split at step
        · rename_i idle
          exact .inr idle
        · cases step
    | node c' =>
        simp only [next, streamStep, pc] at step
        cases step
    | _ =>
        rw [pc] at calling
        cases calling
  · simp only [next, nodeStep] at step
    split at step
    · rename_i c' pc
      rw [pc] at calling
      cases calling
      split at step
      · rename_i idle
        exact .inr idle
      · cases step
    · cases step

theorem next_pausing (step : s.next contexts capacity a = some s') {c : κ}
    (pc : s.event = .pauseNodes c) :
    s'.event = .pauseNodes c ∨ s.isIdle (contexts c).evtQueue .event = true := by
  rcases next_event step with same | rfl
  · exact .inl (same ▸ pc)
  · simp only [next, eventStep, pc] at step
    split at step
    · rename_i idle
      exact .inr idle
    · cases step

theorem next_executing (step : s.next contexts capacity a = some s') {c : κ}
    (pc : s.event = .execute c) :
    s'.event = .execute c ∨ (s.queues (contexts c).evtQueue).execute.isReturned = true := by
  rcases next_event step with same | rfl
  · exact .inl (same ▸ pc)
  · simp only [next, eventStep, pc] at step
    split at step
    · rename_i returned
      exact .inr returned
    · cases step

/-- A handler is called by the event thread in `execute`. -/
theorem dispatching_next (dispatch : ∀ r msg, (s.queues r).execute = .dispatch msg →
      ∃ c, s.event = .execute c ∧ (contexts c).evtQueue = r)
    (step : s.next contexts capacity a = some s') (r : ρ) (msg : Message ε)
    (pc : (s'.queues r).execute = .dispatch msg) :
    ∃ c, s'.event = .execute c ∧ (contexts c).evtQueue = r := by
  rcases next_touches step r with touches | ⟨action, rfl, permitted, next⟩
  · have before : (s.queues r).execute = .dispatch msg := by
      generalize s'.queues r = q at touches pc
      cases touches with
      | execute load => cases pc
      | _ => exact pc
    rcases dispatch r msg before with ⟨c, executing, rfl⟩
    rcases next_executing step executing with executing | returned
    · exact ⟨c, executing, rfl⟩
    · rw [before] at returned
      cases returned
  · have control : s'.toControl = s.toControl := next_control step
    rw [show s'.event = s.event from congrArg Control.event control]
    rcases PosixEventQueue.dispatch_next next pc with pc | ⟨now, rfl⟩
    · exact dispatch r msg pc
    · simp only [permits] at permitted
      split at permitted
      · rename_i c executing
        exact ⟨c, executing, of_decide_eq_true (Bool.and_eq_true_iff.mp permitted).1⟩
      · cases permitted

omit [DecidableEq ρ] [DecidableEq ι] in
theorem not_adding_of_idle {r : ρ} {caller : Caller ι} (idle : s.isIdle r caller = true) :
    ¬ Adding ((s.queues r).calls (.other caller)) := by
  rw [Call.isIdle_iff.mp idle]
  nofun

theorem Producers.next (producers : s.Producers contexts) (own : ownEvents a = true)
    (step : s.next contexts capacity a = some s') : s'.Producers contexts := by
  rcases producers with ⟨application, external, stream, event, handler, dispatch⟩
  -- A thread adds a message as before, or it is allowed to start a call of `push`.
  have before : ∀ r t, Adding ((s'.queues r).calls t) → Adding ((s.queues r).calls t) ∨
      ∃ msg, a = .queue r (.call t (.push msg)) ∧
        s.permits contexts r (.call t (.push msg)) = true := by
    intro r t adding
    rcases next_touches step r with touches | ⟨action, rfl, permitted, next⟩
    · exact .inl (touches.adding adding)
    · rcases PosixEventQueue.adding_next next adding with adding | ⟨msg, rfl⟩
      · exact .inl adding
      · exact .inr ⟨msg, rfl, permitted⟩
  have unmoved : ∀ r action, a = .queue r action → s'.toControl = s.toControl := by
    rintro r action rfl
    exact next_control step
  refine ⟨fun r adding => ?_, fun r i adding => ?_, fun r adding => ?_, fun r adding => ?_,
    fun r => ?_, fun r msg pc => ?_⟩
  · rcases before r _ adding with adding | ⟨msg, -, permitted⟩
    · exact application r adding
    · cases permitted
  · rcases before r _ adding with adding | ⟨msg, rfl, -⟩
    · exact external r i adding
    · cases own
  · rcases before r _ adding with adding | ⟨msg, moved, permitted⟩
    · rcases stream r adding with ⟨c, calling, rfl⟩
      rcases next_calling step calling with calling | idle
      · exact ⟨c, calling, rfl⟩
      · exact absurd adding (not_adding_of_idle idle)
    · rw [show s'.stream = s.stream from congrArg Control.stream (unmoved _ _ moved)]
      simp only [permits] at permitted
      split at permitted
      · rename_i c calling
        exact ⟨c, calling, of_decide_eq_true permitted⟩
      · cases permitted
  · rcases before r _ adding with adding | ⟨msg, moved, permitted⟩
    · rcases event r adding with ⟨c, pc, rfl⟩
      rcases next_pausing step pc with pc | idle
      · exact ⟨c, pc, rfl⟩
      · exact absurd adding (not_adding_of_idle idle)
    · rw [show s'.event = s.event from congrArg Control.event (unmoved _ _ moved)]
      simp only [permits] at permitted
      split at permitted
      · rename_i c pc
        exact ⟨c, pc, of_decide_eq_true permitted⟩
      · cases permitted
  · rcases next_touches step r with touches | ⟨action, -, -, next⟩
    · intro adding
      rcases handler r (touches.adding adding) with ⟨msg, pc⟩
      generalize s'.queues r = q at touches
      cases touches with
      | execute load =>
          rcases dispatch r msg pc with ⟨c, executing, -⟩
          exact absurd (load.symm.trans executing) (by simp)
      | _ => exact ⟨msg, pc⟩
    · exact (handler r).next next
  · exact dispatching_next dispatch step r msg pc

/-! ## The pause -/

/-- No node is executed, no event is dispatched, and the queue of the context is empty. -/
structure Quiescent (contexts : κ → ExecutionContext ρ) (s : Threads κ ρ ι ε) : Prop where
  stream : s.stream.calling? = none
  event : s.event = .waitResume
  dispatch : ∀ r msg, (s.queues r).execute ≠ .dispatch msg
  empty : ∀ p, ((s.queues (contexts s.current_context).evtQueue).queue p).count = 0

/-- The application clears the queue of the context, after the two acknowledgements. -/
structure Clears (contexts : κ → ExecutionContext ρ) (s : Threads κ ρ ι ε) : Prop where
  clearing : s.application = .clearQueue →
    (s.queues (contexts s.current_context).evtQueue).calls (.other .application) = .clear ∨
      ∀ p, ((s.queues (contexts s.current_context).evtQueue).queue p).count = 0
  cleared : s.application = .outside .paused →
    ∀ p, ((s.queues (contexts s.current_context).evtQueue).queue p).count = 0

omit [DecidableEq ρ] [DecidableEq ι] in
theorem stopped_threads (handshake : s.Handshake (schedulerLength contexts))
    (stopped : s.application = .clearQueue ∨ s.application = .outside .paused) :
    s.stream.quiet = true ∧ s.event = .waitResume := by
  have stop : s.application.eventStopped = true ∧ s.application.streamStopped = true ∧
      s.application.switching = false := by
    rcases stopped with pc | pc <;> rw [pc] <;> exact ⟨rfl, rfl, rfl⟩
  refine ⟨?_, (handshake.events.stopped stop.1).1⟩
  rcases Nat.eq_zero_or_pos (schedulerLength contexts s.current_context) with short | long
  · exact (handshake.streams.running stop.2.2).2.2 short
  · rw [(handshake.streams.stopped stop.2.1 long).1]
    rfl

omit [DecidableEq ρ] [DecidableEq ι] in
/-- While both threads are stopped nobody adds messages. -/
theorem nobody_adds (producers : s.Producers contexts) (quiet : s.stream.quiet = true)
    (parked : s.event = .waitResume) (r : ρ) (t : Thread (Caller ι)) :
    ¬ Adding ((s.queues r).calls t) := by
  intro adding
  match t with
  | .event =>
      rcases producers.handler r adding with ⟨msg, dispatch⟩
      rcases producers.dispatch r msg dispatch with ⟨c, executing, -⟩
      exact absurd (parked.symm.trans executing) (by simp)
  | .other .application => exact producers.application r adding
  | .other .stream =>
      rcases producers.stream r adding with ⟨c, calling, -⟩
      cases pc : s.stream <;> simp_all [StreamThread.quiet, StreamThread.calling?]
  | .other .event =>
      rcases producers.event r adding with ⟨c, pausing, -⟩
      exact absurd (parked.symm.trans pausing) (by simp)
  | .other (.external i) => exact producers.external r i adding

/-- While both threads are stopped, only the functions of a queue change the queue. -/
theorem stopped_queues (step : s.next contexts capacity a = some s')
    (quiet : s.stream.quiet = true) (parked : s.event = .waitResume) (other : a ≠ .application)
    (application : s'.application = s.application) (r : ρ) :
    s'.queues r = s.queues r ∨ ∃ action, s.permits contexts r action = true ∧
      (s.queues r).next capacity action = some (s'.queues r) := by
  cases a with
  | pause | resume =>
      simp only [next] at step
      split at step <;> cases step
      rename_i outside
      exact absurd (application.trans outside) (by simp)
  | application => exact absurd rfl other
  | stream => exact .inl (by rw [streamStep_queues step])
  | event =>
      simp only [next, eventStep, parked] at step
      rcases Option.map_eq_some_iff.mp step with ⟨_, -, rfl⟩
      exact .inl rfl
  | node status =>
      simp only [next, nodeStep] at step
      split at step
      · rename_i pc
        simp [pc, StreamThread.quiet] at quiet
      · cases step
  | queue r' action =>
      simp only [next] at step
      split at step
      · rename_i permitted
        rcases Option.map_eq_some_iff.mp step with ⟨q, next, rfl⟩
        by_cases same : r = r'
        · subst same
          exact .inr ⟨action, permitted, by rwa [setQueue_self]⟩
        · exact .inl (setQueue_of_ne _ same _)
      · cases step

theorem Clears.next (clears : s.Clears contexts)
    (handshake : s.Handshake (schedulerLength contexts)) (producers : s.Producers contexts)
    (step : s.next contexts capacity a = some s') : s'.Clears contexts := by
  by_cases applied : a = .application
  · subst applied
    have control := applicationStep_control step
    refine ⟨fun clearing => ?_, fun cleared => ?_⟩
    · have pc := control.clearing clearing
      simp only [Threads.next, applicationStep, pc] at step
      rcases Option.map_eq_some_iff.mp step with ⟨_, -, rfl⟩
      exact .inl (call_calls s _ _ .clear)
    · have pc := control.cleared cleared
      simp only [Threads.next, applicationStep, pc] at step
      split at step
      · rename_i idle
        cases step
        refine (clears.clearing pc).resolve_left fun called => ?_
        rw [Call.isIdle_iff.mp idle] at called
        cases called
      · cases step
  · have unmoved : s'.application = .clearQueue ∨ s'.application = .outside .paused →
        s'.application = s.application ∧ s'.current_context = s.current_context := by
      intro stopped
      have control := next_control step
      cases a with
      | pause | resume => simp [control.2] at stopped
      | application => exact absurd rfl applied
      | stream | node =>
          exact ⟨(Control.StreamStep.frame control).1, (Control.StreamStep.frame control).2.2⟩
      | event => exact ⟨(Control.EventStep.frame control).1, (Control.EventStep.frame control).2.2⟩
      | queue =>
          exact ⟨congrArg Control.application control, congrArg Control.current_context control⟩
    refine ⟨fun clearing => ?_, fun cleared p => ?_⟩
    · rcases unmoved (.inl clearing) with ⟨application, context⟩
      have pc := application.symm.trans clearing
      rcases stopped_threads handshake (.inl pc) with ⟨quiet, parked⟩
      rw [context]
      rcases stopped_queues step quiet parked applied application
        (contexts s.current_context).evtQueue with same | ⟨action, permitted, next⟩
      · rw [same]
        exact clears.clearing pc
      · rcases clears.clearing pc with called | empty
        · refine PosixEventQueue.clear_next next called ?_
          rintro operation rfl
          cases operation <;> cases permitted
        · exact .inr (PosixEventQueue.empty_next next (nobody_adds producers quiet parked _) empty)
    · rcases unmoved (.inr cleared) with ⟨application, context⟩
      have pc := application.symm.trans cleared
      rcases stopped_threads handshake (.inr pc) with ⟨quiet, parked⟩
      rw [context]
      rcases stopped_queues step quiet parked applied application
        (contexts s.current_context).evtQueue with same | ⟨action, -, next⟩
      · rw [same]
        exact clears.cleared pc p
      · exact PosixEventQueue.empty_next next (nobody_adds producers quiet parked _)
          (clears.cleared pc) p

/-- The application pauses and resumes in turn, and only the threads of the runtime push events. -/
def PausesInTurn (s : Threads κ ρ ι ε) (a : Action κ ρ ι ε) : Prop :=
  s.Alternates a ∧ ownEvents a = true

instance [DecidableEq κ] (s : Threads κ ρ ι ε) (a : Action κ ρ ι ε) :
    Decidable (s.PausesInTurn a) := inferInstanceAs (Decidable (_ ∧ _))

theorem quiescent_of_path {context : κ} {actions : List (Action κ ρ ι ε)}
    (path : (machine contexts capacity context).Path PausesInTurn actions s)
    (paused : s.application = .outside .paused) : s.Quiescent contexts := by
  have invariant := path.invariant
    (p := fun s =>
      s.Handshake (schedulerLength contexts) ∧ s.Producers contexts ∧ s.Clears contexts)
    ⟨init_handshake, ⟨nofun, nofun, nofun, nofun, nofun, nofun⟩, nofun, nofun⟩
    fun s a s' ⟨handshake, producers, clears⟩ allow step =>
      ⟨handshake_next handshake allow.1 step, producers.next allow.2 step,
        clears.next handshake producers step⟩
  rcases invariant with ⟨handshake, producers, clears⟩
  rcases stopped_threads handshake (.inr paused) with ⟨quiet, parked⟩
  refine ⟨?_, parked, fun r msg dispatch => ?_, clears.cleared paused⟩
  · cases pc : s.stream <;> simp_all [StreamThread.quiet, StreamThread.calling?]
  · rcases producers.dispatch r msg dispatch with ⟨c, executing, -⟩
    exact absurd (parked.symm.trans executing) (by simp)

/-- The application stays outside until it resumes a context. -/
theorem paused_of_path {context : κ} {actions more : List (Action κ ρ ι ε)}
    (path : (machine contexts capacity context).Path PausesInTurn actions s)
    (paused : s.application = .outside .paused)
    (path' : (machine contexts capacity context).Path PausesInTurn (actions ++ more) s')
    (noResume : ∀ c, .resume c ∉ more) : s'.application = .outside .paused := by
  induction more using List.reverseRecOn generalizing s' with
  | nil =>
      rw [List.append_nil] at path'
      exact path.unique path' ▸ paused
  | append_singleton more a ih =>
      rw [← List.append_assoc] at path'
      rcases Machine.path_concat path' with ⟨t, before, allow, step⟩
      have waits := ih before fun c mem => noResume c (List.mem_append_left _ mem)
      have control := next_control step
      cases a with
      | pause => exact absurd waits allow.1
      | resume c => exact absurd (List.mem_append_right _ (List.mem_singleton_self _)) (noResume c)
      | application =>
          simp only [machine, Threads.next, applicationStep, waits] at step
          cases step
      | stream | node => exact (Control.StreamStep.frame control).1.trans waits
      | event => exact (Control.EventStep.frame control).1.trans waits
      | queue => exact (congrArg Control.application control).trans waits

/-- When `stream_pause_current_scheduler` returns, no node is executed, no event is dispatched and
the queue of the context is empty, and this lasts until the application resumes a context. -/
theorem stream_pause_current_scheduler_pauses {context : κ} {actions : List (Action κ ρ ι ε)}
    (path : (machine contexts capacity context).Path PausesInTurn actions s)
    (returns : s.application = .outside .paused) :
    s.Quiescent contexts ∧ ∀ more s',
      (machine contexts capacity context).Path PausesInTurn (actions ++ more) s' →
      (∀ c, .resume c ∉ more) → s'.Quiescent contexts :=
  ⟨quiescent_of_path path returns, fun _ _ path' noResume =>
    quiescent_of_path path' (paused_of_path path returns path' noResume)⟩

/-- The application pauses a context with a schedule. -/
def pauseOnce : List (Action Unit Unit Empty ℕ) :=
  [.pause, .queue () (.step (.other .application) 0), .queue () (.step (.other .application) 0),
    .application, .application, .stream, .stream, .stream, .stream, .stream, .application,
    .event, .queue () (.execute 0), .queue () (.execute 0), .event, .event, .event, .event,
    .application, .queue () (.step (.other .application) 0), .application]

theorem pauseOnce_quiescent : ∃ s, (machine (fun _ => ⟨(), 1⟩) 1 ()).Path PausesInTurn pauseOnce s ∧
    s.Quiescent fun _ => ⟨(), 1⟩ := by
  have run : ∃ s, ((machine (fun _ => ⟨(), 1⟩) 1 ()).restrict PausesInTurn).run
      (init ()) pauseOnce = some s ∧ s.application = .outside .paused := ⟨_, rfl, rfl⟩
  rcases run with ⟨s, run, returns⟩
  have path := Machine.path_of_run run
  exact ⟨s, path, (stream_pause_current_scheduler_pauses path returns).1⟩

end Threads

end CmsisStream.Runtime
