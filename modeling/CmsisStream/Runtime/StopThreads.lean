import CmsisStream.Runtime.PauseScheduler

/-!
# The end of the threads

`stream_stop_threads` ends the event queue of the current context, wakes up the stream thread
and the event thread from whatever they may be waiting for, and joins them.  The threads of the
runtime are as before, but they test `runtime_stop_requested` after some of their steps and the
scheduler answers `STREAM_DONE_EVENT`.
-/

namespace CmsisStream.Runtime

open Codec (Word)

/-- The next step of `stream_stop_threads`, after `runtime_stop_requested` is stored. -/
inductive StopThreads where
  | notCalled
  | endQueue
  | endedQueue
  | postEvents
  | postReplies
  | joinEvent
  | joinStream
  | returned
deriving DecidableEq

/-- The threads are asked to end, and everything they may wait for is posted. -/
def StopThreads.posted : StopThreads → Bool
  | .joinEvent | .joinStream | .returned => true
  | _ => false

/-- The threads of the runtime and the function which stops them. -/
structure StoppableThreads (κ ρ ι ε : Type) where
  threads : Threads κ ρ ι ε
  stop : StopThreads
  runtime_stop_requested : Bool
  /-- `STREAM_DONE_EVENT` in `cg_streamEvent` -/
  streamDone : Bool
  /-- The thread tests `runtime_stop_requested` before its next step. -/
  streamTests : Bool
  eventTests : Bool

inductive StoppableAction (κ ρ ι ε : Type) where
  /-- The application calls `stream_stop_threads`. -/
  | stop
  /-- `stream_stop_threads` goes on. -/
  | stopping
  | threads (action : Action κ ρ ι ε)

/-- After this step the stream thread tests `runtime_stop_requested`: an error or the end of the
graph is reported, or `wait_stream_resume` is woken up or has returned. -/
def StreamThread.thenTests {κ : Type} : StreamThread κ → Bool
  | .waitEventPaused | .waitResume | .postResumed => true
  | _ => false

/-- The event thread tests `runtime_stop_requested` before it acknowledges a pause. -/
def EventThread.tests {κ : Type} : EventThread κ → Bool
  | .postPaused => true
  | _ => false

namespace StoppableThreads

variable {κ ρ ι ε : Type} [DecidableEq ρ] [DecidableEq ι]

/-- The threads after `stream_start_threads`. -/
def init (context : κ) : StoppableThreads κ ρ ι ε where
  threads := .init context
  stop := .notCalled
  runtime_stop_requested := false
  streamDone := false
  streamTests := false
  eventTests := false

variable (contexts : κ → ExecutionContext ρ) (s : StoppableThreads κ ρ ι ε)

/-- The next step of the stream thread, outside of a node. -/
def streamStep : Option (StoppableThreads κ ρ ι ε) :=
  if s.streamTests then
    some { s with
      streamTests := false
      threads := if s.runtime_stop_requested then { s.threads with stream := .finished }
        else s.threads }
  else
    match s.threads.stream, s.streamDone with
    | .beforeNode c, true =>
        -- The scheduler returns `CG_STOP_SCHEDULER`, also when a pause is requested.
        some { s with
          streamDone := false
          threads := { s.threads.call (contexts c).evtQueue .stream .pause with
            cg_streamEvent := s.threads.cg_streamEvent.clear [.streamPause]
            stream := .pauseQueue c } }
    | pc, _ =>
        (s.threads.streamStep contexts).map fun threads =>
          { s with threads := threads, streamTests := pc.thenTests }

/-- The next step of the event thread, outside of `execute`. -/
def eventStep : Option (StoppableThreads κ ρ ι ε) :=
  if s.eventTests then
    some { s with
      eventTests := false
      threads := if s.runtime_stop_requested then { s.threads with event := .finished }
        else s.threads }
  else
    (s.threads.eventStep contexts).map fun threads =>
      { s with threads := threads, eventTests := threads.event.tests }

/-- The next step of `stream_stop_threads`.  The current context is not used afterwards. -/
def stopStep : Option (StoppableThreads κ ρ ι ε) :=
  let r := (contexts s.threads.current_context).evtQueue
  match s.stop with
  | .notCalled => none
  | .endQueue =>
      some { s with threads := s.threads.call r .application .endQueue, stop := .endedQueue }
  | .endedQueue =>
      if s.threads.isIdle r .application then some { s with stop := .postEvents } else none
  | .postEvents =>
      some { s with
        streamDone := true
        threads := { s.threads with
          cg_streamEvent := s.threads.cg_streamEvent.post [.streamResume, .eventResume] }
        stop := .postReplies }
  | .postReplies =>
      some { s with
        threads := { s.threads with
          cg_streamReplyEvent := s.threads.cg_streamReplyEvent.post
            [.streamPaused, .streamResumed, .eventPaused, .eventResumed] }
        stop := .joinEvent }
  | .joinEvent =>
      match s.threads.event with
      | .finished => some { s with stop := .joinStream }
      | _ => none
  | .joinStream =>
      match s.threads.stream with
      | .finished => some { s with stop := .returned }
      | _ => none
  | .returned => none

def next (capacity : ℕ) : StoppableAction κ ρ ι ε → Option (StoppableThreads κ ρ ι ε)
  | .stop =>
      match s.stop, s.threads.application with
      | .notCalled, .outside _ =>
          some { s with runtime_stop_requested := true, stop := .endQueue }
      | _, _ => none
  | .stopping => s.stopStep contexts
  | .threads .stream => s.streamStep contexts
  | .threads .event => s.eventStep contexts
  | .threads .pause =>
      if s.stop = .notCalled then
        (s.threads.next contexts capacity .pause).map ({ s with threads := · })
      else none
  | .threads (.resume c) =>
      if s.stop = .notCalled then
        (s.threads.next contexts capacity (.resume c)).map ({ s with threads := · })
      else none
  | .threads action => (s.threads.next contexts capacity action).map ({ s with threads := · })

/-- The runtime started with a context, until its threads are stopped. -/
def machine (capacity : ℕ) (context : κ) :
    Machine (StoppableThreads κ ρ ι ε) (StoppableAction κ ρ ι ε) where
  init := init context
  next s := s.next contexts capacity

end StoppableThreads

/-! ## An event queue which must end -/

namespace PosixEventQueue

variable {ι ε : Type} {capacity : ℕ} {q q' : PosixEventQueue ι ε} {now : Word 4}
  {items : Fin 3 → List (Message ε)}

/-- The number of steps after which `execute` returns, once the queue must end -/
def leaveRank : Execute ε → ℕ
  | .returned => 0
  | .outerTestEnd | .leaveTestEnd => 1
  | .innerTestEnd | .waitEvent => 2
  | .outerTestPause | .leaveTestPause | .reportError => 3
  | .dispatch _ => 4
  | .testTtl _ => 5
  | .pop => 6
  | .innerTestEmpty => 7
  | .innerTestPause => 8

theorem leaveRank_le (pc : Execute ε) : leaveRank pc ≤ 8 := by
  cases pc <;> simp [leaveRank]

/-- The queue must end, and the event thread will see it. -/
structure Leaves (q : PosixEventQueue ι ε) : Prop where
  mustEnd : q.mustEnd = true
  notified : q.execute = .leaveTestPause ∨ q.execute = .waitEvent → q.event_ = true

theorem Leaves.executeStep (leaves : q.Leaves) (notReturned : q.execute ≠ .returned)
    (next : q.executeStep capacity now = some q') :
    q'.Leaves ∧ leaveRank q'.execute < leaveRank q.execute := by
  rcases leaves with ⟨mustEnd, notified⟩
  cases pc : q.execute with
  | returned => exact absurd pc notReturned
  | dispatch msg =>
      simp only [PosixEventQueue.executeStep, pc] at next
      cases next
  | outerTestEnd | innerTestEnd | leaveTestEnd =>
      simp only [PosixEventQueue.executeStep, pc, mustEnd, ↓reduceIte] at next
      cases next
      exact ⟨⟨rfl, by simp⟩, by simp [leaveRank]⟩
  | outerTestPause | innerTestPause | innerTestEmpty | testTtl =>
      simp only [PosixEventQueue.executeStep, pc] at next
      cases next
      refine ⟨⟨mustEnd, ?_⟩, ?_⟩ <;> split <;> simp [leaveRank]
  | leaveTestPause =>
      simp only [PosixEventQueue.executeStep, pc] at next
      cases next
      refine ⟨⟨mustEnd, fun _ => notified (.inl pc)⟩, ?_⟩
      split <;> simp [leaveRank]
  | pop =>
      simp only [PosixEventQueue.executeStep, pc] at next
      split at next
      · split at next <;> cases next
        exact ⟨⟨mustEnd, by simp⟩, by simp [leaveRank]⟩
      · cases next
        exact ⟨⟨mustEnd, by simp⟩, by simp [leaveRank]⟩
  | reportError | waitEvent =>
      simp only [PosixEventQueue.executeStep, pc] at next
      split at next <;> cases next
      exact ⟨⟨mustEnd, by simp⟩, by simp [leaveRank]⟩

/-- The event thread can go on in `execute`, unless it waits for a handler or for a call. -/
theorem Leaves.executes (leaves : q.Leaves) (stored : q.Stored capacity items)
    (now : Word 4) : (q.executeStep capacity now).isSome ∨ (∃ msg, q.execute = .dispatch msg) ∨
      q.calls .event ≠ .idle := by
  cases pc : q.execute with
  | dispatch msg => exact .inr (.inl ⟨msg, rfl⟩)
  | pop =>
      left
      simp only [PosixEventQueue.executeStep, pc]
      split
      · rename_i p found
        have some_ := (highest_eq_some found).1
        rw [(stored p).count] at some_
        rcases List.exists_cons_of_ne_nil (List.ne_nil_of_length_pos (Nat.pos_of_ne_zero some_))
          with ⟨msg, rest, eq⟩
        have front := RingBuffer.Holds.front (eq ▸ stored p)
        simp [front]
      · rfl
  | reportError =>
      by_cases idle : (q.calls .event).isIdle
      · left
        simp [PosixEventQueue.executeStep, pc, idle]
      · right; right
        rwa [ne_eq, ← Call.isIdle_iff]
  | waitEvent =>
      left
      simp [PosixEventQueue.executeStep, pc, leaves.notified (.inr pc)]
  | _ =>
      left
      simp only [PosixEventQueue.executeStep, pc]
      rfl

variable [DecidableEq ι] {t : Thread ι}

omit [DecidableEq ι] in
/-- Only `mustEnd`, `event_` and the position of the event thread matter. -/
theorem Leaves.congr (leaves : q.Leaves) (mustEnd : q'.mustEnd = q.mustEnd)
    (event : q.event_ = true → q'.event_ = true) (execute : q'.execute = q.execute) :
    q'.Leaves where
  mustEnd := mustEnd.trans leaves.mustEnd
  notified waits := event (leaves.notified (execute ▸ waits))

/-- A call does not take back the end of the queue. -/
theorem callStep_mustEnd (next : q.callStep capacity t now = some q') :
    (q.mustEnd = true → q'.mustEnd = true) ∧ (q.event_ = true → q'.event_ = true) := by
  cases call : q.calls t with
  | idle =>
      simp only [callStep, call] at next
      cases next
  | pushLocked msg =>
      simp only [callStep, call] at next
      split at next <;> cases next <;> exact ⟨id, id⟩
  | endStore =>
      simp only [callStep, call] at next
      cases next
      exact ⟨fun _ => rfl, id⟩
  | pauseNotify _ | pushNotify _ _ | endNotify =>
      simp only [callStep, call] at next
      cases next
      exact ⟨id, fun _ => rfl⟩
  | _ =>
      simp only [callStep, call] at next
      cases next
      exact ⟨id, id⟩

/-- A thread can go on in the function that it has called. -/
theorem callStep_isSome (called : q.calls t ≠ .idle) (now : Word 4) :
    (q.callStep capacity t now).isSome := by
  cases call : q.calls t with
  | idle => exact absurd call called
  | pushLocked msg =>
      simp only [callStep, call]
      split <;> rfl
  | _ =>
      simp only [callStep, call]
      rfl

theorem Leaves.next {action : QueueAction ι ε} (leaves : q.Leaves)
    (next : q.next capacity action = some q') :
    q'.Leaves := by
  cases action with
  | call t operation =>
      rcases next_call next with ⟨-, rfl⟩
      exact leaves.congr rfl id rfl
  | step t now =>
      rcases callStep_mustEnd next with ⟨mustEnd, event⟩
      exact ⟨mustEnd leaves.mustEnd, fun waits =>
        event (leaves.notified (callStep_execute next ▸ waits))⟩
  | execute now =>
      by_cases returned : q.execute = .returned
      · simp only [PosixEventQueue.next, PosixEventQueue.executeStep, returned] at next
        cases next
        exact ⟨leaves.mustEnd, by simp⟩
      · exact (leaves.executeStep returned next).1
  | handled success =>
      rcases next_handled next with ⟨-, -, rfl⟩
      cases success <;> exact ⟨leaves.mustEnd, by simp [setCall]⟩

omit [DecidableEq ι] in
theorem executeStep_mustEnd (next : q.executeStep capacity now = some q') :
    q'.mustEnd = q.mustEnd := by
  cases pc : q.execute with
  | pop =>
      simp only [PosixEventQueue.executeStep, pc] at next
      split at next
      · split at next <;> cases next
        rfl
      · cases next
        rfl
  | dispatch msg =>
      simp only [PosixEventQueue.executeStep, pc] at next
      cases next
  | reportError | waitEvent =>
      simp only [PosixEventQueue.executeStep, pc] at next
      split at next <;> cases next
      rfl
  | _ =>
      simp only [PosixEventQueue.executeStep, pc] at next
      cases next
      rfl

/-- A thread is in `end`, or the queue must end and the event thread will see it. -/
def Ending (t : Thread ι) (q : PosixEventQueue ι ε) : Prop :=
  q.calls t = .endStore ∨ (q.calls t = .endNotify ∧ q.mustEnd = true) ∨ q.Leaves

omit [DecidableEq ι] in
theorem Ending.congr (ending : q.Ending t) (calls : q'.calls t = q.calls t)
    (mustEnd : q.mustEnd = true → q'.mustEnd = true) (leaves : q.Leaves → q'.Leaves) :
    q'.Ending t := by
  rcases ending with store | ⟨notify, set⟩ | left
  · exact .inl (calls.trans store)
  · exact .inr (.inl ⟨calls.trans notify, mustEnd set⟩)
  · exact .inr (.inr (leaves left))

theorem Ending.next {action : QueueAction ι ε} (ending : q.Ending t) (other : t ≠ .event)
    (next : q.next capacity action = some q') : q'.Ending t := by
  cases action with
  | call t' operation =>
      rcases next_call next with ⟨idle, rfl⟩
      by_cases same : t = t'
      · subst same
        rcases ending with store | ⟨notify, -⟩ | leaves
        · exact absurd (idle.symm.trans store) (by simp)
        · exact absurd (idle.symm.trans notify) (by simp)
        · exact .inr (.inr (leaves.congr rfl id rfl))
      · exact ending.congr (setCall_of_ne _ same _) id fun leaves => leaves.congr rfl id rfl
  | step t' now =>
      by_cases same : t = t'
      · subst same
        rcases ending with store | ⟨notify, set⟩ | leaves
        · simp only [PosixEventQueue.next, callStep, store] at next
          cases next
          exact .inr (.inl ⟨setCall_self .., rfl⟩)
        · simp only [PosixEventQueue.next, callStep, notify] at next
          cases next
          exact .inr (.inr ⟨set, fun _ => rfl⟩)
        · exact .inr (.inr (leaves.next next))
      · exact ending.congr (callStep_other same next) (callStep_mustEnd next).1
          fun leaves => leaves.next (show q.next capacity (.step t' now) = some q' from next)
  | execute now =>
      refine ending.congr (congrFun (executeStep_calls next) t) ?_
        fun leaves => leaves.next (show q.next capacity (.execute now) = some q' from next)
      exact fun set => (executeStep_mustEnd next).trans set
  | handled success =>
      have leaves := fun left : q.Leaves => left.next next
      rcases next_handled next with ⟨-, -, rfl⟩
      cases success with
      | true => exact ending.congr rfl id leaves
      | false => exact ending.congr (setCall_of_ne _ other _) id leaves

end PosixEventQueue

/-! ## The queues while the threads are stopped -/

namespace Threads

variable {κ ρ ι ε : Type} [DecidableEq ρ] [DecidableEq ι] {contexts : κ → ExecutionContext ρ}
  {capacity : ℕ} {s s' : Threads κ ρ ι ε} {a : Action κ ρ ι ε}

/-- What is done with an event queue while the application is in `stream_stop_threads`. -/
inductive Works (capacity : ℕ) (contexts : κ → ExecutionContext ρ) (s : Threads κ ρ ι ε) (r : ρ) :
    PosixEventQueue (Caller ι) ε → Prop
  | same : Works capacity contexts s r (s.queues r)
  | pause : Works capacity contexts s r
      ((s.queues r).setCall (.other .stream) (Operation.start .pause))
  | execute (pc : s.event = .loadContext) :
      Works capacity contexts s r { s.queues r with execute := .outerTestEnd }
  | consumeError : Works capacity contexts s r { s.queues r with errorPending := false }
  | next {action : QueueAction (Caller ι) ε} {q : PosixEventQueue (Caller ι) ε}
      (permitted : s.permits contexts r action = true)
      (next : (s.queues r).next capacity action = some q) : Works capacity contexts s r q

theorem works_pause (r r' : ρ) :
    Works capacity contexts s r' ((s.call r .stream .pause).queues r') := by
  rw [Threads.call]
  by_cases same : r' = r
  · subst same
    rw [setQueue_self]
    exact .pause
  · rw [setQueue_of_ne _ same]
    exact .same

theorem nodeStep_works {status : NodeStatus} (step : s.nodeStep contexts status = some s')
    (r : ρ) : Works capacity contexts s r (s'.queues r) := by
  simp only [nodeStep] at step
  split at step
  · split at step
    · cases status <;> cases step
      · exact .same
      · exact .same
      · exact works_pause _ r
      · exact works_pause _ r
    · cases step
  · cases step

theorem queueStep_works {r' : ρ} {action : QueueAction (Caller ι) ε}
    (step : s.next contexts capacity (.queue r' action) = some s') (r : ρ) :
    Works capacity contexts s r (s'.queues r) := by
  simp only [next] at step
  split at step
  · rename_i permitted
    rcases Option.map_eq_some_iff.mp step with ⟨q, next, rfl⟩
    by_cases same : r = r'
    · subst same
      rw [setQueue_self]
      exact .next permitted next
    · rw [setQueue_of_ne _ same]
      exact .same
  · cases step

theorem eventStep_works (step : s.eventStep contexts = some s') (r : ρ) :
    Works capacity contexts s r (s'.queues r) := by
  cases pc : s.event <;> simp only [eventStep, pc] at step
  case finished => cases step
  case loadContext =>
    cases step
    by_cases same : r = (contexts s.current_context).evtQueue
    · subst same
      simpa using Works.execute pc
    · simpa [setQueue_of_ne _ same] using Works.same
  case execute | pauseNodes =>
    split at step <;> cases step
    exact .same
  case consumeError c =>
    split at step <;> cases step
    · by_cases same : r = (contexts c).evtQueue
      · subst same
        simpa using Works.consumeError
      · simpa [setQueue_of_ne _ same] using Works.same
    · exact .same
  case waitStreamPaused | waitResume =>
    rcases Option.map_eq_some_iff.mp step with ⟨_, -, rfl⟩
    exact .same
  all_goals
    cases step
    exact .same

variable {r : ρ} {q : PosixEventQueue (Caller ι) ε}

theorem Works.stored {items : Fin 3 → List (Message ε)} (works : Works capacity contexts s r q)
    (stored : (s.queues r).Stored capacity items) : ∃ items, q.Stored capacity items := by
  cases works with
  | next permitted next =>
      rcases stored.next next with ⟨items', stored', -⟩
      exact ⟨items', stored'⟩
  | _ => exact ⟨items, stored⟩

theorem Works.leaves (works : Works capacity contexts s r q) (leaves : (s.queues r).Leaves) :
    q.Leaves := by
  cases works with
  | same => exact leaves
  | pause => exact leaves.congr rfl id rfl
  | execute => exact ⟨leaves.mustEnd, by simp⟩
  | consumeError => exact leaves.congr rfl id rfl
  | next permitted next => exact leaves.next next

theorem Works.ending (works : Works capacity contexts s r q)
    (ending : (s.queues r).Ending (.other .application)) : q.Ending (.other .application) := by
  have leaves := works.leaves
  cases works with
  | same => exact ending
  | pause => exact ending.congr (PosixEventQueue.setCall_of_ne _ (by simp) _) id leaves
  | execute => exact ending.congr rfl id leaves
  | consumeError => exact ending.congr rfl id leaves
  | next permitted next => exact ending.next (by simp) next

end Threads

end CmsisStream.Runtime
