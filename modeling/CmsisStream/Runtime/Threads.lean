import CmsisStream.Concurrency.EventFlags
import CmsisStream.Runtime.EventQueue

/-!
# The threads of the runtime

The application pauses and resumes the stream thread and the event thread with event flags and
with the event queue of the current context.  The nodes of a context without schedule are
never executed by the stream thread.  The end of the threads is left out.
-/

namespace CmsisStream.Runtime

open Codec (Word)

/-- `stream_execution_context_t` -/
structure ExecutionContext (ρ : Type) where
  evtQueue : ρ
  scheduler_length : ℕ

/-- Messages to stream and event threads -/
inductive StreamEvent where
  | streamPause
  | streamResume
  | eventResume
deriving DecidableEq

/-- Messages from stream and event threads -/
inductive ReplyEvent where
  | streamPaused
  | streamResumed
  | eventPaused
  | eventResumed
deriving DecidableEq

/-- A thread which uses an event queue outside of `execute`. -/
inductive Caller (ι : Type) where
  | application
  | stream
  | event
  | external (i : ι)
deriving DecidableEq

/-- The last function of the runtime which has returned to the application. -/
inductive Returned where
  | started
  | paused
  | resumed (ok : Bool)
deriving DecidableEq

/-- Why the application calls `pause` of the event queue. -/
inductive PauseReason where
  | pauseScheduler
  | streamFailed
  | eventFailed
deriving DecidableEq

/-- The next step of the application. -/
inductive Application (κ : Type) where
  | outside (last : Returned)
  | pauseQueue (reason : PauseReason)
  /-- `cg_streamEvent.post(STREAM_PAUSE_EVENT)`, in one of the two functions -/
  | postStreamPause (resuming : Bool)
  | waitStreamPaused (resuming : Bool)
  | waitEventPaused
  | clearQueue
  | setContext (context : κ)
  | resumeQueue
  | postStreamResume
  | waitStreamResumed
  | postEventResume
  | waitEventResumed
  | clearPaused
deriving DecidableEq

/-- The next step of `stream_thread_function`. -/
inductive StreamThread (κ : Type) where
  | loadContext
  | callScheduler (context : κ)
  /-- `CG_BEFORE_NODE_EXECUTION` -/
  | beforeNode (context : κ)
  | node (context : κ)
  | pauseQueue (context : κ)
  /-- `pause_all_nodes`, after a request of pause or not -/
  | pauseNodes (context : κ) (requested : Bool)
  | waitEventPaused
  | postPaused
  | waitResume
  | loadResumed
  | resetFifos (context : κ)
  | resumeNodes (context : κ)
  | postResumed
  | finished
deriving DecidableEq

/-- The next step of `event_thread_function`. -/
inductive EventThread (κ : Type) where
  | loadContext
  | execute (context : κ)
  | executed (context : κ)
  | consumeError (context : κ)
  | postStreamPause
  | waitStreamPaused
  | pauseNodes (context : κ)
  | postPaused
  | waitResume
  | postResumed
  | finished
deriving DecidableEq

/-- What a node says when it returns to the scheduler. -/
inductive NodeStatus where
  | success
  /-- The last node of the last iteration of the scheduler -/
  | last
  | error
  | stop
deriving DecidableEq

/-- History variables: no step reads them. -/
structure History (κ : Type) where
  /-- A function has resumed a context. -/
  resumed : Bool
  /-- The context for which the nodes were resumed since the last context switch. -/
  ready : Option κ
  /-- The context for which the FIFOs were reset since the last call of a scheduler. -/
  reset : Option κ
  /-- What the threads have done since the last request to resume. -/
  streamLeft : Bool
  eventLeft : Bool
  streamPausedAgain : Bool
  eventPausedAgain : Bool
  /-- The acknowledgement which made the last call fail was posted after its request. -/
  failedFresh : Bool

/-- The state of the threads, without the event queues. -/
structure Control (κ : Type) where
  current_context : κ
  cg_streamEvent : EventFlags StreamEvent
  cg_streamReplyEvent : EventFlags ReplyEvent
  application : Application κ
  stream : StreamThread κ
  event : EventThread κ
  history : History κ

structure Threads (κ ρ ι ε : Type) extends Control κ where
  queues : ρ → PosixEventQueue (Caller ι) ε

inductive Action (κ ρ ι ε : Type) where
  /-- The application calls `stream_pause_current_scheduler`. -/
  | pause
  /-- The application calls `stream_resume_scheduler`. -/
  | resume (context : κ)
  /-- A thread goes on. -/
  | application
  | stream
  | event
  /-- The node which is executed returns. -/
  | node (status : NodeStatus)
  /-- Something is done with an event queue. -/
  | queue (r : ρ) (action : QueueAction (Caller ι) ε)

/-- What comes after `pause` of the event queue. -/
def PauseReason.next {κ : Type} (reason : PauseReason) (scheduler_length : ℕ) : Application κ :=
  match reason with
  | .pauseScheduler =>
      if scheduler_length > 0 then .postStreamPause false else .waitEventPaused
  | .streamFailed => .outside (.resumed false)
  | .eventFailed =>
      if scheduler_length > 0 then .postStreamPause true else .outside (.resumed false)

/-- The function `execute` has returned. -/
def Execute.isReturned {ε : Type} : Execute ε → Bool
  | .returned => true
  | _ => false

/-- The context whose nodes the stream thread is calling. -/
def StreamThread.calling? {κ : Type} : StreamThread κ → Option κ
  | .node c | .pauseNodes c _ | .resumeNodes c => some c
  | _ => none

namespace Threads

variable {κ ρ ι ε : Type} [DecidableEq ρ] [DecidableEq ι]

/-- The threads after `stream_start_threads`. -/
def init (context : κ) : Threads κ ρ ι ε where
  current_context := context
  cg_streamEvent := .none
  cg_streamReplyEvent := .none
  application := .outside .started
  stream := .loadContext
  event := .loadContext
  history := ⟨false, none, none, false, false, false, false, false⟩
  queues _ := .init

def setQueue (s : Threads κ ρ ι ε) (r : ρ) (q : PosixEventQueue (Caller ι) ε) :
    Threads κ ρ ι ε :=
  { s with queues := Function.update s.queues r q }

omit [DecidableEq ι] in
@[simp]
theorem setQueue_self (s : Threads κ ρ ι ε) (r : ρ) (q : PosixEventQueue (Caller ι) ε) :
    (s.setQueue r q).queues r = q := Function.update_self ..

omit [DecidableEq ι] in
theorem setQueue_of_ne (s : Threads κ ρ ι ε) {r r' : ρ} (ne : r' ≠ r)
    (q : PosixEventQueue (Caller ι) ε) : (s.setQueue r q).queues r' = s.queues r' :=
  Function.update_of_ne ne ..

/-- A thread calls a function of an event queue. -/
def call (s : Threads κ ρ ι ε) (r : ρ) (caller : Caller ι) (operation : Operation ε) :
    Threads κ ρ ι ε :=
  s.setQueue r ((s.queues r).setCall (.other caller) operation.start)

@[simp]
theorem call_calls (s : Threads κ ρ ι ε) (r : ρ) (caller : Caller ι) (operation : Operation ε) :
    ((s.call r caller operation).queues r).calls (.other caller) = operation.start := by
  simp [call]

/-- The thread has returned from the functions of an event queue. -/
def isIdle (s : Threads κ ρ ι ε) (r : ρ) (caller : Caller ι) : Bool :=
  ((s.queues r).calls (.other caller)).isIdle

variable (contexts : κ → ExecutionContext ρ) (s : Threads κ ρ ι ε)

/-- The next step of `stream_pause_current_scheduler` or of `stream_resume_scheduler`. -/
def applicationStep : Option (Threads κ ρ ι ε) :=
  match s.application with
  | .outside _ => none
  | .pauseQueue reason =>
      if s.isIdle (contexts s.current_context).evtQueue .application then
        some { s with
          application := reason.next (contexts s.current_context).scheduler_length }
      else none
  | .postStreamPause resuming =>
      some { s with
        cg_streamEvent := s.cg_streamEvent.post [.streamPause]
        application := .waitStreamPaused resuming }
  | .waitStreamPaused resuming =>
      (s.cg_streamReplyEvent.wait [.streamPaused] true).map fun (_, flags) =>
        { s with
          cg_streamReplyEvent := flags
          application := if resuming then .outside (.resumed false) else .waitEventPaused }
  | .waitEventPaused =>
      (s.cg_streamReplyEvent.wait [.eventPaused] true).map fun (_, flags) =>
        { s.call (contexts s.current_context).evtQueue .application .clear with
          cg_streamReplyEvent := flags
          application := .clearQueue }
  | .clearQueue =>
      if s.isIdle (contexts s.current_context).evtQueue .application then
        some { s with application := .outside .paused }
      else none
  | .setContext c =>
      some { s.call (contexts c).evtQueue .application .resume with
        current_context := c
        application := .resumeQueue
        history := { s.history with resumed := true, ready := none } }
  | .resumeQueue =>
      if s.isIdle (contexts s.current_context).evtQueue .application then
        some { s with application := .postStreamResume }
      else none
  | .postStreamResume =>
      some { s with
        cg_streamEvent := s.cg_streamEvent.post [.streamResume]
        application := .waitStreamResumed
        history := { s.history with
          streamLeft := false, eventLeft := false,
          streamPausedAgain := false, eventPausedAgain := false } }
  | .waitStreamResumed =>
      (s.cg_streamReplyEvent.wait [.streamResumed, .streamPaused] true).map fun (res, flags) =>
        if .streamPaused ∈ res then
          { s.call (contexts s.current_context).evtQueue .application .pause with
            cg_streamReplyEvent := flags
            application := .pauseQueue .streamFailed
            history := { s.history with failedFresh := s.history.streamPausedAgain } }
        else { s with cg_streamReplyEvent := flags, application := .postEventResume }
  | .postEventResume =>
      some { s with
        cg_streamEvent := s.cg_streamEvent.post [.eventResume]
        application := .waitEventResumed }
  | .waitEventResumed =>
      (s.cg_streamReplyEvent.wait [.eventResumed, .eventPaused] true).map fun (res, flags) =>
        if .eventPaused ∈ res then
          { s.call (contexts s.current_context).evtQueue .application .pause with
            cg_streamReplyEvent := flags
            application := .pauseQueue .eventFailed
            history := { s.history with failedFresh := s.history.eventPausedAgain } }
        else { s with cg_streamReplyEvent := flags, application := .clearPaused }
  | .clearPaused =>
      some { s with
        cg_streamReplyEvent := s.cg_streamReplyEvent.clear [.streamPaused, .eventPaused]
        application := .outside (.resumed true) }

/-- The next step of the stream thread, outside of a node. -/
def streamStep : Option (Threads κ ρ ι ε) :=
  match s.stream with
  | .loadContext => some { s with stream := .callScheduler s.current_context }
  | .callScheduler c =>
      -- Without schedule the scheduler returns `CG_STOP_SCHEDULER` at once.
      some { s with
        stream := if (contexts c).scheduler_length = 0 then .waitResume else .beforeNode c
        history := { s.history with reset := none } }
  | .beforeNode c =>
      match s.cg_streamEvent.wait [.streamPause] true with
      | some (_, flags) =>
          some { s with cg_streamEvent := flags, stream := .pauseNodes c true }
      | none => some { s with stream := .node c }
  | .node _ => none
  | .pauseQueue c =>
      if s.isIdle (contexts c).evtQueue .stream then
        some { s with stream := .pauseNodes c false }
      else none
  | .pauseNodes c requested =>
      if s.isIdle (contexts c).evtQueue .stream then
        some { s with stream := if requested then .postPaused else .waitEventPaused }
      else none
  | .waitEventPaused =>
      (s.cg_streamReplyEvent.wait [.eventPaused] true).map fun (_, flags) =>
        { s with cg_streamReplyEvent := flags, stream := .postPaused }
  | .postPaused =>
      some { s with
        cg_streamReplyEvent := s.cg_streamReplyEvent.post [.streamPaused]
        stream := .waitResume
        history := { s.history with streamPausedAgain := true } }
  | .waitResume =>
      (s.cg_streamEvent.wait [.streamResume] true).map fun (_, flags) =>
        { s with
          cg_streamEvent := flags
          stream := .loadResumed
          history := { s.history with streamLeft := true } }
  | .loadResumed => some { s with stream := .resetFifos s.current_context }
  | .resetFifos c =>
      some { s with
        stream := .resumeNodes c
        history := { s.history with reset := some c } }
  | .resumeNodes c =>
      if s.isIdle (contexts c).evtQueue .stream then
        some { s with
          stream := .postResumed
          history := { s.history with ready := some c } }
      else none
  | .postResumed =>
      some { s with
        cg_streamReplyEvent := s.cg_streamReplyEvent.post [.streamResumed]
        stream := .loadContext }
  | .finished => none

/-- A node returns to the scheduler. -/
def nodeStep (status : NodeStatus) : Option (Threads κ ρ ι ε) :=
  match s.stream with
  | .node c =>
      if s.isIdle (contexts c).evtQueue .stream then
        match status with
        | .success => some { s with stream := .beforeNode c }
        | .last => some { s with stream := .finished }
        | .error | .stop =>
            some { s.call (contexts c).evtQueue .stream .pause with stream := .pauseQueue c }
      else none
  | _ => none

/-- The next step of the event thread, outside of `execute`. -/
def eventStep : Option (Threads κ ρ ι ε) :=
  match s.event with
  | .loadContext =>
      let r := (contexts s.current_context).evtQueue
      some { s.setQueue r { s.queues r with execute := .outerTestEnd } with
        event := .execute s.current_context }
  | .execute c =>
      if (s.queues (contexts c).evtQueue).execute.isReturned then
        some { s with event := .executed c }
      else none
  | .executed c =>
      some { s with
        event := if (s.queues (contexts c).evtQueue).mustEnd then .finished
          else .consumeError c }
  | .consumeError c =>
      let r := (contexts c).evtQueue
      let afterPause := if (contexts c).scheduler_length = 0 then .pauseNodes c else .postPaused
      if (s.queues r).errorPending then
        some { s.setQueue r { s.queues r with errorPending := false } with
          event := if (contexts c).scheduler_length > 0 then .postStreamPause else afterPause }
      else some { s with event := afterPause }
  | .postStreamPause =>
      some { s with
        cg_streamEvent := s.cg_streamEvent.post [.streamPause]
        event := .waitStreamPaused }
  | .waitStreamPaused =>
      (s.cg_streamReplyEvent.wait [.streamPaused] true).map fun (_, flags) =>
        { s with cg_streamReplyEvent := flags, event := .postPaused }
  | .pauseNodes c =>
      if s.isIdle (contexts c).evtQueue .event then some { s with event := .postPaused } else none
  | .postPaused =>
      some { s with
        cg_streamReplyEvent := s.cg_streamReplyEvent.post [.eventPaused]
        event := .waitResume
        history := { s.history with eventPausedAgain := true } }
  | .waitResume =>
      (s.cg_streamEvent.wait [.eventResume] true).map fun (_, flags) =>
        { s with
          cg_streamEvent := flags
          event := .postResumed
          history := { s.history with eventLeft := true } }
  | .postResumed =>
      some { s with
        cg_streamReplyEvent := s.cg_streamReplyEvent.post [.eventResumed]
        event := .loadContext }
  | .finished => none

/-- Which actions on an event queue the threads can do now. -/
def permits (r : ρ) : QueueAction (Caller ι) ε → Bool
  | .call (.other (.external _)) (.push _) | .step _ _ => true
  | .call (.other .stream) (.push _) =>
      match s.stream.calling? with
      | some c => (contexts c).evtQueue = r
      | none => false
  | .call (.other .event) (.push _) =>
      match s.event with
      | .pauseNodes c => (contexts c).evtQueue = r
      | _ => false
  | .call .event (.push _) | .handled _ =>
      match s.event with
      | .execute c => (contexts c).evtQueue = r
      | _ => false
  | .execute _ =>
      match s.event with
      | .execute c => (contexts c).evtQueue = r && !(s.queues r).execute.isReturned
      | _ => false
  | .call _ _ => false

def next (capacity : ℕ) : Action κ ρ ι ε → Option (Threads κ ρ ι ε)
  | .pause =>
      match s.application with
      | .outside _ =>
          some { s.call (contexts s.current_context).evtQueue .application .pause with
            application := .pauseQueue .pauseScheduler }
      | _ => none
  | .resume c =>
      match s.application with
      | .outside _ => some { s with application := .setContext c }
      | _ => none
  | .application => s.applicationStep contexts
  | .stream => s.streamStep contexts
  | .event => s.eventStep contexts
  | .node status => s.nodeStep contexts status
  | .queue r action =>
      if s.permits contexts r action then ((s.queues r).next capacity action).map (s.setQueue r)
      else none

/-- The runtime started with a context, whose queues hold some messages of each priority. -/
def machine (capacity : ℕ) (context : κ) : Machine (Threads κ ρ ι ε) (Action κ ρ ι ε) where
  init := init context
  next s := s.next contexts capacity

end Threads

end CmsisStream.Runtime
