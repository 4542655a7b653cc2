import CmsisStream.Runtime.EventOutput

/-!
# The events of an output reach its subscribers in order

Any number of threads send events on an event queue.  A function of an output pushes the event
for the subscribers in their order, until a push is refused, whatever the other threads do between
two pushes.  With the queues being first in, first out, a subscriber handles the events of one
priority in the order in which they were sent.
-/

namespace CmsisStream.Runtime

open Codec (Word)
open Events (Config Event Priority Value)

variable {ι δ : Type} {cfg : Config}

/-! ## Threads which send events -/

/-- An event queue, and what the threads are doing on it -/
structure EventSenders (ι δ : Type) (cfg : Config) where
  queue : PosixEventQueue ι (Sent δ cfg)
  program : Thread ι → Option (SendProgram δ cfg)

inductive SendAction (ι δ : Type) (cfg : Config) where
  /-- A thread calls a function of an output. -/
  | send (t : Thread ι) (call : SendCall δ cfg)
  /-- A thread goes on with an event. -/
  | goOn (t : Thread ι) (allocated : Bool) (now : Word 4)
  /-- An action on the queue which is not the call of a push -/
  | queue (action : QueueAction ι (Sent δ cfg))

namespace EventSenders

variable [DecidableEq ι]

def init : EventSenders ι δ cfg := ⟨.init, fun _ => none⟩

def setProgram (s : EventSenders ι δ cfg) (t : Thread ι) (program : Option (SendProgram δ cfg)) :
    EventSenders ι δ cfg :=
  { s with program := Function.update s.program t program }

/-- The event thread sends events in a handler only. -/
def maySend (s : EventSenders ι δ cfg) : Thread ι → Bool
  | .event =>
      match s.queue.execute with
      | .dispatch _ => true
      | _ => false
  | .other _ => true

/-- The next step of a thread which has called a function of an output -/
def programStep (capacity : ℕ) (s : EventSenders ι δ cfg) (t : Thread ι) (allocated : Bool)
    (now : Word 4) : SendProgram δ cfg → Option (EventSenders ι δ cfg)
  | .returned _ => some (s.setProgram t none)
  | .mustEnd next => some (s.setProgram t (some (next s.queue.mustEnd)))
  | .allocate next => some (s.setProgram t (some (next allocated)))
  | .push dest evt _ =>
      (s.queue.next capacity (.call t (.push (sentMessage dest evt now)))).map
        fun queue => { s with queue }

/-- The program of a thread after a step of the queue: it goes on when its push returns. -/
def programAfter (s : EventSenders ι δ cfg) : QueueAction ι (Sent δ cfg) →
    Thread ι → Option (SendProgram δ cfg)
  | .step t _ =>
      match s.queue.calls t, s.program t with
      | .pushReturn _ ok, some (.push _ _ next) => Function.update s.program t (some (next ok))
      | _, _ => s.program
  | _ => s.program

/-- Functions are not called, and a handler does not return, while an event is being sent. -/
def permits (s : EventSenders ι δ cfg) : QueueAction ι (Sent δ cfg) → Bool
  | .call _ (.push _) => false
  | .call t _ => (s.program t).isNone
  | .handled _ => (s.program .event).isNone
  | .step _ _ | .execute _ => true

def next (capacity : ℕ) (s : EventSenders ι δ cfg) :
    SendAction ι δ cfg → Option (EventSenders ι δ cfg)
  | .send t call =>
      if (s.program t).isNone && s.maySend t && (s.queue.calls t).isIdle then
        some (s.setProgram t (some call.program))
      else none
  | .goOn t allocated now =>
      if (s.queue.calls t).isIdle then
        (s.program t).bind (s.programStep capacity t allocated now)
      else none
  | .queue action =>
      if s.permits action then
        (s.queue.next capacity action).map fun queue =>
          { queue, program := s.programAfter action }
      else none

/-- An event queue, and any threads which send events -/
def machine (capacity : ℕ) : Machine (EventSenders ι δ cfg) (SendAction ι δ cfg) where
  init := init
  next := next capacity

/-- What an action does to the events -/
def entries (capacity : ℕ) (s : EventSenders ι δ cfg) :
    SendAction ι δ cfg → List (SendEntry ι δ cfg)
  | .send t call => [.send t call]
  | .goOn t _ now =>
      match s.program t with
      | some (.returned ok) => [.sent t ok]
      | some (.push dest evt _) => [.queue (.called t (sentMessage dest evt now))]
      | _ => []
  | .queue action => (s.queue.entries capacity action).map .queue

end EventSenders

/-! ## Threads and their pushes -/

variable {t : Thread ι} {p : SendProgram δ cfg} {entries : List (SendEntry ι δ cfg)}

/-- The message of the push which a thread is executing -/
def Call.message? {ε : Type} : Call ε → Option (Message ε)
  | .pushTestPause msg | .pushTestEnd msg | .pushLocked msg | .pushNotify msg _
  | .pushReturn msg _ => some msg
  | .setError refused | .pauseStore refused | .pauseNotify refused => refused
  | .idle | .endStore | .endNotify | .clear | .resumeStore | .clearError => none

namespace PosixEventQueue

variable {ε : Type} [DecidableEq ι] {capacity : ℕ} {q q' : PosixEventQueue ι ε} {now : Word 4}

/-- A thread pushes the same message until the push returns. -/
theorem callStep_message (next : q.callStep capacity t now = some q') :
    (∃ msg ok, q.calls t = .pushReturn msg ok ∧ q'.calls t = .idle) ∨
      (q'.calls t).message? = (q.calls t).message? := by
  cases call : q.calls t with
  | idle =>
      simp only [callStep, call] at next
      cases next
  | pushLocked msg =>
      right
      simp only [callStep, call] at next
      split at next <;> cases next <;> simp [Call.message?]
  | pushReturn msg ok =>
      left
      simp only [callStep, call] at next
      cases next
      exact ⟨msg, ok, rfl, setCall_self ..⟩
  | pauseNotify refused =>
      right
      simp only [callStep, call] at next
      cases next
      cases refused <;> simp [Call.message?]
  | pushTestPause msg | pushTestEnd msg =>
      right
      simp only [callStep, call] at next
      cases next
      rw [setCall_self]
      split <;> rfl
  | _ =>
      right
      simp only [callStep, call] at next
      cases next
      simp [Call.message?]

/-- A thread which is not in a push adds nothing to its entries. -/
theorem ofThread_of_notPush (notPush : (q.calls t).message? = none) :
    ofThread t (q.entries capacity (.step t now)) = [] := by
  cases call : q.calls t with
  | pushTestPause msg | pushTestEnd msg | pushLocked msg | pushReturn msg ok =>
      simp [call, Call.message?] at notPush
  | clear =>
      simp only [entries, call]
      exact ofThread_clearEntries t
  | _ => simp [entries, call, ofThread]

end PosixEventQueue

/-! ## What the threads have sent -/

namespace SendEntry

def thread? : SendEntry ι δ cfg → Option (Thread ι)
  | .send t _ | .sent t _ => some t
  | .queue entry => entry.thread?

end SendEntry

namespace EventSenders

variable [DecidableEq ι] {capacity : ℕ} {s s' : EventSenders ι δ cfg}
  {action : SendAction ι δ cfg}

/-- The entries of a thread -/
def ofThread (t : Thread ι) (entries : List (SendEntry ι δ cfg)) : List (SendEntry ι δ cfg) :=
  entries.filter fun entry => entry.thread? = some t

theorem ofThread_queue (t : Thread ι) (entries : List (Entry ι (Sent δ cfg))) :
    ofThread t (entries.map .queue) = (PosixEventQueue.ofThread t entries).map .queue := by
  rw [ofThread, PosixEventQueue.ofThread, List.filter_map]
  rfl

/-- The calls of a thread which have returned, each with what it has pushed -/
inductive Sends (t : Thread ι) : List (SendEntry ι δ cfg) → Prop
  | none : Sends t []
  | sent {done entries : List (SendEntry ι δ cfg)} (sends : Sends t done)
      (call : SendCall δ cfg) (ok : Bool) (outcome : call.Outcome entries ok) :
      Sends t (done ++ (.send t call :: entries ++ [.sent t ok]))

/-- A thread which is sending an event, with the entries of the call: it may be in a push. -/
inductive Sending (t : Thread ι) (p : SendProgram δ cfg) :
    Call (Sent δ cfg) → List (SendEntry ι δ cfg) → Prop
  | between (call : SendCall δ cfg) {entries : List (SendEntry ι δ cfg)}
      (executes : Executes t call.program entries p) :
      Sending t p .idle (.send t call :: entries)
  | pushing (call : SendCall δ cfg) {entries : List (SendEntry ι δ cfg)}
      (executes : Executes t call.program entries p) {dest : Destination δ} {evt : Event cfg}
      {next : Bool → SendProgram δ cfg} (isPush : p = .push dest evt next) {now : Word 4}
      {queueCall : Call (Sent δ cfg)}
      (message : queueCall.message? = some (sentMessage dest evt now))
      {pending : List (Entry ι (Sent δ cfg))}
      (unfinished : PosixEventQueue.Unfinished t pending queueCall) :
      Sending t p queueCall (.send t call :: entries ++ pending.map .queue)

/-- The entries of a thread since its last call has returned -/
def Pending (s : EventSenders ι δ cfg) (t : Thread ι) (entries : List (SendEntry ι δ cfg)) :
    Prop :=
  match s.program t with
  | none => entries = [] ∧ (s.queue.calls t).message? = none
  | some p => Sending t p (s.queue.calls t) entries

/-- A step of the queue in a push: the program goes on when the push returns. -/
theorem Sending.step {q q' : PosixEventQueue ι (Sent δ cfg)} {now : Word 4}
    (sending : Sending t p (q.calls t) entries) (next : q.callStep capacity t now = some q') :
    (∃ msg ok dest evt next, q.calls t = .pushReturn msg ok ∧ p = .push dest evt next ∧
      Sending t (next ok) (q'.calls t)
        (entries ++ (PosixEventQueue.ofThread t (q.entries capacity (.step t now))).map .queue)) ∨
    (∀ msg ok, q.calls t ≠ .pushReturn msg ok) ∧
      Sending t p (q'.calls t)
        (entries ++
          (PosixEventQueue.ofThread t (q.entries capacity (.step t now))).map .queue) := by
  generalize call : q.calls t = c at sending
  cases sending with
  | between call' executes =>
      simp only [PosixEventQueue.callStep, call] at next
      cases next
  | @pushing sendCall entries executes dest evt nextProgram isPush at_ _ message pending
      unfinished =>
      rcases PosixEventQueue.callStep_message next with ⟨msg, ok, returns, idle⟩ | same
      · left
        rw [call] at returns
        subst returns
        cases message
        refine ⟨_, ok, dest, evt, nextProgram, rfl, isPush, ?_⟩
        have added : PosixEventQueue.ofThread t (q.entries capacity (.step t now)) =
            [.returned t (sentMessage dest evt at_) ok] := by
          simp [PosixEventQueue.entries, call, PosixEventQueue.ofThread, Entry.thread?]
        rw [added, idle]
        subst isPush
        have step := ProgramStep.push dest evt nextProgram unfinished
        simpa using Sending.between sendCall (executes.tail step)
      · right
        have message' : (q'.calls t).message? = some (sentMessage dest evt at_) := by
          rw [same, call, message]
        have notIdle : q'.calls t ≠ .idle := fun idle => by
          rw [idle] at message'
          cases message'
        refine ⟨?_, ?_⟩
        · rintro msg ok rfl
          simp only [PosixEventQueue.callStep, call] at next
          cases next
          exact notIdle (PosixEventQueue.setCall_self ..)
        · rcases PosixEventQueue.Unfinished.step (call ▸ unfinished) next with
            unfinished | ⟨idle, -⟩
          · have goesOn := Sending.pushing sendCall executes isPush message' unfinished
            simpa using goesOn
          · exact absurd idle notIdle

omit [DecidableEq ι] in
theorem Pending.of_same (pending : s.Pending t entries) (program : s'.program t = s.program t)
    (calls : s'.queue.calls t = s.queue.calls t) : s'.Pending t entries := by
  rwa [Pending, program, calls]

theorem Pending.goOn {allocated : Bool} {now : Word 4} (pending : s.Pending t entries)
    (next : s.next capacity (.goOn t allocated now) = some s') :
    s'.Pending t (entries ++ ofThread t (s.entries capacity (.goOn t allocated now))) ∨
      (s'.Pending t [] ∧ ∀ done, Sends t done →
        Sends t
          (done ++ (entries ++ ofThread t (s.entries capacity (.goOn t allocated now))))) := by
  simp only [EventSenders.next] at next
  split_ifs at next with isIdle
  rcases Option.bind_eq_some_iff.mp next with ⟨p, isProgram, step⟩
  have idle := Call.isIdle_iff.mp isIdle
  simp only [Pending, isProgram, idle] at pending
  cases pending with
  | pushing call executes isPush message unfinished => cases message
  | @between call entries executes =>
      cases p with
      | returned ok =>
          right
          cases step
          refine ⟨by simp [Pending, setProgram, idle, Call.message?], fun done sends => ?_⟩
          have sent := sends.sent call ok (SendCall.outcome_of_executes executes)
          simpa [EventSenders.entries, isProgram, ofThread, SendEntry.thread?] using sent
      | mustEnd nextProgram =>
          left
          cases step
          have step := ProgramStep.mustEnd (t := t) nextProgram s.queue.mustEnd
          have between := Sending.between call (executes.tail step)
          simpa [Pending, setProgram, idle, EventSenders.entries, isProgram, ofThread] using between
      | allocate nextProgram =>
          left
          cases step
          have step := ProgramStep.allocate (t := t) nextProgram allocated
          have between := Sending.between call (executes.tail step)
          simpa [Pending, setProgram, idle, EventSenders.entries, isProgram, ofThread] using between
      | push dest evt nextProgram =>
          left
          rcases Option.map_eq_some_iff.mp step with ⟨queue, called, rfl⟩
          rcases PosixEventQueue.next_call called with ⟨-, rfl⟩
          have pushing : Sending t (.push dest evt nextProgram)
              (.pushTestPause (sentMessage dest evt now)) (.send t call :: entries ++
                [Entry.called t (sentMessage dest evt now)].map .queue) :=
            .pushing call executes rfl rfl rfl
          simpa [Pending, isProgram, EventSenders.entries, ofThread, SendEntry.thread?,
            Entry.thread?, Operation.start] using pushing

/-- A step of the queue changes the program of the thread only. -/
theorem programAfter_step (s : EventSenders ι δ cfg) (t : Thread ι) (now : Word 4) :
    ∃ p, s.programAfter (.step t now) = Function.update s.program t p := by
  rw [programAfter]
  split
  · exact ⟨_, rfl⟩
  · exact ⟨s.program t, (Function.update_eq_self ..).symm⟩

theorem programAfter_of_none {now : Word 4} (none_ : s.program t = none) :
    s.programAfter (.step t now) = s.program := by
  rw [programAfter]
  split
  · rename_i isPush
    rw [none_] at isPush
    cases isPush
  · rfl

theorem programAfter_of_ne {now : Word 4}
    (notReturn : ∀ msg ok, s.queue.calls t ≠ .pushReturn msg ok) :
    s.programAfter (.step t now) = s.program := by
  rw [programAfter]
  split
  · rename_i returns _
    exact absurd returns (notReturn _ _)
  · rfl

/-- A step of the queue by a thread -/
theorem Pending.step {now : Word 4} (pending : s.Pending t entries)
    (next : s.next capacity (.queue (.step t now)) = some s') :
    s'.Pending t (entries ++ ofThread t (s.entries capacity (.queue (.step t now)))) := by
  simp only [EventSenders.next, permits, ↓reduceIte] at next
  rcases Option.map_eq_some_iff.mp next with ⟨queue, step, rfl⟩
  rw [EventSenders.entries, ofThread_queue]
  cases isProgram : s.program t with
  | none =>
      simp only [Pending, isProgram] at pending
      rcases pending with ⟨rfl, notPush⟩
      rw [PosixEventQueue.ofThread_of_notPush notPush]
      simp only [Pending, programAfter_of_none isProgram, isProgram]
      rcases PosixEventQueue.callStep_message step with ⟨msg, ok, returns, -⟩ | same
      · simp [returns, Call.message?] at notPush
      · exact ⟨rfl, same.trans notPush⟩
  | some p =>
      simp only [Pending, isProgram] at pending
      rcases pending.step step with
        ⟨msg, ok, dest, evt, nextProgram, returns, rfl, sending⟩ | ⟨notReturn, sending⟩
      · have goesOn : s.programAfter (.step t now) t = some (nextProgram ok) := by
          simp [programAfter, returns, isProgram]
        simpa only [Pending, goesOn] using sending
      · have same : s.programAfter (.step t now) t = some p := by
          rw [programAfter_of_ne notReturn, isProgram]
        simpa only [Pending, same] using sending

/-- An action on the queue which is not a step of the thread -/
theorem Pending.queue {queueAction : QueueAction ι (Sent δ cfg)} (pending : s.Pending t entries)
    (notStep : ∀ now, queueAction ≠ .step t now)
    (next : s.next capacity (.queue queueAction) = some s') :
    s'.Pending t (entries ++ ofThread t (s.entries capacity (.queue queueAction))) := by
  simp only [EventSenders.next] at next
  split_ifs at next with permitted
  rcases Option.map_eq_some_iff.mp next with ⟨queue, step, rfl⟩
  have notPush : ∀ t' msg, queueAction ≠ .call t' (.push msg) := by
    rintro t' msg rfl
    simp [permits] at permitted
  rw [EventSenders.entries, ofThread_queue, PosixEventQueue.ofThread_entries notStep (notPush t),
    List.map_nil, List.append_nil]
  cases queueAction with
  | call t' operation =>
      rcases PosixEventQueue.next_call step with ⟨-, rfl⟩
      by_cases same : t = t'
      · subst same
        cases operation with
        | push msg => exact absurd rfl (notPush t msg)
        | _ =>
            have none_ : s.program t = none := Option.isNone_iff_eq_none.mp permitted
            simp only [Pending, none_] at pending
            simp [Pending, programAfter, none_, pending.1, Operation.start, Call.message?]
      · exact pending.of_same rfl (PosixEventQueue.setCall_of_ne _ same _)
  | step t' now =>
      have differ : t ≠ t' := fun same => notStep now (same ▸ rfl)
      rcases s.programAfter_step t' now with ⟨p, after⟩
      refine pending.of_same ?_ (PosixEventQueue.callStep_other differ step)
      exact (congrFun after t).trans (Function.update_of_ne differ ..)
  | execute now =>
      exact pending.of_same rfl (congrFun (PosixEventQueue.executeStep_calls step) t)
  | handled success =>
      rcases PosixEventQueue.next_handled step with ⟨-, -, rfl⟩
      cases success with
      | true => exact pending.of_same rfl rfl
      | false =>
          by_cases same : t = .event
          · subst same
            have none_ : s.program .event = none := Option.isNone_iff_eq_none.mp permitted
            simp only [Pending, none_] at pending
            simp [Pending, programAfter, none_, pending.1, Call.message?]
          · exact pending.of_same rfl (PosixEventQueue.setCall_of_ne _ same _)

/-- A thread goes on with its own events only. -/
theorem Pending.goOn_other {t' : Thread ι} (differ : t ≠ t') {allocated : Bool} {now : Word 4}
    (pending : s.Pending t entries) (next : s.next capacity (.goOn t' allocated now) = some s') :
    s'.Pending t (entries ++ ofThread t (s.entries capacity (.goOn t' allocated now))) := by
  simp only [EventSenders.next] at next
  split_ifs at next
  rcases Option.bind_eq_some_iff.mp next with ⟨p, isProgram, step⟩
  have nothing : ofThread t (s.entries capacity (.goOn t' allocated now)) = [] := by
    cases p <;> simp [EventSenders.entries, isProgram, ofThread, SendEntry.thread?, Entry.thread?,
      Ne.symm differ]
  rw [nothing, List.append_nil]
  cases p with
  | push dest evt nextProgram =>
      rcases Option.map_eq_some_iff.mp step with ⟨queue, called, rfl⟩
      rcases PosixEventQueue.next_call called with ⟨-, rfl⟩
      exact pending.of_same rfl (PosixEventQueue.setCall_of_ne _ differ _)
  | _ =>
      cases step
      exact pending.of_same (Function.update_of_ne differ ..) rfl

/-- A thread calls a function of an output. -/
theorem Pending.send {t' : Thread ι} {call : SendCall δ cfg} (pending : s.Pending t entries)
    (next : s.next capacity (.send t' call) = some s') :
    s'.Pending t (entries ++ ofThread t (s.entries capacity (.send t' call))) := by
  simp only [EventSenders.next] at next
  split_ifs at next with ready
  cases next
  simp only [Bool.and_eq_true] at ready
  by_cases same : t = t'
  · subst same
    have none_ : s.program t = none := Option.isNone_iff_eq_none.mp ready.1.1
    simp only [Pending, none_] at pending
    have between : Sending t call.program .idle [.send t call] := .between call (.refl _)
    simpa [Pending, setProgram, Call.isIdle_iff.mp ready.2, pending.1, EventSenders.entries,
      ofThread, SendEntry.thread?] using between
  · have nothing : ofThread t (s.entries capacity (.send t' call)) = [] := by
      simp [EventSenders.entries, ofThread, SendEntry.thread?, Ne.symm same]
    rw [nothing, List.append_nil]
    exact pending.of_same (Function.update_of_ne same ..) rfl

theorem Pending.next (pending : s.Pending t entries) (next : s.next capacity action = some s') :
    s'.Pending t (entries ++ ofThread t (s.entries capacity action)) ∨
      (s'.Pending t [] ∧ ∀ done, Sends t done →
        Sends t (done ++ (entries ++ ofThread t (s.entries capacity action)))) := by
  cases action with
  | send t' call => exact .inl (pending.send next)
  | goOn t' allocated now =>
      by_cases same : t = t'
      · subst same
        exact pending.goOn next
      · exact .inl (pending.goOn_other same next)
  | queue queueAction =>
      left
      by_cases step : ∃ now, queueAction = .step t now
      · rcases step with ⟨now, rfl⟩
        exact pending.step next
      · exact pending.queue (fun now same => step ⟨now, same⟩) next

/-! ## The whole history -/

/-- The entries of a run -/
def history (capacity : ℕ) (actions : List (SendAction ι δ cfg)) : List (SendEntry ι δ cfg) :=
  (machine capacity).trace (EventSenders.entries capacity) init actions

variable {actions : List (SendAction ι δ cfg)}

theorem history_concat (runs : (machine capacity).Runs actions s) (action : SendAction ι δ cfg) :
    history capacity (actions ++ [action]) =
      history capacity actions ++ s.entries capacity action :=
  Machine.trace_concat _ runs.run_eq action

/-- What happens to the messages -/
def queueEntries (entries : List (SendEntry ι δ cfg)) : List (Entry ι (Sent δ cfg)) :=
  entries.filterMap fun
    | .queue entry => some entry
    | _ => none

/-- A step is a step of the queue, or it does not change the queue. -/
theorem next_queue (next : s.next capacity action = some s') :
    (s'.queue = s.queue ∧ queueEntries (s.entries capacity action) = []) ∨
    ∃ queueAction, s.queue.next capacity queueAction = some s'.queue ∧
      queueEntries (s.entries capacity action) = s.queue.entries capacity queueAction := by
  cases action with
  | send t call =>
      left
      simp only [EventSenders.next] at next
      split_ifs at next
      cases next
      exact ⟨rfl, rfl⟩
  | goOn t allocated now =>
      simp only [EventSenders.next] at next
      split_ifs at next
      rcases Option.bind_eq_some_iff.mp next with ⟨p, isProgram, step⟩
      cases p with
      | push dest evt nextProgram =>
          right
          rcases Option.map_eq_some_iff.mp step with ⟨queue, called, rfl⟩
          exact ⟨_, called, by simp [EventSenders.entries, isProgram, queueEntries,
            PosixEventQueue.entries]⟩
      | _ =>
          left
          cases step
          exact ⟨rfl, by simp [EventSenders.entries, isProgram, queueEntries]⟩
  | queue queueAction =>
      right
      simp only [EventSenders.next] at next
      split_ifs at next
      rcases Option.map_eq_some_iff.mp next with ⟨queue, step, rfl⟩
      refine ⟨queueAction, step, ?_⟩
      simp [EventSenders.entries, queueEntries, List.filterMap_map]

/-- A run is a run of the queue, with the same messages. -/
theorem runs_queue (runs : (machine capacity).Runs actions s) :
    ∃ queueActions, (PosixEventQueue.machine capacity).Runs queueActions s.queue ∧
      queueEntries (history capacity actions) =
        PosixEventQueue.history capacity queueActions := by
  induction runs with
  | init => exact ⟨[], .init, rfl⟩
  | @step actions s s' action runs _ next ih =>
      rcases ih with ⟨queueActions, queueRuns, same⟩
      have split : queueEntries (history capacity (actions ++ [action])) =
          PosixEventQueue.history capacity queueActions ++
            queueEntries (s.entries capacity action) := by
        rw [history_concat runs, ← same]
        exact List.filterMap_append
      rcases next_queue next with ⟨unchanged, nothing⟩ | ⟨queueAction, step, added⟩
      · refine ⟨queueActions, unchanged ▸ queueRuns, ?_⟩
        rw [split, nothing, List.append_nil]
      · refine ⟨queueActions ++ [queueAction], .step queueRuns trivial step, ?_⟩
        rw [split, added, PosixEventQueue.history_concat queueRuns]

theorem sends_of_runs (runs : (machine capacity).Runs actions s) (t : Thread ι) :
    ∃ done pending, ofThread t (history capacity actions) = done ++ pending ∧
      Sends t done ∧ s.Pending t pending := by
  induction runs with
  | init => exact ⟨[], [], rfl, .none, rfl, rfl⟩
  | @step actions s s' action runs _ next ih =>
      rcases ih with ⟨done, pending, history, sends, isPending⟩
      have split : ofThread t (EventSenders.history capacity (actions ++ [action])) =
          done ++ (pending ++ ofThread t (s.entries capacity action)) := by
        rw [history_concat runs, ← List.append_assoc, ← history]
        exact List.filter_append ..
      rcases isPending.next next with isPending | ⟨isPending, finish⟩
      · exact ⟨done, _, split, sends, isPending⟩
      · exact ⟨_, [], split.trans (List.append_nil _).symm, finish done sends, isPending⟩

/-- In every run each finished call has delivered its event to the first subscribers in their
order, and to all of them when it returns true.  The accepted events of each priority are those
taken by `execute` or removed by `clear`, in the same order, followed by those which are still
stored. -/
theorem events_delivered (runs : (machine capacity).Runs actions s) :
    (∀ t, ∃ done pending, ofThread t (history capacity actions) = done ++ pending ∧
      Sends t done ∧ s.Pending t pending) ∧
    ∀ p, ∃ removed : List (Message (Sent δ cfg) × Bool),
      (queueEntries (history capacity actions)).filterMap (Entry.accepted? p) =
        removed.map (·.1) ++ (s.queue.queue p).contents capacity ∧
      (queueEntries (history capacity actions)).filterMap (Entry.popped? p) =
        (removed.filter (·.2)).map (·.1) ∧
      (queueEntries (history capacity actions)).filterMap (Entry.cleared? p) =
        (removed.filter (!·.2)).map (·.1) := by
  refine ⟨sends_of_runs runs, fun p => ?_⟩
  rcases runs_queue runs with ⟨queueActions, queueRuns, same⟩
  rcases PosixEventQueue.stored_of_runs queueRuns with ⟨items, stored, history⟩
  rw [same, (stored p).contents]
  exact ⟨_, history p, Entry.filterMap_popped p _, Entry.filterMap_cleared p _⟩

/-- Two threads send an event each to two subscribers.  A thread is refused its second push, for
want of room; one event is taken by `execute`, and the other one is removed by `clear`. -/
def sendTwice : List (SendAction Bool Bool Config.default) :=
  let output := ((EventOutput.mk [] true).subscribe false 0).subscribe true 0
  let steps (t : Bool) (count : ℕ) : List (SendAction Bool Bool Config.default) :=
    List.replicate count (.queue (.step (.other t) 5))
  let goOn (t : Bool) (count : ℕ) : List (SendAction Bool Bool Config.default) :=
    List.replicate count (.goOn (.other t) true 3)
  let send (t : Bool) (event : Word 4) : List (SendAction Bool Bool Config.default) :=
    .send (.other t) (.event output (.make event .kHighPriority [] true)) :: goOn t 3
  send false 7 ++ send true 8 ++ steps false 5 ++ steps true 5 ++ goOn true 2 ++ steps true 8 ++
    goOn true 1 ++ .queue (.call (.other true) .resume) :: steps true 2 ++
    List.replicate 6 (.queue (.execute 5)) ++
    .queue (.call (.other true) .clear) :: steps true 1

theorem sendTwice_delivered :
    ∃ s, (machine 2).Runs sendTwice s ∧
      (∃ done pending, ofThread (.other true) (history 2 sendTwice) = done ++ pending ∧
        Sends (.other true) done ∧ s.Pending (.other true) pending) ∧
      ∃ removed : List (Message (Sent Bool Config.default) × Bool),
        (queueEntries (history 2 sendTwice)).filterMap (Entry.accepted? 2) =
          removed.map (·.1) ++ (s.queue.queue 2).contents 2 ∧
        (queueEntries (history 2 sendTwice)).filterMap (Entry.popped? 2) =
          (removed.filter (·.2)).map (·.1) ∧
        (queueEntries (history 2 sendTwice)).filterMap (Entry.cleared? 2) =
          (removed.filter (!·.2)).map (·.1) := by
  rcases (⟨_, rfl⟩ : ∃ s, (machine 2).run init sendTwice = some s) with ⟨s, run⟩
  have runs := Machine.runs_of_run run
  rcases events_delivered runs with ⟨sends, kept⟩
  exact ⟨s, runs, sends (.other true), kept 2⟩

end EventSenders

end CmsisStream.Runtime
