import CmsisStream.Codec.Bytes
import CmsisStream.Concurrency.Machine
import CmsisStream.Container.RingBuffer
import Mathlib.Logic.Function.Basic

/-!
# `PosixEventQueue`

An event queue is used by any number of threads.  One of them, the event thread, runs
`execute`; its handlers call the queue too.  A critical section and an access to an atomic
variable are one step each.
-/

namespace CmsisStream.Runtime

open Codec (Word)

/-- `Message`, with its destination and its event in `event` -/
structure Message (ε : Type) where
  event : ε
  priority : ℕ
  /-- Time to live in ms, 0 means infinite -/
  ttl : Word 4
  timestamp : Word 4
deriving DecidableEq

namespace Message

variable {ε : Type}

/-- The index of the queue for a message: `p >= nb_priorities` gives the last one. -/
def level (msg : Message ε) : Fin 3 :=
  if lt : msg.priority < 3 then ⟨msg.priority, lt⟩ else Fin.last 2

/-- `nowMs > msg.timestamp + msg.event.ttl`, in 32 bits -/
def expired (msg : Message ε) (nowMs : Word 4) : Bool :=
  msg.ttl != 0 && decide (msg.timestamp + msg.ttl < nowMs)

def stamp (msg : Message ε) (now : Word 4) : Message ε := { msg with timestamp := now }

@[simp]
theorem level_stamp (msg : Message ε) (now : Word 4) : (msg.stamp now).level = msg.level := rfl

end Message

/-- A thread which uses the queue. -/
inductive Thread (ι : Type) where
  | event
  | other (i : ι)
deriving DecidableEq

/-- A function of the queue. -/
inductive Operation (ε : Type) where
  | push (msg : Message ε)
  | pause
  | endQueue
  | clear
  | resume

/-- The next step of a thread in a function of the queue.  `setError` and `pause` may be
called by a push which is refused for want of room. -/
inductive Call (ε : Type) where
  | idle
  | pushTestPause (msg : Message ε)
  | pushTestEnd (msg : Message ε)
  | pushLocked (msg : Message ε)
  | setError (refused : Option (Message ε))
  | pauseStore (refused : Option (Message ε))
  | pauseNotify (refused : Option (Message ε))
  | pushNotify (msg : Message ε) (ok : Bool)
  | pushReturn (msg : Message ε) (ok : Bool)
  | endStore
  | endNotify
  | clear
  | resumeStore
  | clearError
deriving DecidableEq

def Call.isIdle {ε : Type} : Call ε → Bool
  | .idle => true
  | _ => false

theorem Call.isIdle_iff {ε : Type} {call : Call ε} : call.isIdle ↔ call = .idle := by
  cases call <;> simp [isIdle]

def Operation.start {ε : Type} : Operation ε → Call ε
  | .push msg => .pushTestPause msg
  | .pause => .pauseStore none
  | .endQueue => .endStore
  | .clear => .clear
  | .resume => .resumeStore

/-- The next step of the event thread in `execute`. -/
inductive Execute (ε : Type) where
  /-- `while ((!this->mustEnd()) && (!this->mustPause()))` -/
  | outerTestEnd
  | outerTestPause
  /-- `while ((!this->mustEnd()) && (!this->mustPause()) && (!isEmpty()))` -/
  | innerTestEnd
  | innerTestPause
  | innerTestEmpty
  | pop
  | testTtl (msg : Message ε)
  | dispatch (msg : Message ε)
  | reportError
  /-- `if (this->mustEnd() || this->mustPause())` -/
  | leaveTestEnd
  | leaveTestPause
  | waitEvent
  | returned
deriving DecidableEq

structure PosixEventQueue (ι ε : Type) where
  queue : Fin 3 → RingBuffer (Message ε)
  mustPause : Bool
  mustEnd : Bool
  event_ : Bool
  errorPending : Bool
  calls : Thread ι → Call ε
  execute : Execute ε

inductive QueueAction (ι ε : Type) where
  /-- A thread which is not the event thread, or a handler, calls a function. -/
  | call (t : Thread ι) (operation : Operation ε)
  /-- A thread goes on in the function that it has called, at a given time. -/
  | step (t : Thread ι) (now : Word 4)
  /-- The event thread goes on in `execute`, at a given time. -/
  | execute (now : Word 4)
  /-- The handler of the event thread returns a success or not. -/
  | handled (success : Bool)

namespace PosixEventQueue

variable {ι ε : Type}

def init : PosixEventQueue ι ε where
  queue _ := .empty
  mustPause := false
  mustEnd := false
  event_ := false
  errorPending := false
  calls _ := .idle
  execute := .outerTestEnd

/-- `isEmpty` -/
def isEmpty (q : PosixEventQueue ι ε) : Bool :=
  (List.finRange 3).all fun p => (q.queue p).count == 0

/-- The highest priority which has messages. -/
def highest (q : PosixEventQueue ι ε) : Option (Fin 3) :=
  (List.finRange 3).reverse.find? fun p => (q.queue p).count != 0

variable [DecidableEq ι]

def setCall (q : PosixEventQueue ι ε) (t : Thread ι) (call : Call ε) : PosixEventQueue ι ε :=
  { q with calls := Function.update q.calls t call }

@[simp]
theorem setCall_self (q : PosixEventQueue ι ε) (t : Thread ι) (call : Call ε) :
    (q.setCall t call).calls t = call := Function.update_self ..

theorem setCall_of_ne (q : PosixEventQueue ι ε) {t t' : Thread ι} (ne : t' ≠ t) (call : Call ε) :
    (q.setCall t call).calls t' = q.calls t' := Function.update_of_ne ne ..

def setQueue (q : PosixEventQueue ι ε) (p : Fin 3) (ring : RingBuffer (Message ε)) :
    PosixEventQueue ι ε :=
  { q with queue := Function.update q.queue p ring }

/-- One step of a function that a thread has called. -/
def callStep (capacity : ℕ) (q : PosixEventQueue ι ε) (t : Thread ι) (now : Word 4) :
    Option (PosixEventQueue ι ε) :=
  match q.calls t with
  | .idle => none
  | .pushTestPause msg =>
      some (q.setCall t (if q.mustPause then .pushReturn msg false else .pushTestEnd msg))
  | .pushTestEnd msg =>
      some (q.setCall t (if q.mustEnd then .pushReturn msg false else .pushLocked msg))
  | .pushLocked msg =>
      if (q.queue msg.level).count < capacity then
        some ((q.setQueue msg.level ((q.queue msg.level).push capacity (msg.stamp now))).setCall t
          (.pushNotify msg true))
      else some (q.setCall t (.setError msg))
  | .setError refused =>
      some ({ q with errorPending := true }.setCall t (.pauseStore refused))
  | .pauseStore refused => some ({ q with mustPause := true }.setCall t (.pauseNotify refused))
  | .pauseNotify refused =>
      some ({ q with event_ := true }.setCall t
        (match refused with
        | some msg => .pushNotify msg false
        | none => .idle))
  | .pushNotify msg ok => some ({ q with event_ := true }.setCall t (.pushReturn msg ok))
  | .pushReturn _ _ => some (q.setCall t .idle)
  | .endStore => some ({ q with mustEnd := true }.setCall t .endNotify)
  | .endNotify => some ({ q with event_ := true }.setCall t .idle)
  | .clear =>
      some ({ q with queue := fun p => (q.queue p).clear capacity }.setCall t .idle)
  | .resumeStore => some ({ q with mustPause := false }.setCall t .clearError)
  | .clearError => some ({ q with errorPending := false }.setCall t .idle)

/-- One step of `execute`. -/
def executeStep (capacity : ℕ) (q : PosixEventQueue ι ε) (now : Word 4) :
    Option (PosixEventQueue ι ε) :=
  match q.execute with
  | .outerTestEnd => some { q with execute := if q.mustEnd then .returned else .outerTestPause }
  | .outerTestPause => some { q with execute := if q.mustPause then .returned else .innerTestEnd }
  | .innerTestEnd => some { q with execute := if q.mustEnd then .leaveTestEnd else .innerTestPause }
  | .innerTestPause =>
      some { q with execute := if q.mustPause then .leaveTestEnd else .innerTestEmpty }
  | .innerTestEmpty => some { q with execute := if q.isEmpty then .leaveTestEnd else .pop }
  | .pop =>
      match q.highest with
      | some p =>
          match (q.queue p).front with
          | some msg =>
              some { q.setQueue p ((q.queue p).pop capacity) with execute := .testTtl msg }
          | none => none
      | none => some { q with execute := .innerTestEnd }
  | .testTtl msg =>
      some { q with execute := if msg.expired now then .innerTestEnd else .dispatch msg }
  | .dispatch _ => none
  | .reportError =>
      if (q.calls .event).isIdle then some { q with execute := .innerTestEnd } else none
  | .leaveTestEnd => some { q with execute := if q.mustEnd then .returned else .leaveTestPause }
  | .leaveTestPause => some { q with execute := if q.mustPause then .returned else .waitEvent }
  | .waitEvent =>
      if q.event_ then some { q with event_ := false, execute := .outerTestEnd } else none
  | .returned => some { q with execute := .outerTestEnd }

def next (capacity : ℕ) (q : PosixEventQueue ι ε) :
    QueueAction ι ε → Option (PosixEventQueue ι ε)
  | .call t operation =>
      if (q.calls t).isIdle then
        match t, q.execute with
        | .other _, _ | .event, .dispatch _ => some (q.setCall t operation.start)
        | .event, _ => none
      else none
  | .step t now => q.callStep capacity t now
  | .execute now => q.executeStep capacity now
  | .handled success =>
      match q.execute with
      | .dispatch _ =>
          if (q.calls .event).isIdle then
            if success then some { q with execute := .innerTestEnd }
            else some ({ q with execute := .reportError }.setCall .event (.setError none))
          else none
      | _ => none

/-- The event queue and the threads around it, for a number of messages of each priority. -/
def machine (capacity : ℕ) : Machine (PosixEventQueue ι ε) (QueueAction ι ε) where
  init := init
  next := next capacity

/-! ## What an action can do -/

variable {capacity : ℕ} {q q' : PosixEventQueue ι ε} {t : Thread ι} {now : Word 4}

theorem next_call {operation : Operation ε} (next : q.next capacity (.call t operation) = some q') :
    q.calls t = .idle ∧ q' = q.setCall t operation.start := by
  simp only [PosixEventQueue.next] at next
  split at next
  · rename_i idle
    refine ⟨Call.isIdle_iff.mp idle, ?_⟩
    split at next <;> cases next <;> rfl
  · cases next

theorem next_handled {success : Bool} (next : q.next capacity (.handled success) = some q') :
    (∃ msg, q.execute = .dispatch msg) ∧ q.calls .event = .idle ∧
      q' = if success then { q with execute := .innerTestEnd }
        else { q with execute := .reportError }.setCall .event (.setError none) := by
  simp only [PosixEventQueue.next] at next
  split at next
  · rename_i msg dispatch
    split at next
    · rename_i idle
      refine ⟨⟨msg, dispatch⟩, Call.isIdle_iff.mp idle, ?_⟩
      cases success <;> cases next <;> rfl
    · cases next
  · cases next

omit [DecidableEq ι] in
theorem executeStep_calls (next : q.executeStep capacity now = some q') : q'.calls = q.calls := by
  cases pc : q.execute with
  | pop =>
      simp only [executeStep, pc] at next
      split at next
      · split at next <;> cases next
        rfl
      · cases next
        rfl
  | dispatch msg =>
      simp only [executeStep, pc] at next
      cases next
  | reportError | waitEvent =>
      simp only [executeStep, pc] at next
      split at next <;> cases next
      rfl
  | _ =>
      simp only [executeStep, pc] at next
      cases next
      rfl

theorem callStep_execute (next : q.callStep capacity t now = some q') :
    q'.execute = q.execute := by
  cases call : q.calls t with
  | idle =>
      simp only [callStep, call] at next
      cases next
  | pushLocked msg =>
      simp only [callStep, call] at next
      split at next <;> cases next <;> rfl
  | _ =>
      simp only [callStep, call] at next
      cases next
      rfl

end PosixEventQueue

end CmsisStream.Runtime
