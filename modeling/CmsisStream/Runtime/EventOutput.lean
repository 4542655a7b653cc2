import CmsisStream.Events.Value
import CmsisStream.Runtime.QueueHistory

/-!
# `EventOutput`

An event output sends an event to the nodes which have subscribed to it.  The asynchronous
functions are programs which push a message for each subscriber.  Whatever happens between two
pushes, the event is pushed for the subscribers in their order, until a push is refused.
-/

namespace CmsisStream.Runtime

open Codec (Word)
open Events (Config Event Priority Value kNoEvent)

/-- `LocalDestination` or `DistantDestination` -/
inductive Destination (δ : Type) where
  | localDestination (dst : δ) (dstPort : ℤ)
  | distantDestination (src_node_id : ℤ)
deriving DecidableEq

/-- What is pushed: a destination and an event -/
abbrev Sent (δ : Type) (cfg : Config) : Type := Destination δ × Event cfg

/-- What a thread has still to do for an event, and the result -/
inductive SendProgram (δ : Type) (cfg : Config) where
  | returned (ok : Bool)
  | mustEnd (next : Bool → SendProgram δ cfg)
  /-- Allocate the memory of a list of values. -/
  | allocate (next : Bool → SendProgram δ cfg)
  | push (dest : Destination δ) (evt : Event cfg) (next : Bool → SendProgram δ cfg)

structure EventOutput (δ : Type) where
  mNodes : List (Destination δ)
  /-- Whether `cg_eventQueue` is not null -/
  hasQueue : Bool

variable {δ : Type} {cfg : Config}

namespace EventOutput

def subscribe (output : EventOutput δ) (node : δ) (dstPort : ℤ) : EventOutput δ :=
  { output with mNodes := output.mNodes ++ [.localDestination node dstPort] }

/-- The loop of `sendEventToAllNodes` -/
def pushClones (evt : Event cfg) : List (Destination δ) → SendProgram δ cfg
  | [] => .returned true
  | dest :: dests =>
      .allocate fun allocated => .push dest (evt.clone allocated) fun ok =>
        if ok then pushClones evt dests else .returned false

/-- `sendEventToAllNodes` with `kAsync`; one subscriber gets the event itself. -/
def sendEventToAllNodes (output : EventOutput δ) (evt : Event cfg) : SendProgram δ cfg :=
  if output.hasQueue then
    .mustEnd fun ended =>
      if ended then .returned false
      else if evt.event_id = kNoEvent then .returned true
      else
        match output.mNodes with
        | [dest] => .push dest evt .returned
        | dests => pushClones evt dests
  else .returned false

/-- `sendAsync` and `sendAsyncWithTTL` -/
def sendCombinedValue (output : EventOutput δ) (priority : Priority) (selector ttl : Word 4)
    (args : List (Value cfg)) : SendProgram δ cfg :=
  .allocate fun allocated =>
    output.sendEventToAllNodes ((Event.make selector priority args allocated).withTTL ttl)

/-- `sendAsyncToApp` -/
def sendAsyncToApp (output : EventOutput δ) (node_id : ℤ) (priority : Priority)
    (selector : Word 4) (args : List (Value cfg)) : SendProgram δ cfg :=
  if output.hasQueue then
    .mustEnd fun ended =>
      if ended then .returned false
      else .allocate fun allocated =>
        .push (.distantDestination node_id) (Event.make selector priority args allocated) .returned
  else .returned false

end EventOutput

/-- A call of a function of an output -/
inductive SendCall (δ : Type) (cfg : Config) where
  | event (output : EventOutput δ) (evt : Event cfg)
  | values (output : EventOutput δ) (priority : Priority) (selector ttl : Word 4)
      (args : List (Value cfg))
  | toApp (output : EventOutput δ) (node_id : ℤ) (priority : Priority) (selector : Word 4)
      (args : List (Value cfg))

namespace SendCall

def program : SendCall δ cfg → SendProgram δ cfg
  | .event output evt => output.sendEventToAllNodes evt
  | .values output priority selector ttl args =>
      output.sendCombinedValue priority selector ttl args
  | .toApp output node_id priority selector args =>
      output.sendAsyncToApp node_id priority selector args

/-- Those to whom the event is sent -/
def destinations : SendCall δ cfg → List (Destination δ)
  | .event output _ | .values output _ _ _ _ => output.mNodes
  | .toApp _ node_id _ _ _ => [.distantDestination node_id]

/-- The event which is sent, when the memory of a list is there or not -/
def sentEvent (allocated : Bool) : SendCall δ cfg → Event cfg
  | .event _ evt => evt
  | .values _ priority selector ttl args =>
      (Event.make selector priority args allocated).withTTL ttl
  | .toApp _ _ priority selector args => Event.make selector priority args allocated

end SendCall

/-- The message of an event, which gets its time stamp again when it is stored. -/
def sentMessage (dest : Destination δ) (evt : Event cfg) (now : Word 4) :
    Message (Sent δ cfg) where
  event := (dest, evt)
  priority := evt.priority.number.toNat
  ttl := evt.ttl
  timestamp := now

/-- What a step does to the events -/
inductive SendEntry (ι δ : Type) (cfg : Config) where
  | send (t : Thread ι) (call : SendCall δ cfg)
  | sent (t : Thread ι) (ok : Bool)
  | queue (entry : Entry ι (Sent δ cfg))

/-! ## Executions of a program -/

variable {ι : Type}

/-- What a thread does in a step of a program, where a push is one step -/
inductive ProgramStep (t : Thread ι) :
    SendProgram δ cfg → List (SendEntry ι δ cfg) → SendProgram δ cfg → Prop
  | mustEnd (next : Bool → SendProgram δ cfg) (ended : Bool) :
      ProgramStep t (.mustEnd next) [] (next ended)
  | allocate (next : Bool → SendProgram δ cfg) (allocated : Bool) :
      ProgramStep t (.allocate next) [] (next allocated)
  | push (dest : Destination δ) (evt : Event cfg) (next : Bool → SendProgram δ cfg)
      {now : Word 4} {entries : List (Entry ι (Sent δ cfg))} {ok : Bool}
      (push : PosixEventQueue.PushEntries t (sentMessage dest evt now) entries ok) :
      ProgramStep t (.push dest evt next) (entries.map .queue) (next ok)

/-- Several steps of a program -/
inductive Executes (t : Thread ι) :
    SendProgram δ cfg → List (SendEntry ι δ cfg) → SendProgram δ cfg → Prop
  | refl (p : SendProgram δ cfg) : Executes t p [] p
  | head {p p' p'' : SendProgram δ cfg} {entries more : List (SendEntry ι δ cfg)}
      (step : ProgramStep t p entries p') (executes : Executes t p' more p'') :
      Executes t p (entries ++ more) p''

variable {t : Thread ι} {p p' p'' : SendProgram δ cfg} {entries more : List (SendEntry ι δ cfg)}
  {ok : Bool}

theorem Executes.tail (executes : Executes t p entries p') (step : ProgramStep t p' more p'') :
    Executes t p (entries ++ more) p'' := by
  induction executes with
  | refl p => simpa using Executes.head step (.refl _)
  | head first _ ih =>
      rw [List.append_assoc]
      exact .head first (ih step)

theorem executes_returned {result : Bool}
    (executes : Executes t (.returned result) entries (.returned ok)) :
    entries = [] ∧ result = ok := by
  cases executes with
  | refl => exact ⟨rfl, rfl⟩
  | head step _ => cases step

theorem executes_mustEnd {next : Bool → SendProgram δ cfg}
    (executes : Executes t (.mustEnd next) entries (.returned ok)) :
    ∃ ended, Executes t (next ended) entries (.returned ok) := by
  cases executes with
  | head step executes =>
      cases step
      exact ⟨_, executes⟩

theorem executes_allocate {next : Bool → SendProgram δ cfg}
    (executes : Executes t (.allocate next) entries (.returned ok)) :
    ∃ allocated, Executes t (next allocated) entries (.returned ok) := by
  cases executes with
  | head step executes =>
      cases step
      exact ⟨_, executes⟩

/-- The destinations and the events of the accepted messages -/
def acceptedEvents (entries : List (SendEntry ι δ cfg)) : List (Sent δ cfg) :=
  entries.filterMap fun
    | .queue (.accepted _ msg) => some msg.event
    | _ => none

theorem executes_push {dest : Destination δ} {evt : Event cfg} {next : Bool → SendProgram δ cfg}
    (executes : Executes t (.push dest evt next) entries (.returned ok)) :
    (∃ more, Executes t (next true) more (.returned ok) ∧
      acceptedEvents entries = (dest, evt) :: acceptedEvents more) ∨
    ∃ more, Executes t (next false) more (.returned ok) ∧
      acceptedEvents entries = acceptedEvents more := by
  cases executes with
  | head step executes =>
      cases step with
      | push _ _ _ push =>
          cases push with
          | accepted now => exact .inl ⟨_, executes, rfl⟩
          | _ => exact .inr ⟨_, executes, rfl⟩

/-! ## What a function of an output does -/

@[simp]
theorem clone_allocated (evt : Event cfg) : evt.clone true = evt := by
  rw [Event.clone]
  split <;> rfl

/-- The event has been pushed for the first of some destinations, for all of them when the
function returns true. -/
structure Delivered (evt : Event cfg) (dests : List (Destination δ))
    (entries : List (SendEntry ι δ cfg)) (ok : Bool) : Prop where
  inOrder : (acceptedEvents entries).map Prod.fst <+: dests
  copies : ∀ sent ∈ acceptedEvents entries, ∃ allocated, sent.2 = evt.clone allocated
  all : ok = true ↔ (acceptedEvents entries).map Prod.fst = dests

theorem delivered_pushClones {evt : Event cfg} {dests : List (Destination δ)}
    (executes : Executes t (EventOutput.pushClones evt dests) entries (.returned ok)) :
    Delivered evt dests entries ok := by
  induction dests generalizing entries with
  | nil =>
      rcases executes_returned executes with ⟨rfl, rfl⟩
      exact ⟨List.nil_prefix, by simp [acceptedEvents], by simp [acceptedEvents]⟩
  | cons dest dests ih =>
      rcases executes_allocate executes with ⟨allocated, executes⟩
      rcases executes_push executes with ⟨more, executes, accepted⟩ | ⟨more, executes, accepted⟩
      · rcases ih executes with ⟨inOrder, copies, all⟩
        refine ⟨?_, ?_, ?_⟩ <;> rw [accepted]
        · exact List.prefix_cons_inj _ |>.mpr inOrder
        · intro sent mem
          rcases List.mem_cons.mp mem with rfl | mem
          · exact ⟨allocated, rfl⟩
          · exact copies sent mem
        · simp [all]
      · rcases executes_returned executes with ⟨rfl, rfl⟩
        refine ⟨?_, ?_, ?_⟩ <;> rw [accepted] <;> simp [acceptedEvents]

theorem delivered_one {evt : Event cfg} {dest : Destination δ}
    (executes : Executes t (.push dest evt .returned) entries (.returned ok)) :
    Delivered evt [dest] entries ok := by
  rcases executes_push executes with ⟨more, executes, accepted⟩ | ⟨more, executes, accepted⟩ <;>
    rcases executes_returned executes with ⟨rfl, rfl⟩ <;>
    refine ⟨?_, ?_, ?_⟩ <;> rw [accepted] <;> simp [acceptedEvents]

namespace SendCall

/-- A function pushes nothing when there is no event or no queue which goes on, and delivers the
event otherwise. -/
def Outcome (call : SendCall δ cfg) (entries : List (SendEntry ι δ cfg)) (ok : Bool) : Prop :=
  (acceptedEvents entries = [] ∧
    (ok = true → ∃ allocated, (call.sentEvent allocated).event_id = kNoEvent)) ∨
  ∃ allocated, Delivered (call.sentEvent allocated) call.destinations entries ok

theorem outcome_nothing {call : SendCall δ cfg}
    (executes : Executes t (.returned false) entries (.returned ok)) : call.Outcome entries ok := by
  rcases executes_returned executes with ⟨rfl, rfl⟩
  exact .inl ⟨rfl, by simp⟩

theorem outcome_sendEventToAllNodes {call : SendCall δ cfg} {output : EventOutput δ}
    (allocated : Bool) (dests : call.destinations = output.mNodes)
    (executes : Executes t (output.sendEventToAllNodes (call.sentEvent allocated)) entries
      (.returned ok)) : call.Outcome entries ok := by
  rw [EventOutput.sendEventToAllNodes] at executes
  split at executes
  · rcases executes_mustEnd executes with ⟨ended, executes⟩
    split_ifs at executes with isEnded noEvent
    · exact outcome_nothing executes
    · rcases executes_returned executes with ⟨rfl, rfl⟩
      exact .inl ⟨rfl, fun _ => ⟨allocated, noEvent⟩⟩
    · right
      rw [dests]
      split at executes
      · rename_i dest one
        rw [one]
        exact ⟨allocated, delivered_one executes⟩
      · exact ⟨allocated, delivered_pushClones executes⟩
  · exact outcome_nothing executes

theorem outcome_of_executes {call : SendCall δ cfg}
    (executes : Executes t call.program entries (.returned ok)) : call.Outcome entries ok := by
  cases call with
  | event output evt => exact outcome_sendEventToAllNodes true rfl executes
  | values output priority selector ttl args =>
      rcases executes_allocate executes with ⟨allocated, executes⟩
      exact outcome_sendEventToAllNodes allocated rfl executes
  | toApp output node_id priority selector args =>
      rw [program, EventOutput.sendAsyncToApp] at executes
      split at executes
      · rcases executes_mustEnd executes with ⟨ended, executes⟩
        split_ifs at executes with isEnded
        · exact outcome_nothing executes
        · rcases executes_allocate executes with ⟨allocated, executes⟩
          exact .inr ⟨allocated, delivered_one executes⟩
      · exact outcome_nothing executes

end SendCall

end CmsisStream.Runtime
