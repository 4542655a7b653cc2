import CmsisStream.Runtime.EventQueue

/-!
# What happens to the messages of an event queue

Each priority is a first in, first out queue: what was accepted is what was removed, by
`execute` or by `clear`, followed by what is still stored.  A push is refused when it finds the
queue paused, ended or full, and is accepted otherwise.
-/

namespace CmsisStream.Runtime

open Codec (Word)

/-- What a push tests before it stores its message. -/
inductive PushTest where
  | mustPause
  | mustEnd
  | full
deriving DecidableEq

/-- What a step does to the messages, and what a push finds. -/
inductive Entry (ι ε : Type) where
  | called (t : Thread ι) (msg : Message ε)
  | found (t : Thread ι) (test : PushTest) (holds : Bool)
  | accepted (t : Thread ι) (msg : Message ε)
  | returned (t : Thread ι) (msg : Message ε) (ok : Bool)
  | popped (p : Fin 3) (msg : Message ε)
  | cleared (p : Fin 3) (msg : Message ε)

namespace Entry

variable {ι ε : Type}

def accepted? (p : Fin 3) : Entry ι ε → Option (Message ε)
  | .accepted _ msg => if msg.level = p then some msg else none
  | _ => none

/-- The message removed from a queue, and whether it is given to `execute`. -/
def removed? (p : Fin 3) : Entry ι ε → Option (Message ε × Bool)
  | .popped p' msg => if p' = p then some (msg, true) else none
  | .cleared p' msg => if p' = p then some (msg, false) else none
  | _ => none

def popped? (p : Fin 3) : Entry ι ε → Option (Message ε)
  | .popped p' msg => if p' = p then some msg else none
  | _ => none

def cleared? (p : Fin 3) : Entry ι ε → Option (Message ε)
  | .cleared p' msg => if p' = p then some msg else none
  | _ => none

theorem filterMap_popped (p : Fin 3) (entries : List (Entry ι ε)) :
    entries.filterMap (popped? p) = ((entries.filterMap (removed? p)).filter (·.2)).map (·.1) := by
  induction entries with
  | nil => rfl
  | cons entry entries ih =>
      cases entry with
      | popped p' msg | cleared p' msg =>
          by_cases same : p' = p <;> simp [List.filterMap_cons, popped?, removed?, same, ih]
      | _ => simpa [List.filterMap_cons, popped?, removed?] using ih

theorem filterMap_cleared (p : Fin 3) (entries : List (Entry ι ε)) :
    entries.filterMap (cleared? p) =
      ((entries.filterMap (removed? p)).filter (!·.2)).map (·.1) := by
  induction entries with
  | nil => rfl
  | cons entry entries ih =>
      cases entry with
      | popped p' msg | cleared p' msg =>
          by_cases same : p' = p <;> simp [List.filterMap_cons, cleared?, removed?, same, ih]
      | _ => simpa [List.filterMap_cons, cleared?, removed?] using ih

def thread? : Entry ι ε → Option (Thread ι)
  | .called t _ | .found t _ _ | .accepted t _ | .returned t _ _ => some t
  | .popped _ _ | .cleared _ _ => none

end Entry

/-- The steps that a thread has at most left in the function that it has called. -/
def Call.steps {ε : Type} : Call ε → ℕ
  | .idle => 0
  | .clear | .clearError | .endNotify | .pushReturn _ _ => 1
  | .pushNotify _ _ | .endStore | .resumeStore => 2
  | .pauseNotify _ => 3
  | .pauseStore _ => 4
  | .setError _ => 5
  | .pushLocked _ => 6
  | .pushTestEnd _ => 7
  | .pushTestPause _ => 8

theorem Call.steps_le {ε : Type} (call : Call ε) : call.steps ≤ 8 := by
  cases call <;> simp [steps]

namespace PosixEventQueue

variable {ι ε : Type} {capacity : ℕ} {q : PosixEventQueue ι ε}

theorem highest_eq_some {p : Fin 3} (found : q.highest = some p) :
    (q.queue p).count ≠ 0 ∧ ∀ p', p < p' → (q.queue p').count = 0 := by
  have decreasing : (List.finRange 3).reverse.Pairwise (· > ·) := by decide
  rcases List.find?_eq_some_iff_append.mp found with ⟨some_, higher, lower, split, none_⟩
  refine ⟨by simpa using some_, fun p' gt => ?_⟩
  have mem : p' ∈ (List.finRange 3).reverse := List.mem_reverse.mpr (List.mem_finRange p')
  rw [split] at decreasing mem
  rcases List.mem_append.mp mem with above | rest
  · simpa using none_ p' above
  · rcases List.mem_cons.mp rest with rfl | below
    · exact absurd gt (lt_irrefl p')
    · have lt := List.rel_of_pairwise_cons (List.pairwise_append.mp decreasing).2.1 below
      exact absurd gt (lt_asymm lt)

/-- The three queues hold these messages. -/
def Stored (capacity : ℕ) (q : PosixEventQueue ι ε) (items : Fin 3 → List (Message ε)) : Prop :=
  ∀ p, (q.queue p).Holds capacity (items p)

theorem Stored.popped {items : Fin 3 → List (Message ε)} (stored : q.Stored capacity items)
    {p : Fin 3} {msg : Message ε} (found : q.highest = some p)
    (front : (q.queue p).front = some msg) :
    (∃ rest, items p = msg :: rest) ∧ ∀ p', p < p' → items p' = [] := by
  rcases highest_eq_some found with ⟨some_, none_⟩
  constructor
  · have nonempty : items p ≠ [] := by
      intro eq
      rw [(stored p).count, eq] at some_
      exact some_ rfl
    rcases List.exists_cons_of_ne_nil nonempty with ⟨first, rest, eq⟩
    have holds := stored p
    rw [eq] at holds
    rw [holds.front] at front
    cases front
    exact ⟨rest, eq⟩
  · intro p' gt
    have count := none_ p' gt
    rwa [(stored p').count, List.length_eq_zero_iff] at count

/-- The messages that `clear` removes. -/
def clearEntries (capacity : ℕ) (q : PosixEventQueue ι ε) : List (Entry ι ε) :=
  (List.finRange 3).flatMap fun p => ((q.queue p).contents capacity).map (.cleared p)

theorem filterMap_clearEntries {items : Fin 3 → List (Message ε)}
    (stored : q.Stored capacity items) (p : Fin 3) :
    ((q.clearEntries capacity).filterMap (Entry.removed? p)).map (·.1) = items p ∧
      (q.clearEntries capacity).filterMap (Entry.accepted? p) = [] := by
  have each : ∀ p', (((q.queue p').contents capacity).map (.cleared p')).filterMap
      (Entry.removed? (ι := ι) p) = if p' = p then (items p').map (·, false) else [] := by
    intro p'
    rw [(stored p').contents, List.filterMap_map]
    by_cases same : p' = p
    · have each : Entry.removed? (ι := ι) p ∘ .cleared p' =
          fun msg : Message ε => some (msg, false) := by
        funext msg
        simp [Entry.removed?, same]
      rw [if_pos same, each, ← List.filterMap_eq_map]
      rfl
    · rw [if_neg same, List.filterMap_eq_nil_iff]
      intro msg _
      simp [Entry.removed?, same]
  have levels : List.finRange 3 = [0, 1, 2] := rfl
  constructor
  · simp only [clearEntries, levels, List.flatMap_cons, List.flatMap_nil, List.append_nil,
      List.filterMap_append, each]
    obtain rfl | rfl | rfl : p = 0 ∨ p = 1 ∨ p = 2 := by omega
    all_goals simp [Function.comp_def]
  · rw [List.filterMap_eq_nil_iff]
    intro entry mem
    simp only [clearEntries, List.mem_flatMap, List.mem_map] at mem
    rcases mem with ⟨p', -, msg, -, rfl⟩
    rfl

variable [DecidableEq ι] {q' : PosixEventQueue ι ε} {action : QueueAction ι ε}

/-- What an action does to the messages. -/
def entries (capacity : ℕ) (q : PosixEventQueue ι ε) : QueueAction ι ε → List (Entry ι ε)
  | .call t (.push msg) => [.called t msg]
  | .call _ _ => []
  | .step t now =>
      match q.calls t with
      | .pushTestPause _ => [.found t .mustPause q.mustPause]
      | .pushTestEnd _ => [.found t .mustEnd q.mustEnd]
      | .pushLocked msg =>
          if (q.queue msg.level).count < capacity then
            [.found t .full false, .accepted t (msg.stamp now)]
          else [.found t .full true]
      | .pushReturn msg ok => [.returned t msg ok]
      | .clear => q.clearEntries capacity
      | _ => []
  | .execute _ =>
      match q.execute with
      | .pop => (q.highest.bind fun p => (q.queue p).front.map (.popped p)).toList
      | _ => []
  | .handled _ => []

/-- What a step does to the three queues. -/
theorem next_queue (next : q.next capacity action = some q') :
    (q'.queue = q.queue ∧
      ∀ p, (q.entries capacity action).filterMap (Entry.accepted? p) = [] ∧
        (q.entries capacity action).filterMap (Entry.removed? p) = []) ∨
    (∃ t msg, (q.queue msg.level).count < capacity ∧
      q'.queue = Function.update q.queue msg.level ((q.queue msg.level).push capacity msg) ∧
      q.entries capacity action = [.found t .full false, .accepted t msg]) ∨
    (∃ p msg, q.highest = some p ∧ (q.queue p).front = some msg ∧
      q'.queue = Function.update q.queue p ((q.queue p).pop capacity) ∧
      q.entries capacity action = [.popped p msg]) ∨
    ((q'.queue = fun p => (q.queue p).clear capacity) ∧
      q.entries capacity action = q.clearEntries capacity) := by
  cases action with
  | call t operation =>
      left
      constructor
      · simp only [PosixEventQueue.next] at next
        split at next
        · split at next <;> cases next <;> rfl
        · cases next
      · cases operation <;> simp [entries, Entry.accepted?, Entry.removed?]
  | step t now =>
      cases call : q.calls t with
      | pushLocked msg =>
          by_cases room : (q.queue msg.level).count < capacity
          · right; left
            simp only [PosixEventQueue.next, callStep, call, if_pos room] at next
            cases next
            exact ⟨t, msg.stamp now, room, rfl, by simp [entries, call, room]⟩
          · left
            simp only [PosixEventQueue.next, callStep, call, if_neg room] at next
            cases next
            exact ⟨rfl, by simp [entries, call, room, Entry.accepted?, Entry.removed?]⟩
      | clear =>
          right; right; right
          simp only [PosixEventQueue.next, callStep, call] at next
          cases next
          exact ⟨rfl, by simp [entries, call]⟩
      | idle =>
          simp only [PosixEventQueue.next, callStep, call] at next
          cases next
      | _ =>
          left
          simp only [PosixEventQueue.next, callStep, call] at next
          cases next
          exact ⟨rfl, by simp [entries, call, Entry.accepted?, Entry.removed?]⟩
  | execute now =>
      cases pc : q.execute with
      | pop =>
          simp only [PosixEventQueue.next, executeStep, pc] at next
          cases found : q.highest with
          | none =>
              left
              simp only [found] at next
              cases next
              exact ⟨rfl, by simp [entries, pc, found]⟩
          | some p =>
              simp only [found] at next
              cases first : (q.queue p).front with
              | none =>
                  rw [first] at next
                  cases next
              | some msg =>
                  right; right; left
                  rw [first] at next
                  cases next
                  exact ⟨p, msg, rfl, first, rfl, by simp [entries, pc, found, first]⟩
      | dispatch msg =>
          simp only [PosixEventQueue.next, executeStep, pc] at next
          cases next
      | reportError | waitEvent =>
          left
          simp only [PosixEventQueue.next, executeStep, pc] at next
          split at next <;> cases next
          exact ⟨rfl, by simp [entries, pc]⟩
      | _ =>
          left
          simp only [PosixEventQueue.next, executeStep, pc] at next
          cases next
          exact ⟨rfl, by simp [entries, pc]⟩
  | handled success =>
      left
      refine ⟨?_, by simp [entries]⟩
      simp only [PosixEventQueue.next] at next
      split at next
      · split_ifs at next <;> cases next <;> rfl
      · cases next

/-- A step adds the accepted messages at the end of the queues and takes the removed ones from
their front. -/
theorem Stored.next {items : Fin 3 → List (Message ε)} (stored : q.Stored capacity items)
    (next : q.next capacity action = some q') :
    ∃ items', q'.Stored capacity items' ∧
      ∀ p, items p ++ (q.entries capacity action).filterMap (Entry.accepted? p) =
        ((q.entries capacity action).filterMap (Entry.removed? p)).map (·.1) ++ items' p := by
  rcases next_queue next with ⟨same, nothing⟩ | ⟨t, msg, room, push, accepted⟩ |
    ⟨p, msg, found, front, pop, popped⟩ | ⟨clear, cleared⟩
  · refine ⟨items, fun p => same ▸ stored p, fun p => ?_⟩
    rw [(nothing p).1, (nothing p).2, List.append_nil]
    rfl
  · rw [accepted]
    refine ⟨Function.update items msg.level (items msg.level ++ [msg]), fun p => ?_, fun p => ?_⟩
    · rw [push]
      by_cases same : p = msg.level
      · subst same
        simp only [Function.update_self]
        exact (stored msg.level).push ((stored msg.level).count ▸ room) msg
      · simp only [Function.update_of_ne same]
        exact stored p
    · by_cases same : p = msg.level
      · subst same
        simp [List.filterMap_cons, Entry.accepted?, Entry.removed?]
      · simp [List.filterMap_cons, Entry.accepted?, Entry.removed?, Function.update_of_ne same,
          Ne.symm same]
  · rw [popped]
    rcases (stored.popped found front).1 with ⟨rest, eq⟩
    refine ⟨Function.update items p rest, fun p' => ?_, fun p' => ?_⟩
    · rw [pop]
      by_cases same : p' = p
      · subst same
        simp only [Function.update_self]
        exact RingBuffer.Holds.pop (eq ▸ stored p')
      · simp only [Function.update_of_ne same]
        exact stored p'
    · by_cases same : p' = p
      · subst same
        simp [Entry.accepted?, Entry.removed?, eq]
      · simp [Entry.accepted?, Entry.removed?, Function.update_of_ne same, Ne.symm same]
  · rw [cleared]
    refine ⟨fun _ => [], fun p => ?_, fun p => ?_⟩
    · rw [clear]
      exact (stored p).clear
    · rcases filterMap_clearEntries stored p with ⟨removed, accepted⟩
      rw [removed, accepted]

/-- The entries of a run. -/
def history (capacity : ℕ) (actions : List (QueueAction ι ε)) : List (Entry ι ε) :=
  (machine capacity).trace (entries capacity) init actions

theorem history_concat {actions : List (QueueAction ι ε)}
    (runs : (machine capacity).Runs actions q) (action : QueueAction ι ε) :
    history capacity (actions ++ [action]) =
      history capacity actions ++ q.entries capacity action :=
  Machine.trace_concat _ runs.run_eq action

theorem stored_of_runs {actions : List (QueueAction ι ε)}
    (runs : (machine capacity).Runs actions q) :
    ∃ items, q.Stored capacity items ∧
      ∀ p, (history capacity actions).filterMap (Entry.accepted? p) =
        ((history capacity actions).filterMap (Entry.removed? p)).map (·.1) ++ items p := by
  induction runs with
  | init => exact ⟨fun _ => [], fun _ => RingBuffer.holds_empty capacity, fun _ => rfl⟩
  | step runs _ next ih =>
      rcases ih with ⟨items, stored, history⟩
      rcases stored.next next with ⟨items', stored', step⟩
      refine ⟨items', stored', fun p => ?_⟩
      rw [history_concat runs, List.filterMap_append, List.filterMap_append, List.map_append,
        history, List.append_assoc, step, List.append_assoc]

/-! ## Calls of `push` -/

/-- The entries of a call of `push` which returns: it stores its message, once, and returns true
when it has found the queue neither paused nor ended nor full, and it returns false otherwise. -/
inductive PushEntries (t : Thread ι) (msg : Message ε) : List (Entry ι ε) → Bool → Prop
  | paused :
      PushEntries t msg
        [.called t msg, .found t .mustPause true, .returned t msg false] false
  | ended :
      PushEntries t msg
        [.called t msg, .found t .mustPause false, .found t .mustEnd true,
          .returned t msg false] false
  | full :
      PushEntries t msg
        [.called t msg, .found t .mustPause false, .found t .mustEnd false, .found t .full true,
          .returned t msg false] false
  | accepted (now : Word 4) :
      PushEntries t msg
        [.called t msg, .found t .mustPause false, .found t .mustEnd false, .found t .full false,
          .accepted t (msg.stamp now), .returned t msg true] true

/-- The finished calls of `push` by a thread. -/
inductive Finished (t : Thread ι) : List (Entry ι ε) → Prop
  | none : Finished t []
  | push {done entries : List (Entry ι ε)} (finished : Finished t done) {msg : Message ε}
      {ok : Bool} (push : PushEntries t msg entries ok) : Finished t (done ++ entries)

/-- The entries of a call of `push` which has not returned. -/
def Unfinished (t : Thread ι) (entries : List (Entry ι ε)) : Call ε → Prop
  | .pushTestPause msg => entries = [.called t msg]
  | .pushTestEnd msg => entries = [.called t msg, .found t .mustPause false]
  | .pushLocked msg =>
      entries = [.called t msg, .found t .mustPause false, .found t .mustEnd false]
  | .setError (some msg) | .pauseStore (some msg) | .pauseNotify (some msg) =>
      PushEntries t msg (entries ++ [.returned t msg false]) false
  | .pushNotify msg ok | .pushReturn msg ok =>
      PushEntries t msg (entries ++ [.returned t msg ok]) ok
  | _ => entries = []

omit [DecidableEq ι] in
theorem unfinished_idle {t : Thread ι} {entries : List (Entry ι ε)} :
    Unfinished t entries .idle ↔ entries = [] := Iff.rfl

/-- The entries of a thread. -/
def ofThread (t : Thread ι) (entries : List (Entry ι ε)) : List (Entry ι ε) :=
  entries.filter fun entry => entry.thread? = some t

theorem ofThread_clearEntries (t : Thread ι) : ofThread t (q.clearEntries capacity) = [] := by
  rw [ofThread, List.filter_eq_nil_iff]
  intro entry mem
  simp only [clearEntries, List.mem_flatMap, List.mem_map] at mem
  rcases mem with ⟨p, -, msg, -, rfl⟩
  simp [Entry.thread?]

theorem callStep_other {t t' : Thread ι} (ne : t ≠ t') {now : Word 4}
    (next : q.callStep capacity t' now = some q') : q'.calls t = q.calls t := by
  cases call : q.calls t' with
  | idle =>
      simp only [callStep, call] at next
      cases next
  | pushLocked msg =>
      simp only [callStep, call] at next
      split at next <;> cases next <;> exact setCall_of_ne _ ne _
  | _ =>
      simp only [callStep, call] at next
      cases next
      exact setCall_of_ne _ ne _

theorem Unfinished.step {t : Thread ι} {now : Word 4} {pending : List (Entry ι ε)}
    (unfinished : Unfinished t pending (q.calls t))
    (next : q.callStep capacity t now = some q') :
    Unfinished t (pending ++ ofThread t (q.entries capacity (.step t now))) (q'.calls t) ∨
      (q'.calls t = .idle ∧ ∀ done, Finished t done →
        Finished t (done ++ (pending ++ ofThread t (q.entries capacity (.step t now))))) := by
  cases call : q.calls t with
  | idle =>
      simp only [callStep, call] at next
      cases next
  | pushLocked msg =>
      left
      simp only [call, Unfinished] at unfinished
      simp only [callStep, call] at next
      split at next <;> rename_i room <;> cases next
      · simpa [entries, call, room, ofThread, Entry.thread?, Unfinished, unfinished] using
          (PushEntries.accepted now : PushEntries t msg _ _)
      · simpa [entries, call, room, ofThread, Entry.thread?, Unfinished, unfinished] using
          (PushEntries.full : PushEntries t msg _ _)
  | pushReturn msg ok =>
      right
      simp only [callStep, call] at next
      cases next
      refine ⟨setCall_self .., ?_⟩
      intro done finished
      simp only [call, Unfinished] at unfinished
      simpa [entries, call, ofThread, Entry.thread?] using finished.push unfinished
  | clear =>
      left
      simp only [call, Unfinished] at unfinished
      simp only [callStep, call] at next
      cases next
      simp [entries, call, ofThread_clearEntries, Unfinished, unfinished]
  | pushTestPause msg =>
      left
      simp only [call, Unfinished] at unfinished
      simp only [callStep, call] at next
      cases next
      rw [setCall_self]
      cases found : q.mustPause
      · simp [entries, call, ofThread, Entry.thread?, Unfinished, unfinished, found]
      · simpa [entries, call, ofThread, Entry.thread?, Unfinished, unfinished, found] using
          (PushEntries.paused : PushEntries t msg _ _)
  | pushTestEnd msg =>
      left
      simp only [call, Unfinished] at unfinished
      simp only [callStep, call] at next
      cases next
      rw [setCall_self]
      cases found : q.mustEnd
      · simp [entries, call, ofThread, Entry.thread?, Unfinished, unfinished, found]
      · simpa [entries, call, ofThread, Entry.thread?, Unfinished, unfinished, found] using
          (PushEntries.ended : PushEntries t msg _ _)
  | setError refused | pauseStore refused | pauseNotify refused =>
      left
      simp only [callStep, call] at next
      cases next
      cases refused <;> simp only [call, Unfinished] at unfinished <;>
        simpa [entries, call, ofThread, Unfinished] using unfinished
  | pushNotify msg ok =>
      left
      simp only [callStep, call] at next
      cases next
      simp only [call, Unfinished] at unfinished
      simpa [entries, call, ofThread, Unfinished] using unfinished
  | _ =>
      left
      simp only [call, Unfinished] at unfinished
      simp only [callStep, call] at next
      cases next
      simp [entries, call, ofThread, Unfinished, unfinished]

/-- What is not a step or a push of a thread adds nothing to its entries. -/
theorem ofThread_entries {t : Thread ι} (notStep : ∀ now, action ≠ .step t now)
    (notPush : ∀ msg, action ≠ .call t (.push msg)) :
    ofThread t (q.entries capacity action) = [] := by
  cases action with
  | call t' operation =>
      cases operation with
      | push msg =>
          have differ : t' ≠ t := fun same => notPush msg (same ▸ rfl)
          simp [entries, ofThread, Entry.thread?, differ]
      | _ => rfl
  | step t' now =>
      have differ : t' ≠ t := fun same => notStep now (same ▸ rfl)
      simp only [entries]
      split
      · simp [ofThread, Entry.thread?, differ]
      · simp [ofThread, Entry.thread?, differ]
      · split <;> simp [ofThread, Entry.thread?, differ]
      · simp [ofThread, Entry.thread?, differ]
      · exact ofThread_clearEntries t
      · rfl
  | execute now =>
      simp only [entries]
      split
      · rw [ofThread, List.filter_eq_nil_iff]
        intro entry mem
        rcases Option.bind_eq_some_iff.mp (Option.mem_toList.mp mem) with ⟨p, -, front⟩
        rcases Option.map_eq_some_iff.mp front with ⟨msg, -, rfl⟩
        simp [Entry.thread?]
      · rfl
  | handled success => rfl

theorem Unfinished.next {t : Thread ι} {pending : List (Entry ι ε)}
    (unfinished : Unfinished t pending (q.calls t)) (next : q.next capacity action = some q') :
    Unfinished t (pending ++ ofThread t (q.entries capacity action)) (q'.calls t) ∨
      (q'.calls t = .idle ∧ ∀ done, Finished t done →
        Finished t (done ++ (pending ++ ofThread t (q.entries capacity action)))) := by
  have unchanged : q'.calls t = q.calls t → ofThread t (q.entries capacity action) = [] →
      Unfinished t (pending ++ ofThread t (q.entries capacity action)) (q'.calls t) := by
    intro calls nothing
    rwa [calls, nothing, List.append_nil]
  cases action with
  | call t' operation =>
      left
      rcases next_call next with ⟨idle, rfl⟩
      by_cases same : t = t'
      · subst same
        rw [idle, unfinished_idle] at unfinished
        rw [setCall_self, unfinished]
        cases operation <;> simp [entries, ofThread, Entry.thread?, Operation.start, Unfinished]
      · apply unchanged (setCall_of_ne _ same _)
        apply ofThread_entries <;> simp [Ne.symm same]
  | step t' now =>
      by_cases same : t = t'
      · subst same
        exact unfinished.step next
      · left
        apply unchanged (callStep_other same next)
        apply ofThread_entries <;> simp [Ne.symm same]
  | execute now =>
      left
      apply unchanged (congrFun (executeStep_calls next) t)
      apply ofThread_entries <;> simp
  | handled success =>
      left
      rcases next_handled next with ⟨-, idle, rfl⟩
      cases success with
      | true => exact unchanged rfl rfl
      | false =>
          by_cases same : t = .event
          · subst same
            rw [idle, unfinished_idle] at unfinished
            simp [entries, ofThread, Unfinished, unfinished]
          · exact unchanged (setCall_of_ne _ same _) rfl

theorem finished_of_runs {actions : List (QueueAction ι ε)}
    (runs : (machine capacity).Runs actions q) (t : Thread ι) :
    ∃ done pending, ofThread t (history capacity actions) = done ++ pending ∧
      Finished t done ∧ Unfinished t pending (q.calls t) := by
  induction runs with
  | init => exact ⟨[], [], rfl, .none, rfl⟩
  | @step actions q q' action runs _ next ih =>
      rcases ih with ⟨done, pending, history, finished, unfinished⟩
      have split : ofThread t (PosixEventQueue.history capacity (actions ++ [action])) =
          done ++ (pending ++ ofThread t (q.entries capacity action)) := by
        rw [history_concat runs, ← List.append_assoc, ← history]
        exact List.filter_append ..
      rcases unfinished.next next with unfinished | ⟨idle, finish⟩
      · exact ⟨done, _, split, finished, unfinished⟩
      · refine ⟨_, [], split.trans (List.append_nil _).symm, finish done finished, ?_⟩
        rw [idle, unfinished_idle]

/-! ## The steps of a call -/

/-- A thread can always go on in the function that it has called. -/
theorem exists_callStep {t : Thread ι} (notIdle : q.calls t ≠ .idle) (now : Word 4) :
    ∃ q', q.callStep capacity t now = some q' := by
  cases call : q.calls t with
  | idle => exact absurd call notIdle
  | pushLocked msg =>
      simp only [callStep, call]
      split <;> exact ⟨_, rfl⟩
  | _ =>
      simp only [callStep, call]
      exact ⟨_, rfl⟩

/-- A step brings the function nearer to its end. -/
theorem callStep_steps {t : Thread ι} {now : Word 4} (next : q.callStep capacity t now = some q') :
    (q'.calls t).steps < (q.calls t).steps := by
  cases call : q.calls t with
  | idle =>
      simp only [callStep, call] at next
      cases next
  | pushTestPause msg | pushTestEnd msg =>
      simp only [callStep, call] at next
      cases next
      rw [setCall_self]
      split <;> simp [Call.steps]
  | pushLocked msg =>
      simp only [callStep, call] at next
      split at next <;> cases next <;> simp [Call.steps]
  | pauseNotify refused =>
      simp only [callStep, call] at next
      cases next
      cases refused <;> simp [Call.steps]
  | _ =>
      simp only [callStep, call] at next
      cases next
      simp [Call.steps]

/-- What the other threads do leaves a thread where it is in a function. -/
theorem next_calls {t : Thread ι} (notIdle : q.calls t ≠ .idle)
    (next : q.next capacity action = some q') (notStep : ∀ now, action ≠ .step t now) :
    q'.calls t = q.calls t := by
  cases action with
  | call t' operation =>
      rcases next_call next with ⟨idle, rfl⟩
      exact setCall_of_ne _ (fun same : t = t' => notIdle (same ▸ idle)) _
  | step t' now => exact callStep_other (fun same => notStep now (same ▸ rfl)) next
  | execute now => exact congrFun (executeStep_calls next) t
  | handled success =>
      rcases next_handled next with ⟨-, idle, rfl⟩
      cases success with
      | true => rfl
      | false => exact setCall_of_ne _ (fun same : t = .event => notIdle (same ▸ idle)) _

/-! ## The whole history -/

theorem next_queue_of_nothing {items : Fin 3 → List (Message ε)}
    (stored : q.Stored capacity items) (next : q.next capacity action = some q')
    (nothing : ∀ p, (q.entries capacity action).filterMap (Entry.accepted? p) = [] ∧
      (q.entries capacity action).filterMap (Entry.removed? p) = []) : q'.queue = q.queue := by
  rcases next_queue next with ⟨same, -⟩ | ⟨t, msg, -, -, accepted⟩ |
    ⟨p, msg, -, -, -, popped⟩ | ⟨clear, cleared⟩
  · exact same
  · have none_ := (nothing msg.level).1
    simp [accepted, Entry.accepted?] at none_
  · have none_ := (nothing p).2
    simp [popped, Entry.removed?] at none_
  · rw [clear]
    funext p
    have empty := (filterMap_clearEntries stored p).1
    rw [← cleared, (nothing p).2] at empty
    have count := (stored p).count
    rw [← empty] at count
    rw [RingBuffer.clear, count]
    rfl

/-- In every run the counts agree with the positions, the accepted messages of each priority are
the removed ones followed by the stored ones, and each finished call of `push` has been accepted,
and has returned true, exactly when it has found the queue neither paused nor ended nor full.  A
step takes a message of the highest priority only, and does not change the queues without
accepting or removing a message.  A thread finishes its call in at most eight steps of its own. -/
theorem posixEventQueue_history {actions : List (QueueAction ι ε)}
    (runs : (machine capacity).Runs actions q) :
    (∀ p, (q.queue p).count ≤ capacity ∧
      (q.queue p).write = ((q.queue p).read + (q.queue p).count) % capacity) ∧
    (∀ p, ∃ removed : List (Message ε × Bool),
      (history capacity actions).filterMap (Entry.accepted? p) =
        removed.map (·.1) ++ (q.queue p).contents capacity ∧
      (history capacity actions).filterMap (Entry.popped? p) =
        (removed.filter (·.2)).map (·.1) ∧
      (history capacity actions).filterMap (Entry.cleared? p) =
        (removed.filter (!·.2)).map (·.1)) ∧
    (∀ t, ∃ done pending, ofThread t (history capacity actions) = done ++ pending ∧
      Finished t done ∧ Unfinished t pending (q.calls t)) ∧
    (∀ action q', q.next capacity action = some q' →
      (∀ p msg, .popped p msg ∈ q.entries capacity action →
        (∃ rest, (q.queue p).contents capacity = msg :: rest) ∧
          ∀ p', p < p' → (q.queue p').contents capacity = []) ∧
      ((∀ p, (q.entries capacity action).filterMap (Entry.accepted? p) = [] ∧
        (q.entries capacity action).filterMap (Entry.removed? p) = []) → q'.queue = q.queue)) ∧
    ∀ t, q.calls t ≠ .idle → (q.calls t).steps ≤ 8 ∧
      (∀ now, ∃ q', q.next capacity (.step t now) = some q' ∧
        (q'.calls t).steps < (q.calls t).steps) ∧
      ∀ action q', q.next capacity action = some q' → (∀ now, action ≠ .step t now) →
        q'.calls t = q.calls t := by
  rcases stored_of_runs runs with ⟨items, stored, history⟩
  refine ⟨fun p => ?_, fun p => ?_, finished_of_runs runs, fun action q' next => ⟨?_, ?_⟩,
    fun t notIdle => ⟨(q.calls t).steps_le, fun now => ?_,
      fun action q' next => next_calls notIdle next⟩⟩
  · rw [(stored p).count]
    exact ⟨(stored p).room, (stored p).write⟩
  · rw [(stored p).contents]
    exact ⟨_, history p, Entry.filterMap_popped p _, Entry.filterMap_cleared p _⟩
  · intro p msg mem
    simp only [fun p => (stored p).contents]
    rcases next_queue next with ⟨-, nothing⟩ | ⟨t, msg', -, -, accepted⟩ |
      ⟨p', msg', found, front, -, popped⟩ | ⟨-, cleared⟩
    · have none_ := List.filterMap_eq_nil_iff.mp (nothing p).2 _ mem
      simp [Entry.removed?] at none_
    · simp [accepted] at mem
    · rw [popped, List.mem_singleton] at mem
      cases mem
      exact stored.popped found front
    · simp [cleared, clearEntries] at mem
  · exact next_queue_of_nothing stored next
  · rcases exists_callStep notIdle now with ⟨q', next⟩
    exact ⟨q', next, callStep_steps next⟩

/-- Two messages fill the queue, so that a third one is refused, and so is a fourth one before the
queue goes on.  After the first message is taken, the next one is stored at the position 0, and
all are removed. -/
def refusedAndCleared : List (QueueAction Bool ℕ) :=
  let steps (t : Thread Bool) := List.replicate 8 (QueueAction.step t 5)
  let push (event : ℕ) (count : ℕ) :=
    .call (.other true) (.push ⟨event, 1, 0, 0⟩) :: (steps (.other true)).take count
  push 10 5 ++ push 11 5 ++ push 12 8 ++ push 13 2 ++
    .call (.other false) .resume :: (steps (.other false)).take 2 ++
    List.replicate 6 (.execute 5) ++ push 14 5 ++
    .call (.other false) .clear :: (steps (.other false)).take 1

theorem refusedAndCleared_history :
    ∃ q, (machine 2).Runs refusedAndCleared q ∧ (q.queue 1).write = 1 ∧
      (∃ removed : List (Message ℕ × Bool),
        (history 2 refusedAndCleared).filterMap (Entry.accepted? 1) =
          removed.map (·.1) ++ (q.queue 1).contents 2 ∧
        [⟨10, 1, 0, 5⟩] = (removed.filter (·.2)).map (·.1) ∧
        [⟨11, 1, 0, 5⟩, ⟨14, 1, 0, 5⟩] = (removed.filter (!·.2)).map (·.1)) ∧
      ∃ done pending, ofThread (.other true) (history 2 refusedAndCleared) = done ++ pending ∧
        Finished (.other true) done ∧ Unfinished (.other true) pending (q.calls (.other true)) := by
  rcases (⟨_, rfl, rfl⟩ : ∃ q, (machine 2).run init refusedAndCleared = some q ∧
    (q.queue 1).write = 1) with ⟨q, run, write⟩
  have runs := Machine.runs_of_run run
  rcases posixEventQueue_history runs with ⟨-, kept, calls, -⟩
  exact ⟨q, runs, write, kept 1, calls (.other true)⟩

end PosixEventQueue

end CmsisStream.Runtime
