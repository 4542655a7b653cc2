import CmsisStream.Runtime.QueueHistory

/-!
# No lost wake-up of the event thread

The reasons to leave `waitEvent` are tested before it is entered.  What becomes true after its
test is followed by a call of `notifyQueue`, which the event thread has not yet consumed.
-/

namespace CmsisStream.Runtime

namespace PosixEventQueue

variable {ι ε : Type} {capacity : ℕ} {q q' : PosixEventQueue ι ε}

/-- The event thread is notified, or a thread has still to do it for a given reason. -/
def Notified (q : PosixEventQueue ι ε) (reason : Call ε → Prop) : Prop :=
  q.event_ = true ∨ ∃ t, reason (q.calls t)

/-- A thread has stored a message, and has still to call `notifyQueue` in `push`. -/
def Pushed (msg : Message ε) (call : Call ε) : Prop :=
  ∃ sent now, call = .pushNotify sent true ∧ msg = sent.stamp now

/-- A thread has stored `mustPause_`, and has still to call `notifyQueue`. -/
def Paused (call : Call ε) : Prop := ∃ refused, call = .pauseNotify refused

/-- A thread has stored `mustEnd_`, and has still to call `notifyQueue`. -/
def Ended (call : Call ε) : Prop := call = .endNotify

/-- The next step of the thread is `notifyQueue`. -/
inductive Notifies : Call ε → Prop
  | push (msg : Message ε) (ok : Bool) : Notifies (.pushNotify msg ok)
  | pause (refused : Option (Message ε)) : Notifies (.pauseNotify refused)
  | endQueue : Notifies .endNotify

theorem Pushed.notifies {msg : Message ε} {call : Call ε} (pushed : Pushed msg call) :
    Notifies call := by
  rcases pushed with ⟨sent, now, rfl, -⟩
  exact .push sent true

theorem Paused.notifies {call : Call ε} (paused : Paused call) : Notifies call := by
  rcases paused with ⟨refused, rfl⟩
  exact .pause refused

theorem Ended.notifies {call : Call ε} (ended : Ended call) : Notifies call := by
  rw [ended]
  exact .endQueue

def MessagesNotified (capacity : ℕ) (q : PosixEventQueue ι ε) : Prop :=
  ∀ p, ∀ msg ∈ (q.queue p).contents capacity, q.Notified (Pushed msg)

def PauseNotified (q : PosixEventQueue ι ε) : Prop := q.mustPause = true → q.Notified Paused

def EndNotified (q : PosixEventQueue ι ε) : Prop := q.mustEnd = true → q.Notified Ended

/-- What the event thread has tested before `waitEvent` can change with a notification only. -/
def WakesUp (capacity : ℕ) (q : PosixEventQueue ι ε) : Prop :=
  match q.execute with
  | .leaveTestEnd => q.mustEnd = true ∨ q.mustPause = true ∨ q.MessagesNotified capacity
  | .leaveTestPause => q.EndNotified ∧ (q.mustPause = true ∨ q.MessagesNotified capacity)
  | .waitEvent => q.EndNotified ∧ q.PauseNotified ∧ q.MessagesNotified capacity
  | _ => True

/-! ## Steps of the threads around the event thread -/

variable [DecidableEq ι] {t : Thread ι} {now : Codec.Word 4}

/-- A thread which is not in a function has nothing to notify. -/
theorem Notified.call {reason : Call ε → Prop} (notified : q.Notified reason)
    (notifies : ∀ call, reason call → Notifies call) (idle : q.calls t = .idle)
    (call : Call ε) : (q.setCall t call).Notified reason := by
  rcases notified with set | ⟨t', pending⟩
  · exact .inl set
  · right
    have other : t' ≠ t := by
      rintro rfl
      rw [idle] at pending
      exact nomatch notifies _ pending
    exact ⟨t', (setCall_of_ne q other call).symm ▸ pending⟩

theorem WakesUp.call (wakes : q.WakesUp capacity) (idle : q.calls t = .idle)
    (call : Call ε) : (q.setCall t call).WakesUp capacity := by
  have messages (notified : q.MessagesNotified capacity) :
      (q.setCall t call).MessagesNotified capacity := fun p msg mem =>
    (notified p msg mem).call (fun _ => Pushed.notifies) idle call
  have pause (notified : q.PauseNotified) : (q.setCall t call).PauseNotified := fun set =>
    (notified set).call (fun _ => Paused.notifies) idle call
  have ended (notified : q.EndNotified) : (q.setCall t call).EndNotified := fun set =>
    (notified set).call (fun _ => Ended.notifies) idle call
  unfold WakesUp at wakes ⊢
  simp only [setCall]
  split at wakes
  · exact wakes.imp id (Or.imp id messages)
  · exact ⟨ended wakes.1, wakes.2.imp id messages⟩
  · exact ⟨ended wakes.1, pause wakes.2.1, messages wakes.2.2⟩
  · trivial

/-- What a step of a function other than `resume` can do. -/
theorem callStep_flags (next : q.callStep capacity t now = some q')
    (resume : q.calls t ≠ .resumeStore) :
    q'.execute = q.execute ∧
    (q'.event_ = q.event_ ∨ q'.event_ = true) ∧
    (q'.mustPause = q.mustPause ∨ (q'.mustPause = true ∧ Paused (q'.calls t))) ∧
    (q'.mustEnd = q.mustEnd ∨ (q'.mustEnd = true ∧ Ended (q'.calls t))) ∧
    (Notifies (q.calls t) → q'.event_ = true) := by
  cases call : q.calls t with
  | idle =>
      simp only [callStep, call] at next
      cases next
  | resumeStore => exact absurd call resume
  | pushLocked msg =>
      simp only [callStep, call] at next
      split at next <;> cases next <;>
        exact ⟨rfl, .inl rfl, .inl rfl, .inl rfl, by rintro ⟨⟩⟩
  | pauseStore refused =>
      simp only [callStep, call] at next
      cases next
      exact ⟨rfl, .inl rfl, .inr ⟨rfl, refused, setCall_self ..⟩, .inl rfl,
        by rintro ⟨⟩⟩
  | endStore =>
      simp only [callStep, call] at next
      cases next
      exact ⟨rfl, .inl rfl, .inl rfl, .inr ⟨rfl, setCall_self ..⟩,
        by rintro ⟨⟩⟩
  | pauseNotify _ | pushNotify _ _ | endNotify =>
      simp only [callStep, call] at next
      cases next
      exact ⟨rfl, .inr rfl, .inl rfl, .inl rfl, fun _ => rfl⟩
  | _ =>
      simp only [callStep, call] at next
      cases next
      exact ⟨rfl, .inl rfl, .inl rfl, .inl rfl, by rintro ⟨⟩⟩

/-- A pending notification stays pending until it is made. -/
theorem Notified.callStep {reason : Call ε → Prop} (notified : q.Notified reason)
    (notifies : ∀ call, reason call → Notifies call)
    (next : q.callStep capacity t now = some q') (resume : q.calls t ≠ .resumeStore) :
    q'.Notified reason := by
  rcases callStep_flags next resume with ⟨-, event, -, -, notify⟩
  rcases notified with set | ⟨t', pending⟩
  · left
    rcases event with same | set'
    · rw [same, set]
    · exact set'
  · by_cases same : t' = t
    · subst same
      exact .inl (notify (notifies _ pending))
    · right
      exact ⟨t', (callStep_other same next).symm ▸ pending⟩

/-- A message stored after a step was there, or its thread has still to notify it. -/
theorem callStep_contents {items : Fin 3 → List (Message ε)} (stored : q.Stored capacity items)
    (next : q.callStep capacity t now = some q') (p : Fin 3) {msg : Message ε}
    (mem : msg ∈ (q'.queue p).contents capacity) :
    msg ∈ (q.queue p).contents capacity ∨ Pushed msg (q'.calls t) := by
  cases call : q.calls t with
  | idle =>
      simp only [PosixEventQueue.callStep, call] at next
      cases next
  | pushLocked sent =>
      simp only [PosixEventQueue.callStep, call] at next
      split at next <;> rename_i room <;> cases next
      · by_cases same : p = sent.level
        · subst same
          have holds := (stored sent.level).push ((stored sent.level).count ▸ room)
            (sent.stamp now)
          simp only [setCall, setQueue, Function.update_self] at mem
          rw [holds.contents, List.mem_append, List.mem_singleton] at mem
          rcases mem with old | rfl
          · exact .inl ((stored sent.level).contents.symm ▸ old)
          · exact .inr ⟨sent, now, setCall_self .., rfl⟩
        · left
          simpa only [setCall, setQueue, Function.update_of_ne same] using mem
      · exact .inl mem
  | clear =>
      simp only [PosixEventQueue.callStep, call] at next
      cases next
      simp only [setCall] at mem
      rw [(stored p).clear.contents] at mem
      cases mem
  | _ =>
      left
      simp only [PosixEventQueue.callStep, call] at next
      cases next
      exact mem

section

variable {items : Fin 3 → List (Message ε)} (stored : q.Stored capacity items)
  (next : q.callStep capacity t now = some q') (resume : q.calls t ≠ .resumeStore)

include stored next resume

theorem MessagesNotified.callStep (messages : q.MessagesNotified capacity) :
    q'.MessagesNotified capacity := by
  intro p msg mem
  rcases callStep_contents stored next p mem with old | pushed
  · exact (messages p msg old).callStep (fun _ => Pushed.notifies) next resume
  · exact .inr ⟨t, pushed⟩

omit stored in
theorem PauseNotified.callStep (pause : q.PauseNotified) : q'.PauseNotified := by
  intro set
  rcases callStep_flags next resume with ⟨-, -, same | ⟨-, paused⟩, -, -⟩
  · exact (pause (same ▸ set)).callStep (fun _ => Paused.notifies) next resume
  · exact .inr ⟨t, paused⟩

omit stored in
theorem EndNotified.callStep (ended : q.EndNotified) : q'.EndNotified := by
  intro set
  rcases callStep_flags next resume with ⟨-, -, -, same | ⟨-, ended'⟩, -⟩
  · exact (ended (same ▸ set)).callStep (fun _ => Ended.notifies) next resume
  · exact .inr ⟨t, ended'⟩

theorem WakesUp.callStep (wakes : q.WakesUp capacity) : q'.WakesUp capacity := by
  rcases callStep_flags next resume with ⟨execute, -, pause, ended, -⟩
  have pauseStays : q.mustPause = true → q'.mustPause = true := by
    rcases pause with same | ⟨set, -⟩
    · exact fun was => same ▸ was
    · exact fun _ => set
  have endStays : q.mustEnd = true → q'.mustEnd = true := by
    rcases ended with same | ⟨set, -⟩
    · exact fun was => same ▸ was
    · exact fun _ => set
  unfold WakesUp at wakes ⊢
  rw [execute]
  split at wakes
  · exact wakes.imp endStays
      (Or.imp pauseStays (MessagesNotified.callStep stored next resume))
  · exact ⟨wakes.1.callStep next resume,
      wakes.2.imp pauseStays (MessagesNotified.callStep stored next resume)⟩
  · exact ⟨wakes.1.callStep next resume, wakes.2.1.callStep next resume,
      wakes.2.2.callStep stored next resume⟩
  · trivial

end

/-! ## Steps of the event thread -/

omit [DecidableEq ι] in
/-- An empty queue has no message to be notified. -/
theorem messagesNotified_of_isEmpty (empty : q.isEmpty = true) : q.MessagesNotified capacity := by
  intro p msg mem
  have count : (q.queue p).count = 0 := by
    simp only [isEmpty, List.all_eq_true, beq_iff_eq] at empty
    exact empty p (List.mem_finRange p)
  simp [RingBuffer.contents, count] at mem

omit [DecidableEq ι] in
theorem WakesUp.executeStep (wakes : q.WakesUp capacity)
    (next : q.executeStep capacity now = some q') : q'.WakesUp capacity := by
  cases pc : q.execute with
  | innerTestEnd | innerTestPause =>
      simp only [PosixEventQueue.executeStep, pc] at next
      cases next
      split
      · rename_i set
        simp [WakesUp, set]
      · trivial
  | innerTestEmpty =>
      simp only [PosixEventQueue.executeStep, pc] at next
      cases next
      split
      · rename_i empty
        exact .inr (.inr (messagesNotified_of_isEmpty empty))
      · trivial
  | leaveTestEnd =>
      simp only [WakesUp, pc] at wakes
      simp only [PosixEventQueue.executeStep, pc] at next
      cases next
      split
      · trivial
      · rename_i unset
        exact ⟨fun set => absurd set unset, wakes.resolve_left unset⟩
  | leaveTestPause =>
      simp only [WakesUp, pc] at wakes
      simp only [PosixEventQueue.executeStep, pc] at next
      cases next
      split
      · trivial
      · rename_i unset
        exact ⟨wakes.1, fun set => absurd set unset, wakes.2.resolve_left unset⟩
  | pop =>
      simp only [PosixEventQueue.executeStep, pc] at next
      split at next
      · split at next <;> cases next
        trivial
      · cases next
        trivial
  | dispatch msg =>
      simp only [PosixEventQueue.executeStep, pc] at next
      cases next
  | reportError | waitEvent =>
      simp only [PosixEventQueue.executeStep, pc] at next
      split at next <;> cases next
      trivial
  | outerTestEnd | outerTestPause | testTtl _ =>
      simp only [PosixEventQueue.executeStep, pc] at next
      cases next
      split <;> trivial
  | returned =>
      simp only [PosixEventQueue.executeStep, pc] at next
      cases next
      trivial

/-! ## The whole run -/

/-- The threads do not call `resume`. -/
def NoResume (_ : PosixEventQueue ι ε) : QueueAction ι ε → Prop
  | .call _ .resume => False
  | _ => True

instance (q : PosixEventQueue ι ε) : (action : QueueAction ι ε) → Decidable (NoResume q action)
  | .call _ .resume => isFalse id
  | .call _ (.push _) | .call _ .pause | .call _ .endQueue | .call _ .clear => isTrue trivial
  | .step _ _ | .execute _ | .handled _ => isTrue trivial

theorem NoResume.calls {actions : List (QueueAction ι ε)}
    (path : (machine capacity).Path NoResume actions q) (t : Thread ι) :
    q.calls t ≠ .resumeStore := by
  refine path.invariant (p := fun q => q.calls t ≠ .resumeStore) (nofun) ?_
  intro q action q' never allow next
  change q.next capacity action = some q' at next
  cases action with
  | call t' operation =>
      rcases next_call next with ⟨-, rfl⟩
      by_cases same : t = t'
      · subst same
        rw [setCall_self]
        cases operation with
        | resume => exact absurd allow id
        | _ => nofun
      · rwa [setCall_of_ne _ same]
  | step t' now =>
      by_cases same : t = t'
      · subst same
        change q.callStep capacity t now = some q' at next
        cases call : q.calls t with
        | idle =>
            simp only [callStep, call] at next
            cases next
        | pushTestPause msg | pushTestEnd msg | pushLocked msg =>
            simp only [callStep, call] at next
            split at next <;> cases next <;> simp
        | pauseNotify refused =>
            simp only [callStep, call] at next
            cases next
            cases refused <;> simp
        | _ =>
            simp only [callStep, call] at next
            cases next
            simp
      · rwa [callStep_other same next]
  | execute now => rwa [executeStep_calls next]
  | handled success =>
      rcases next_handled next with ⟨-, -, rfl⟩
      split
      · exact never
      · by_cases same : t = .event
        · subst same
          simp
        · rwa [setCall_of_ne _ same]

theorem wakesUp_of_path {actions : List (QueueAction ι ε)}
    (path : (machine capacity).Path NoResume actions q) : q.WakesUp capacity := by
  induction path with
  | init => trivial
  | @step actions q q' action path allow next ih =>
      change q.next capacity action = some q' at next
      cases action with
      | call t operation =>
          rcases next_call next with ⟨idle, rfl⟩
          exact ih.call idle operation.start
      | step t now =>
          rcases stored_of_runs (path.mono fun _ _ _ => trivial) with ⟨items, stored, -⟩
          exact ih.callStep stored next (NoResume.calls path t)
      | execute now => exact ih.executeStep next
      | handled success =>
          rcases next_handled next with ⟨-, -, rfl⟩
          split <;> trivial

/-- When the event thread is blocked in `waitEvent`, a thread which has stored a message,
`mustPause_` or `mustEnd_` has still to call `notifyQueue`. -/
theorem waitEvent_no_lost_wakeUp {actions : List (QueueAction ι ε)}
    (path : (machine capacity).Path NoResume actions q) (waits : q.execute = .waitEvent)
    (blocked : q.event_ = false) :
    (∀ p, ∀ msg ∈ (q.queue p).contents capacity, ∃ t, Pushed msg (q.calls t)) ∧
    (q.mustPause = true → ∃ t, Paused (q.calls t)) ∧
    (q.mustEnd = true → ∃ t, Ended (q.calls t)) := by
  have wakes := wakesUp_of_path path
  simp only [WakesUp, waits, MessagesNotified, PauseNotified, EndNotified, Notified, blocked,
    Bool.false_eq_true, false_or] at wakes
  exact ⟨wakes.2.2, wakes.2.1, wakes.1⟩

/-- A message is stored when the event thread has found the queue empty. -/
def pushWhenWaiting : List (QueueAction Unit ℕ) :=
  [.execute 0, .execute 0, .execute 0, .execute 0, .execute 0, .execute 0, .execute 0,
    .call (.other ()) (.push ⟨7, 1, 0, 0⟩), .step (.other ()) 5, .step (.other ()) 5,
    .step (.other ()) 5]

theorem pushWhenWaiting_notifies : ∃ q, (machine 1).Path NoResume pushWhenWaiting q ∧
    ∃ t, Pushed ⟨7, 1, 0, 5⟩ (q.calls t) := by
  obtain ⟨q, run, waits, blocked, stored⟩ : ∃ q,
      ((machine 1).restrict NoResume).run init pushWhenWaiting = some q ∧
      q.execute = .waitEvent ∧ q.event_ = false ∧
      (q.queue 1).contents 1 = [⟨7, 1, 0, 5⟩] := ⟨_, rfl, rfl, rfl, rfl⟩
  have path := Machine.path_of_run run
  refine ⟨q, path, (waitEvent_no_lost_wakeUp path waits blocked).1 1 _ ?_⟩
  rw [stored]
  exact List.mem_singleton_self _

end PosixEventQueue

end CmsisStream.Runtime
