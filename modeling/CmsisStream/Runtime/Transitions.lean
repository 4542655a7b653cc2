import CmsisStream.Runtime.Threads

/-!
# Steps of the threads

What an action can do to the threads, whatever the event queues hold.
-/

namespace CmsisStream.Runtime

variable {κ : Type}

/-- A step of the application in a function of the runtime -/
inductive Control.ApplicationStep (length : κ → ℕ) (s : Control κ) : Control κ → Prop
  | queuePaused (pc : s.application = .pauseQueue .pauseScheduler)
      (long : 0 < length s.current_context) :
      ApplicationStep length s { s with application := .postStreamPause false }
  | queuePausedOnly (pc : s.application = .pauseQueue .pauseScheduler)
      (short : length s.current_context = 0) :
      ApplicationStep length s { s with application := .waitEventPaused }
  | streamFailedReturns (pc : s.application = .pauseQueue .streamFailed) :
      ApplicationStep length s { s with application := .outside (.resumed false) }
  | eventFailedPauses (pc : s.application = .pauseQueue .eventFailed)
      (long : 0 < length s.current_context) :
      ApplicationStep length s { s with application := .postStreamPause true }
  | eventFailedReturns (pc : s.application = .pauseQueue .eventFailed)
      (short : length s.current_context = 0) :
      ApplicationStep length s { s with application := .outside (.resumed false) }
  | postStreamPause {resuming : Bool} (pc : s.application = .postStreamPause resuming) :
      ApplicationStep length s { s with
        cg_streamEvent := s.cg_streamEvent.post [.streamPause]
        application := .waitStreamPaused resuming }
  | streamPaused (pc : s.application = .waitStreamPaused false)
      (set : s.cg_streamReplyEvent.isSet .streamPaused = true) :
      ApplicationStep length s { s with
        cg_streamReplyEvent := s.cg_streamReplyEvent.clear [.streamPaused]
        application := .waitEventPaused }
  | streamPausedReturns (pc : s.application = .waitStreamPaused true)
      (set : s.cg_streamReplyEvent.isSet .streamPaused = true) :
      ApplicationStep length s { s with
        cg_streamReplyEvent := s.cg_streamReplyEvent.clear [.streamPaused]
        application := .outside (.resumed false) }
  | eventPaused (pc : s.application = .waitEventPaused)
      (set : s.cg_streamReplyEvent.isSet .eventPaused = true) :
      ApplicationStep length s { s with
        cg_streamReplyEvent := s.cg_streamReplyEvent.clear [.eventPaused]
        application := .clearQueue }
  | queueCleared (pc : s.application = .clearQueue) :
      ApplicationStep length s { s with application := .outside .paused }
  | setContext {c : κ} (pc : s.application = .setContext c) :
      ApplicationStep length s { s with
        current_context := c
        application := .resumeQueue
        history := { s.history with resumed := true, ready := none } }
  | queueResumed (pc : s.application = .resumeQueue) :
      ApplicationStep length s { s with application := .postStreamResume }
  | postStreamResume (pc : s.application = .postStreamResume) :
      ApplicationStep length s { s with
        cg_streamEvent := s.cg_streamEvent.post [.streamResume]
        application := .waitStreamResumed
        history := { s.history with
          streamLeft := false, eventLeft := false,
          streamPausedAgain := false, eventPausedAgain := false } }
  | streamFailed (pc : s.application = .waitStreamResumed)
      (set : s.cg_streamReplyEvent.isSet .streamPaused = true) :
      ApplicationStep length s { s with
        cg_streamReplyEvent := s.cg_streamReplyEvent.clear [.streamResumed, .streamPaused]
        application := .pauseQueue .streamFailed
        history := { s.history with failedFresh := s.history.streamPausedAgain } }
  | streamResumed (pc : s.application = .waitStreamResumed)
      (set : s.cg_streamReplyEvent.isSet .streamResumed = true)
      (unset : s.cg_streamReplyEvent.isSet .streamPaused = false) :
      ApplicationStep length s { s with
        cg_streamReplyEvent := s.cg_streamReplyEvent.clear [.streamResumed, .streamPaused]
        application := .postEventResume }
  | postEventResume (pc : s.application = .postEventResume) :
      ApplicationStep length s { s with
        cg_streamEvent := s.cg_streamEvent.post [.eventResume]
        application := .waitEventResumed }
  | eventFailed (pc : s.application = .waitEventResumed)
      (set : s.cg_streamReplyEvent.isSet .eventPaused = true) :
      ApplicationStep length s { s with
        cg_streamReplyEvent := s.cg_streamReplyEvent.clear [.eventResumed, .eventPaused]
        application := .pauseQueue .eventFailed
        history := { s.history with failedFresh := s.history.eventPausedAgain } }
  | eventResumed (pc : s.application = .waitEventResumed)
      (set : s.cg_streamReplyEvent.isSet .eventResumed = true)
      (unset : s.cg_streamReplyEvent.isSet .eventPaused = false) :
      ApplicationStep length s { s with
        cg_streamReplyEvent := s.cg_streamReplyEvent.clear [.eventResumed, .eventPaused]
        application := .clearPaused }
  | clearPaused (pc : s.application = .clearPaused) :
      ApplicationStep length s { s with
        cg_streamReplyEvent := s.cg_streamReplyEvent.clear [.streamPaused, .eventPaused]
        application := .outside (.resumed true) }

/-- A step of the stream thread, and what a node can return -/
inductive Control.StreamStep (length : κ → ℕ) (s : Control κ) : Control κ → Prop
  | streamLoad (pc : s.stream = .loadContext) :
      StreamStep length s { s with stream := .callScheduler s.current_context }
  | callScheduler {c : κ} (pc : s.stream = .callScheduler c) (long : 0 < length c) :
      StreamStep length s { s with
        stream := .beforeNode c, history := { s.history with reset := none } }
  | callNoScheduler {c : κ} (pc : s.stream = .callScheduler c) (short : length c = 0) :
      StreamStep length s { s with
        stream := .waitResume, history := { s.history with reset := none } }
  | mustPause {c : κ} (pc : s.stream = .beforeNode c)
      (set : s.cg_streamEvent.isSet .streamPause = true) :
      StreamStep length s { s with
        cg_streamEvent := s.cg_streamEvent.clear [.streamPause], stream := .pauseNodes c true }
  | callNode {c : κ} (pc : s.stream = .beforeNode c)
      (unset : s.cg_streamEvent.isSet .streamPause = false) :
      StreamStep length s { s with stream := .node c }
  | nodeSucceeds {c : κ} (pc : s.stream = .node c) :
      StreamStep length s { s with stream := .beforeNode c }
  | nodeEnds {c : κ} (pc : s.stream = .node c) :
      StreamStep length s { s with stream := .finished }
  | nodeFails {c : κ} (pc : s.stream = .node c) :
      StreamStep length s { s with stream := .pauseQueue c }
  | streamQueuePaused {c : κ} (pc : s.stream = .pauseQueue c) :
      StreamStep length s { s with stream := .pauseNodes c false }
  | streamPauseNodes {c : κ} (pc : s.stream = .pauseNodes c true) :
      StreamStep length s { s with stream := .postPaused }
  | streamPauseFailedNodes {c : κ} (pc : s.stream = .pauseNodes c false) :
      StreamStep length s { s with stream := .waitEventPaused }
  | streamEventPaused (pc : s.stream = .waitEventPaused)
      (set : s.cg_streamReplyEvent.isSet .eventPaused = true) :
      StreamStep length s { s with
        cg_streamReplyEvent := s.cg_streamReplyEvent.clear [.eventPaused], stream := .postPaused }
  | streamPostPaused (pc : s.stream = .postPaused) :
      StreamStep length s { s with
        cg_streamReplyEvent := s.cg_streamReplyEvent.post [.streamPaused]
        stream := .waitResume
        history := { s.history with streamPausedAgain := true } }
  | streamWakes (pc : s.stream = .waitResume)
      (set : s.cg_streamEvent.isSet .streamResume = true) :
      StreamStep length s { s with
        cg_streamEvent := s.cg_streamEvent.clear [.streamResume]
        stream := .loadResumed
        history := { s.history with streamLeft := true } }
  | streamLoadResumed (pc : s.stream = .loadResumed) :
      StreamStep length s { s with stream := .resetFifos s.current_context }
  | resetFifos {c : κ} (pc : s.stream = .resetFifos c) :
      StreamStep length s { s with
        stream := .resumeNodes c, history := { s.history with reset := some c } }
  | resumeNodes {c : κ} (pc : s.stream = .resumeNodes c) :
      StreamStep length s { s with
        stream := .postResumed, history := { s.history with ready := some c } }
  | streamPostResumed (pc : s.stream = .postResumed) :
      StreamStep length s { s with
        cg_streamReplyEvent := s.cg_streamReplyEvent.post [.streamResumed]
        stream := .loadContext }

/-- A step of the event thread outside of `execute` -/
inductive Control.EventStep (length : κ → ℕ) (s : Control κ) : Control κ → Prop
  | eventLoad (pc : s.event = .loadContext) :
      EventStep length s { s with event := .execute s.current_context }
  | eventReturns {c : κ} (pc : s.event = .execute c) :
      EventStep length s { s with event := .executed c }
  | eventEnds {c : κ} (pc : s.event = .executed c) :
      EventStep length s { s with event := .finished }
  | eventGoesOn {c : κ} (pc : s.event = .executed c) :
      EventStep length s { s with event := .consumeError c }
  | eventError {c : κ} (pc : s.event = .consumeError c) (long : 0 < length c) :
      EventStep length s { s with event := .postStreamPause }
  | eventNoError {c : κ} (pc : s.event = .consumeError c) (long : 0 < length c) :
      EventStep length s { s with event := .postPaused }
  | eventConsumed {c : κ} (pc : s.event = .consumeError c) (short : length c = 0) :
      EventStep length s { s with event := .pauseNodes c }
  | eventPostStreamPause (pc : s.event = .postStreamPause) :
      EventStep length s { s with
        cg_streamEvent := s.cg_streamEvent.post [.streamPause], event := .waitStreamPaused }
  | eventStreamPaused (pc : s.event = .waitStreamPaused)
      (set : s.cg_streamReplyEvent.isSet .streamPaused = true) :
      EventStep length s { s with
        cg_streamReplyEvent := s.cg_streamReplyEvent.clear [.streamPaused], event := .postPaused }
  | eventPauseNodes {c : κ} (pc : s.event = .pauseNodes c) :
      EventStep length s { s with event := .postPaused }
  | eventPostPaused (pc : s.event = .postPaused) :
      EventStep length s { s with
        cg_streamReplyEvent := s.cg_streamReplyEvent.post [.eventPaused]
        event := .waitResume
        history := { s.history with eventPausedAgain := true } }
  | eventWakes (pc : s.event = .waitResume) (set : s.cg_streamEvent.isSet .eventResume = true) :
      EventStep length s { s with
        cg_streamEvent := s.cg_streamEvent.clear [.eventResume]
        event := .postResumed
        history := { s.history with eventLeft := true } }
  | eventPostResumed (pc : s.event = .postResumed) :
      EventStep length s { s with
        cg_streamReplyEvent := s.cg_streamReplyEvent.post [.eventResumed]
        event := .loadContext }

namespace Control

variable {length : κ → ℕ} {s s' : Control κ}

theorem ApplicationStep.frame (step : ApplicationStep length s s') :
    s'.stream = s.stream ∧ s'.event = s.event := by
  cases step <;> exact ⟨rfl, rfl⟩

theorem StreamStep.frame (step : StreamStep length s s') :
    s'.application = s.application ∧ s'.event = s.event ∧
      s'.current_context = s.current_context := by
  cases step <;> exact ⟨rfl, rfl, rfl⟩

theorem EventStep.frame (step : EventStep length s s') :
    s'.application = s.application ∧ s'.stream = s.stream ∧
      s'.current_context = s.current_context := by
  cases step <;> exact ⟨rfl, rfl, rfl⟩

end Control

/-- What an action can do to the threads. -/
def Control.Moves {ρ ι ε : Type} (length : κ → ℕ) (s s' : Control κ) : Action κ ρ ι ε → Prop
  | .pause => (∃ last, s.application = .outside last) ∧
      s' = { s with application := .pauseQueue .pauseScheduler }
  | .resume c => (∃ last, s.application = .outside last) ∧
      s' = { s with application := .setContext c }
  | .application => s.ApplicationStep length s'
  | .stream | .node _ => s.StreamStep length s'
  | .event => s.EventStep length s'
  | .queue _ _ => s' = s

/-- The lengths of the schedules of the contexts -/
abbrev schedulerLength {ρ : Type} (contexts : κ → ExecutionContext ρ) (c : κ) : ℕ :=
  (contexts c).scheduler_length

namespace Threads

variable {ρ ι ε : Type} [DecidableEq ρ] [DecidableEq ι] {contexts : κ → ExecutionContext ρ}
  {capacity : ℕ} {s s' : Threads κ ρ ι ε}

theorem applicationStep_control (step : s.applicationStep contexts = some s') :
    s.toControl.ApplicationStep (schedulerLength contexts) s'.toControl := by
  cases pc : s.application with
  | outside last => simp [applicationStep, pc] at step
  | pauseQueue reason =>
      simp only [applicationStep, pc] at step
      split at step
      · cases step
        rcases Nat.eq_zero_or_pos (contexts s.current_context).scheduler_length with short | long
        · cases reason with
          | pauseScheduler =>
              simpa [PauseReason.next, short] using
                Control.ApplicationStep.queuePausedOnly pc short
          | streamFailed => exact .streamFailedReturns pc
          | eventFailed =>
              simpa [PauseReason.next, short] using
                Control.ApplicationStep.eventFailedReturns pc
                  short
        · cases reason with
          | pauseScheduler =>
              simpa [PauseReason.next, long] using
                Control.ApplicationStep.queuePaused pc long
          | streamFailed => exact .streamFailedReturns pc
          | eventFailed =>
              simpa [PauseReason.next, long] using
                Control.ApplicationStep.eventFailedPauses pc long
      · cases step
  | postStreamPause resuming =>
      simp only [applicationStep, pc] at step
      cases step
      exact .postStreamPause pc
  | waitStreamPaused resuming =>
      simp only [applicationStep, pc] at step
      rcases Option.map_eq_some_iff.mp step with ⟨⟨res, flags⟩, waited, rfl⟩
      rcases EventFlags.wait_singleton_eq_some waited with ⟨set, rfl⟩
      cases resuming with
      | false => exact .streamPaused pc set
      | true => exact .streamPausedReturns pc set
  | waitEventPaused =>
      simp only [applicationStep, pc] at step
      rcases Option.map_eq_some_iff.mp step with ⟨⟨res, flags⟩, waited, rfl⟩
      rcases EventFlags.wait_singleton_eq_some waited with ⟨set, rfl⟩
      exact .eventPaused pc set
  | clearQueue =>
      simp only [applicationStep, pc] at step
      split at step <;> cases step
      exact .queueCleared pc
  | setContext c =>
      simp only [applicationStep, pc] at step
      cases step
      exact .setContext pc
  | resumeQueue =>
      simp only [applicationStep, pc] at step
      split at step <;> cases step
      exact .queueResumed pc
  | postStreamResume =>
      simp only [applicationStep, pc] at step
      cases step
      exact .postStreamResume pc
  | waitStreamResumed =>
      simp only [applicationStep, pc] at step
      rcases Option.map_eq_some_iff.mp step with ⟨⟨res, flags⟩, waited, rfl⟩
      rcases EventFlags.wait_eq_some waited with ⟨⟨f, mem, set⟩, res_iff, rfl⟩
      have paused := res_iff .streamPaused
      split
      · rename_i failed
        exact .streamFailed pc (paused.mp failed).2
      · rename_i resumed
        have unset : s.cg_streamReplyEvent.isSet .streamPaused = false :=
          Bool.eq_false_iff.mpr fun set => resumed (paused.mpr ⟨by simp, set⟩)
        refine .streamResumed pc ?_ unset
        rcases List.mem_cons.mp mem with rfl | mem
        · exact set
        · rw [List.mem_singleton.mp mem, unset] at set
          cases set
  | postEventResume =>
      simp only [applicationStep, pc] at step
      cases step
      exact .postEventResume pc
  | waitEventResumed =>
      simp only [applicationStep, pc] at step
      rcases Option.map_eq_some_iff.mp step with ⟨⟨res, flags⟩, waited, rfl⟩
      rcases EventFlags.wait_eq_some waited with ⟨⟨f, mem, set⟩, res_iff, rfl⟩
      have paused := res_iff .eventPaused
      split
      · rename_i failed
        exact .eventFailed pc (paused.mp failed).2
      · rename_i resumed
        have unset : s.cg_streamReplyEvent.isSet .eventPaused = false :=
          Bool.eq_false_iff.mpr fun set => resumed (paused.mpr ⟨by simp, set⟩)
        refine .eventResumed pc ?_ unset
        rcases List.mem_cons.mp mem with rfl | mem
        · exact set
        · rw [List.mem_singleton.mp mem, unset] at set
          cases set
  | clearPaused =>
      simp only [applicationStep, pc] at step
      cases step
      exact .clearPaused pc

omit [DecidableEq ρ] [DecidableEq ι] in
theorem streamStep_control (step : s.streamStep contexts = some s') :
    s.toControl.StreamStep (schedulerLength contexts) s'.toControl := by
  cases pc : s.stream with
  | node c | finished =>
      simp only [streamStep, pc] at step
      cases step
  | loadContext =>
      simp only [streamStep, pc] at step
      cases step
      exact .streamLoad pc
  | callScheduler c =>
      simp only [streamStep, pc] at step
      cases step
      rcases Nat.eq_zero_or_pos (contexts c).scheduler_length with short | long
      · simpa [short] using
          Control.StreamStep.callNoScheduler pc short
      · simpa [Nat.ne_of_gt long] using
          Control.StreamStep.callScheduler pc long
  | beforeNode c =>
      simp only [streamStep, pc] at step
      split at step
      · rename_i waited
        cases step
        rcases EventFlags.wait_singleton_eq_some waited with ⟨set, rfl⟩
        exact .mustPause pc set
      · rename_i waited
        cases step
        exact .callNode pc (EventFlags.wait_singleton_eq_none waited)
  | pauseQueue c =>
      simp only [streamStep, pc] at step
      split at step <;> cases step
      exact .streamQueuePaused pc
  | pauseNodes c requested =>
      simp only [streamStep, pc] at step
      split at step <;> cases step
      cases requested with
      | false => exact .streamPauseFailedNodes pc
      | true => exact .streamPauseNodes pc
  | waitEventPaused =>
      simp only [streamStep, pc] at step
      rcases Option.map_eq_some_iff.mp step with ⟨⟨res, flags⟩, waited, rfl⟩
      rcases EventFlags.wait_singleton_eq_some waited with ⟨set, rfl⟩
      exact .streamEventPaused pc set
  | postPaused =>
      simp only [streamStep, pc] at step
      cases step
      exact .streamPostPaused pc
  | waitResume =>
      simp only [streamStep, pc] at step
      rcases Option.map_eq_some_iff.mp step with ⟨⟨res, flags⟩, waited, rfl⟩
      rcases EventFlags.wait_singleton_eq_some waited with ⟨set, rfl⟩
      exact .streamWakes pc set
  | loadResumed =>
      simp only [streamStep, pc] at step
      cases step
      exact .streamLoadResumed pc
  | resetFifos c =>
      simp only [streamStep, pc] at step
      cases step
      exact .resetFifos pc
  | resumeNodes c =>
      simp only [streamStep, pc] at step
      split at step <;> cases step
      exact .resumeNodes pc
  | postResumed =>
      simp only [streamStep, pc] at step
      cases step
      exact .streamPostResumed pc

theorem nodeStep_control {status : NodeStatus} (step : s.nodeStep contexts status = some s') :
    s.toControl.StreamStep (schedulerLength contexts) s'.toControl := by
  simp only [nodeStep] at step
  split at step
  · rename_i c pc
    split at step
    · cases status with
      | success =>
          cases step
          exact .nodeSucceeds pc
      | last =>
          cases step
          exact .nodeEnds pc
      | error | stop =>
          cases step
          exact .nodeFails pc
    · cases step
  · cases step

omit [DecidableEq ι] in
theorem eventStep_control (step : s.eventStep contexts = some s') :
    s.toControl.EventStep (schedulerLength contexts) s'.toControl := by
  cases pc : s.event with
  | finished =>
      simp only [eventStep, pc] at step
      cases step
  | loadContext =>
      simp only [eventStep, pc] at step
      cases step
      exact .eventLoad pc
  | execute c =>
      simp only [eventStep, pc] at step
      split at step <;> cases step
      exact .eventReturns pc
  | executed c =>
      simp only [eventStep, pc] at step
      cases step
      split
      · exact .eventEnds pc
      · exact .eventGoesOn pc
  | consumeError c =>
      simp only [eventStep, pc] at step
      rcases Nat.eq_zero_or_pos (contexts c).scheduler_length with short | long
      · simp only [short, lt_irrefl, ↓reduceIte] at step
        split at step <;> cases step <;> exact .eventConsumed pc short
      · simp only [long, Nat.ne_of_gt long, ↓reduceIte] at step
        split at step <;> cases step
        · exact .eventError pc long
        · exact .eventNoError pc long
  | postStreamPause =>
      simp only [eventStep, pc] at step
      cases step
      exact .eventPostStreamPause pc
  | waitStreamPaused =>
      simp only [eventStep, pc] at step
      rcases Option.map_eq_some_iff.mp step with ⟨⟨res, flags⟩, waited, rfl⟩
      rcases EventFlags.wait_singleton_eq_some waited with ⟨set, rfl⟩
      exact .eventStreamPaused pc set
  | pauseNodes c =>
      simp only [eventStep, pc] at step
      split at step <;> cases step
      exact .eventPauseNodes pc
  | postPaused =>
      simp only [eventStep, pc] at step
      cases step
      exact .eventPostPaused pc
  | waitResume =>
      simp only [eventStep, pc] at step
      rcases Option.map_eq_some_iff.mp step with ⟨⟨res, flags⟩, waited, rfl⟩
      rcases EventFlags.wait_singleton_eq_some waited with ⟨set, rfl⟩
      exact .eventWakes pc set
  | postResumed =>
      simp only [eventStep, pc] at step
      cases step
      exact .eventPostResumed pc

/-- What an action does to the threads. -/
theorem next_control {a : Action κ ρ ι ε} (step : s.next contexts capacity a = some s') :
    s.toControl.Moves (schedulerLength contexts) s'.toControl a := by
  cases a with
  | pause | resume =>
      simp only [next] at step
      split at step
      · rename_i last outside
        cases step
        exact ⟨⟨last, outside⟩, rfl⟩
      · cases step
  | application => exact applicationStep_control step
  | stream => exact streamStep_control step
  | event => exact eventStep_control step
  | node status => exact nodeStep_control step
  | queue r action =>
      simp only [next] at step
      split at step
      · rcases Option.map_eq_some_iff.mp step with ⟨q, -, rfl⟩
        rfl
      · cases step

/-- Only the stream thread moves the stream thread. -/
theorem next_stream {a : Action κ ρ ι ε} (step : s.next contexts capacity a = some s') :
    s'.stream = s.stream ∨ a = .stream ∨ ∃ status, a = .node status := by
  have control := next_control step
  cases a with
  | pause | resume => exact .inl (control.2 ▸ rfl)
  | application => exact .inl (Control.ApplicationStep.frame control).1
  | event => exact .inl (Control.EventStep.frame control).2.1
  | queue => exact .inl (control ▸ rfl)
  | stream => exact .inr (.inl rfl)
  | node status => exact .inr (.inr ⟨status, rfl⟩)

/-- Only the event thread moves the event thread. -/
theorem next_event {a : Action κ ρ ι ε} (step : s.next contexts capacity a = some s') :
    s'.event = s.event ∨ a = .event := by
  have control := next_control step
  cases a with
  | pause | resume => exact .inl (control.2 ▸ rfl)
  | application => exact .inl (Control.ApplicationStep.frame control).2
  | stream | node => exact .inl (Control.StreamStep.frame control).2.1
  | queue => exact .inl (control ▸ rfl)
  | event => exact .inr rfl

end Threads

end CmsisStream.Runtime
