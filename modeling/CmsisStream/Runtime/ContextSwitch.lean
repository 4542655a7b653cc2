import CmsisStream.Runtime.Handshake

/-!
# Context switches

Before the stream thread calls the scheduler of a context which has just been resumed, it resets
the FIFOs and resumes the nodes of this context, and of no other one.  This fails only when the
stream thread is late: the pause of a context without schedule does not wait for it.
-/

namespace CmsisStream.Runtime

variable {κ : Type}

theorem StreamThread.quiet_iff {stream : StreamThread κ} : stream.quiet = true ↔
    stream = .loadContext ∨ stream = .waitResume ∨ ∃ c, stream = .callScheduler c := by
  cases stream <;> simp [quiet]

namespace Control

variable {length : κ → ℕ} {s s' : Control κ}

/-- What is true when the stream thread is about to call a scheduler. -/
structure CleanSwitch (s : Control κ) : Prop where
  same : ∀ c c', s.stream = .callScheduler c → s.history.reset = some c' → c' = c
  prepared : s.history.resumed = true → s.stream = .callScheduler s.current_context →
    s.history.reset = some s.current_context ∧ s.history.ready = some s.current_context

/-- The stream thread waits, or it is about to call a scheduler which returns at once. -/
def Parking (length : κ → ℕ) (s : Control κ) : Prop :=
  s.stream = .waitResume ∨ ∃ c, s.stream = .callScheduler c ∧ c ≠ s.current_context ∧ length c = 0

/-- The current context has been put back for the next call of its scheduler. -/
def Fresh (s : Control κ) : Prop :=
  s.history.ready = some s.current_context ∧
    (s.stream = .loadContext ∨ (∃ c, s.stream = .callScheduler c) →
      s.history.reset = some s.current_context)

/-- How the stream thread follows a context switch -/
structure SwitchSide (length : κ → ℕ) (s : Control κ) : Prop where
  parked : s.application = .resumeQueue ∨ s.application = .postStreamResume ∨
    s.cg_streamEvent.isSet .streamResume = true → s.Parking length
  switched : s.history.resumed = true → s.application.switching = false → s.Fresh
  answered : s.cg_streamReplyEvent.isSet .streamResumed = true → s.Fresh
  reset : ∀ c, s.history.reset = some c → s.stream = .callScheduler c ∨
    c = s.current_context ∧
      (s.stream = .resumeNodes c ∨ s.stream = .postResumed ∨ s.stream = .loadContext)
  nodes : ∀ c, s.stream = .resumeNodes c → s.history.reset = some c
  posted : s.stream = .postResumed →
    s.history.ready = some s.current_context ∧ s.history.reset = some s.current_context

/-- A request to the stream thread, or its answer, is a part of `stream_resume_scheduler`. -/
theorem StreamSide.switches (streams : s.StreamSide length) (asked : ¬ s.Unasked) :
    s.application = .waitStreamResumed := by
  cases pc : s.application with
  | waitStreamResumed => rfl
  | resumeQueue => exact absurd (streams.switching (.inl pc)) asked
  | postStreamResume => exact absurd (streams.switching (.inr pc)) asked
  | _ => exact absurd (streams.running (by rw [pc]; rfl)).1 asked

/-- The stream thread resumes the current context, on the request of the application. -/
theorem StreamSide.resuming (streams : s.StreamSide length)
    (resuming : s.stream.resuming = true) :
    s.application = .waitStreamResumed ∧ s.cg_streamEvent.isSet .streamResume = false ∧
      s.cg_streamReplyEvent.isSet .streamResumed = false ∧
      s.stream.context?.getD s.current_context = s.current_context := by
  have waits := streams.switches fun ⟨_, _, not⟩ =>
    absurd (not.symm.trans resuming) Bool.false_ne_true
  refine ⟨waits, ?_⟩
  rcases streams.waiting waits with ⟨-, -, not⟩ | ⟨request, answer, -, same⟩ | ⟨-, -, not, -⟩
  · exact absurd (not.symm.trans resuming) Bool.false_ne_true
  · exact ⟨request, answer, same⟩
  · exact absurd (not.symm.trans resuming) Bool.false_ne_true

theorem SwitchSide.cleanSwitch (switch : s.SwitchSide length) (streams : s.StreamSide length) :
    s.CleanSwitch where
  same c c' calls reset := by
    rcases switch.reset c' reset with calls' | ⟨-, pc | pc | pc⟩
    · exact StreamThread.callScheduler.inj (calls'.symm.trans calls)
    all_goals exact absurd (calls.symm.trans pc) (by simp)
  prepared resumed calls := by
    have unparked : ¬ s.Parking length := by
      rintro (parked | ⟨c, calls', other, -⟩)
      · exact absurd (calls.symm.trans parked) (by simp)
      · exact other (StreamThread.callScheduler.inj (calls'.symm.trans calls))
    have fresh : s.Fresh := by
      cases pc : s.application with
      | resumeQueue => exact absurd (switch.parked (.inl pc)) unparked
      | postStreamResume => exact absurd (switch.parked (.inr (.inl pc))) unparked
      | waitStreamResumed =>
          rcases streams.waiting pc with ⟨request, -⟩ | ⟨-, -, resuming, -⟩ | ⟨-, answer, -⟩
          · exact absurd (switch.parked (.inr (.inr request))) unparked
          · rw [calls] at resuming
            cases resuming
          · exact switch.answered answer
      | _ => exact switch.switched resumed (by rw [pc]; rfl)
    exact ⟨fresh.2 (.inr ⟨_, calls⟩), fresh.1⟩

/-- A step which leaves the context and the stream thread alone, outside of a context switch -/
theorem SwitchSide.mono (switch : s.SwitchSide length)
    (stream : s'.stream = s.stream) (context : s'.current_context = s.current_context)
    (ready : s'.history.ready = s.history.ready) (reset : s'.history.reset = s.history.reset)
    (parked : s'.application = .resumeQueue ∨ s'.application = .postStreamResume ∨
      s'.cg_streamEvent.isSet .streamResume = true →
      s.application = .resumeQueue ∨ s.application = .postStreamResume ∨
        s.cg_streamEvent.isSet .streamResume = true)
    (switched : s'.history.resumed = true → s'.application.switching = false → s.Fresh)
    (answered : s'.cg_streamReplyEvent.isSet .streamResumed = true →
      s.cg_streamReplyEvent.isSet .streamResumed = true) : s'.SwitchSide length := by
  have fresh : s.Fresh → s'.Fresh := by
    simp only [Fresh, stream, context, ready, reset, imp_self]
  constructor
  · intro pc
    simpa only [Parking, stream, context] using switch.parked (parked pc)
  · exact fun resumed out => fresh (switched resumed out)
  · exact fun answer => fresh (switch.answered (answered answer))
  all_goals simp only [stream, context, ready, reset]
  · exact switch.reset
  · exact switch.nodes
  · exact switch.posted

theorem SwitchSide.eventStep (switch : s.SwitchSide length) (step : EventStep length s s') :
    s'.SwitchSide length := by
  cases step <;> exact switch.mono rfl rfl rfl rfl (by simp) switch.switched (by simp)

/-- The context is not replaced while the stream thread is late. -/
def OnTime (s : Control κ) (c : κ) : Prop :=
  s.stream ≠ .loadContext ∧ s.stream ≠ .callScheduler c

theorem SwitchSide.applicationStep (switch : s.SwitchSide length) (handshake : s.Handshake length)
    (onTime : ∀ c, s.application = .setContext c → s.OnTime c)
    (step : ApplicationStep length s s') : s'.SwitchSide length := by
  have streams := handshake.streams
  cases step with
  | @setContext c pc =>
      rcases onTime c pc with ⟨loaded, called⟩
      have out : s.application.switching = false := by rw [pc]; rfl
      rcases streams.running out with ⟨⟨request, answer, resuming⟩, same, quiet⟩
      have parked : s.stream = .waitResume ∨ ∃ c', s.stream = .callScheduler c' ∧ c' ≠ c ∧
          length c' = 0 := by
        rcases Nat.eq_zero_or_pos (length s.current_context) with short | long
        · rcases StreamThread.quiet_iff.mp (quiet short) with load | wait | ⟨c', calls⟩
          · exact absurd load loaded
          · exact .inl wait
          · have current : c' = s.current_context := by
              simpa [calls, StreamThread.context?] using same
            refine .inr ⟨c', calls, fun eq => called (eq ▸ calls), ?_⟩
            rwa [current]
        · exact .inl (streams.stopped (by rw [pc]; rfl) long).1
      refine ⟨fun _ => parked, by simp [Application.switching], ?_, ?_, ?_, ?_⟩
      · exact fun set => absurd (answer.symm.trans set) Bool.false_ne_true
      · intro c' reset
        rcases switch.reset c' reset with calls | ⟨-, pc' | pc' | pc'⟩
        · exact .inl calls
        · rw [pc'] at resuming
          cases resuming
        · rw [pc'] at resuming
          cases resuming
        · exact absurd pc' loaded
      · exact fun c' pc' => switch.nodes c' pc'
      · intro pc'
        rw [show s.stream = _ from pc'] at resuming
        cases resuming
  | postStreamResume pc =>
      have parked := switch.parked (.inr (.inl pc))
      exact ⟨fun _ => parked, by simp [Application.switching], switch.answered, switch.reset,
        switch.nodes, switch.posted⟩
  | streamFailed pc set =>
      exact absurd (.inr set) (handshake.requests.stopped (by rw [pc]; rfl)).2
  | streamResumed pc set unset =>
      exact switch.mono rfl rfl rfl rfl (by simp +contextual) (fun _ _ => switch.answered set)
        (by simp)
  | queueResumed pc =>
      exact switch.mono rfl rfl rfl rfl (by simp [pc]) (by simp [Application.switching]) id
  | _ =>
      have out : s.application.switching = false := by simp [*, Application.switching]
      exact switch.mono rfl rfl rfl rfl (by simp +contextual)
        (fun resumed _ => switch.switched resumed out) (by simp)

theorem SwitchSide.streamStep (switch : s.SwitchSide length) (handshake : s.Handshake length)
    (step : StreamStep length s s') : s'.SwitchSide length := by
  have resuming := handshake.streams.resuming
  rcases switch with ⟨parked, switched, answered, reset, nodes, posted⟩
  cases step with
  | callScheduler pc long =>
      -- The scheduler of another context, which returns at once, is the only one called here.
      have unasked : ¬ (s.application = .resumeQueue ∨ s.application = .postStreamResume ∨
          s.cg_streamEvent.isSet .streamResume = true) := by
        intro asked
        rcases parked asked with wait | ⟨c, calls, -, short⟩
        · exact absurd (pc.symm.trans wait) (by simp)
        · cases pc.symm.trans calls
          omega
      refine ⟨fun asked => absurd asked unasked, ?_, ?_, ?_, ?_, ?_⟩
      all_goals simp_all [Fresh]
  | streamWakes pc set =>
      have waits : s.application = .waitStreamResumed :=
        handshake.streams.switches fun ⟨unset, _⟩ =>
          absurd (unset.symm.trans set) Bool.false_ne_true
      refine ⟨?_, ?_, ?_, ?_, ?_, ?_⟩
      all_goals simp_all [Fresh]
  | @resetFifos c pc =>
      have same : c = s.current_context := by
        simpa [pc, StreamThread.context?] using (resuming (by rw [pc]; rfl)).2.2.2
      refine ⟨?_, ?_, ?_, ?_, ?_, ?_⟩
      all_goals simp_all [Parking, Fresh]
  | @resumeNodes c pc =>
      have same : c = s.current_context := by
        simpa [pc, StreamThread.context?] using (resuming (by rw [pc]; rfl)).2.2.2
      refine ⟨?_, ?_, ?_, ?_, ?_, ?_⟩
      all_goals simp_all [Parking, Fresh]
  | _ =>
      refine ⟨?_, ?_, ?_, ?_, ?_, ?_⟩
      all_goals simp_all [Parking, Fresh]

end Control

namespace Threads

variable {ρ ι ε : Type} [DecidableEq ρ] [DecidableEq ι] {contexts : κ → ExecutionContext ρ}
  {capacity : ℕ} {s s' : Threads κ ρ ι ε} {a : Action κ ρ ι ε}

/-- The application pauses and resumes in turn, and it replaces the context only when the stream
thread is neither about to read the context nor about to call the scheduler of the new one. -/
def SwitchesOnTime (s : Threads κ ρ ι ε) : Action κ ρ ι ε → Prop
  | .application => ∀ c, s.application = .setContext c → s.OnTime c
  | a => s.Alternates a

instance [DecidableEq κ] [Fintype κ] (s : Threads κ ρ ι ε) (a : Action κ ρ ι ε) :
    Decidable (s.SwitchesOnTime a) :=
  match a with
  | .application =>
      inferInstanceAs (Decidable (∀ c, s.application = .setContext c →
        s.stream ≠ .loadContext ∧ s.stream ≠ .callScheduler c))
  | .pause => inferInstanceAs (Decidable (s.Alternates .pause))
  | .resume c => inferInstanceAs (Decidable (s.Alternates (.resume c)))
  | .stream | .event | .node _ | .queue _ _ => .isTrue trivial

omit [DecidableEq ρ] [DecidableEq ι] in
theorem SwitchesOnTime.alternates (allow : s.SwitchesOnTime a) : s.Alternates a := by
  cases a with
  | application => trivial
  | _ => exact allow

theorem switchSide_next (switch : s.SwitchSide (schedulerLength contexts))
    (handshake : s.Handshake (schedulerLength contexts)) (allow : s.SwitchesOnTime a)
    (step : s.next contexts capacity a = some s') :
    s'.SwitchSide (schedulerLength contexts) := by
  have control := next_control step
  cases a with
  | pause | resume c =>
      rcases control with ⟨⟨last, outside⟩, control⟩
      have out : s.application.switching = false := by rw [outside]; rfl
      rw [control]
      exact switch.mono rfl rfl rfl rfl (by simp +contextual)
        (fun resumed _ => switch.switched resumed out) id
  | application => exact switch.applicationStep handshake allow control
  | stream | node => exact switch.streamStep handshake control
  | event => exact switch.eventStep control
  | queue r action => exact control ▸ switch

/-- The stream thread calls the scheduler of a resumed context after the FIFOs and the nodes of
this context, and of no other one, have been put back. -/
theorem stream_thread_function_switches {context : κ} {actions : List (Action κ ρ ι ε)}
    (path : (machine contexts capacity context).Path SwitchesOnTime actions s) :
    s.CleanSwitch := by
  have invariant := path.invariant
    (p := fun s => s.Handshake (schedulerLength contexts) ∧ s.SwitchSide (schedulerLength contexts))
    ⟨init_handshake, ⟨by simp [machine, init], nofun, nofun, nofun, nofun, nofun⟩⟩
    fun s a s' ⟨handshake, switch⟩ allow step =>
      ⟨handshake_next handshake allow.alternates step, switchSide_next switch handshake allow step⟩
  exact invariant.2.cleanSwitch invariant.1.streams

/-- A context without schedule, which is paused before the stream thread has called it -/
def latePause : List (Action Bool Unit Empty ℕ) :=
  [.pause, .queue () (.step (.other .application) 0), .queue () (.step (.other .application) 0),
    .application, .event, .queue () (.execute 0), .queue () (.execute 0), .event, .event, .event,
    .event, .event, .application, .queue () (.step (.other .application) 0), .application]

/-- The context without schedule is `false`. -/
def twoContexts (c : Bool) : ExecutionContext Unit := ⟨(), c.toNat⟩

/-- The stream thread is on time: it is late in calling a scheduler which returns at once. -/
theorem latePause_switches : ∃ s, (machine twoContexts 1 false).Path SwitchesOnTime
    (.stream :: latePause ++ [.resume true, .application]) s ∧ s.CleanSwitch := by
  have run : ∃ s, ((machine twoContexts 1 false).restrict SwitchesOnTime).run (init false)
      (.stream :: latePause ++ [.resume true, .application]) = some s := ⟨_, rfl⟩
  rcases run with ⟨s, run⟩
  have path := Machine.path_of_run run
  exact ⟨s, path, stream_thread_function_switches path⟩

/-- The stream thread reads the resumed context before it waits: it calls the scheduler with the
FIFOs as they were. -/
theorem stream_thread_function_not_switches : ∃ s, (machine twoContexts 1 false).Path Alternates
    (latePause ++ [.resume true, .application, .stream]) s ∧ ¬ s.CleanSwitch := by
  have run : ∃ s, ((machine twoContexts 1 false).restrict Alternates).run (init false)
      (latePause ++ [.resume true, .application, .stream]) = some s ∧
      s.history.resumed = true ∧ s.stream = .callScheduler s.current_context ∧
      s.history.ready = none := ⟨_, rfl, rfl, rfl, rfl⟩
  rcases run with ⟨s, run, resumed, calls, unready⟩
  refine ⟨s, Machine.path_of_run run, fun clean => ?_⟩
  have prepared := (clean.prepared resumed calls).2
  rw [unready] at prepared
  cases prepared

end Threads

end CmsisStream.Runtime
