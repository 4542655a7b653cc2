import Mathlib.Logic.Function.Basic
import Mathlib.Logic.Relation

/-!
# Programs with critical sections

A program reads and writes a shared state, and enters and leaves critical
sections which are nested.  Entering a section for a mutex may fail; then the
program goes on, and leaves the section all the same.  A program is executed
alone to its end, or step by step next to another one.
-/

namespace CriticalSection

inductive Mode where
  | read
  | write
deriving DecidableEq

/-- A program on states `σ` with the result `ρ`. -/
inductive Program (μ σ ρ : Type) where
  | done (result : ρ)
  /-- a null pointer is used -/
  | fault
  | load (next : σ → Program μ σ ρ)
  | store (update : σ → σ) (next : Program μ σ ρ)
  /-- the program goes on when it knows whether there was an error -/
  | enter (mode : Mode) (mutex : μ) (next : Bool → Program μ σ ρ)
  | exit (mode : Mode) (next : Program μ σ ρ)

/-- A section which a thread is in. -/
structure Entered (μ : Type) where
  mode : Mode
  mutex : μ
  acquired : Bool

/-- What a thread has still to do, and the sections that it is in, last first. -/
structure Thread (μ σ ρ : Type) where
  program : Program μ σ ρ
  entered : List (Entered μ)

variable {μ σ ρ : Type}

/-- The result and the state of a program which runs alone to its end, where `errors` tells for
each section that it enters whether this fails. -/
def Program.exec : Program μ σ ρ → List (Entered μ) → σ → List Bool → Option (ρ × σ)
  | .done result, [], s, [] => some (result, s)
  | .load next, entered, s, errors => (next s).exec entered s errors
  | .store update next, entered, s, errors => next.exec entered (update s) errors
  | .enter mode mutex next, entered, s, error :: errors =>
      (next error).exec (⟨mode, mutex, !error⟩ :: entered) s errors
  | .exit _ next, _ :: entered, s, errors => next.exec entered s errors
  | _, _, _, _ => none

theorem Program.exec_done {value result : ρ} {entered : List (Entered μ)} {s s' : σ}
    {errors : List Bool} :
    (Program.done value).exec entered s errors = some (result, s') ↔
      entered = [] ∧ errors = [] ∧ value = result ∧ s = s' := by
  cases entered <;> cases errors <;> simp [exec]

theorem Program.exec_enter {mode : Mode} {mutex : μ} {next : Bool → Program μ σ ρ}
    {entered : List (Entered μ)} {s : σ} {errors : List Bool} {final : ρ × σ} :
    (Program.enter mode mutex next).exec entered s errors = some final ↔
      ∃ error rest, errors = error :: rest ∧
        (next error).exec (⟨mode, mutex, !error⟩ :: entered) s rest = some final := by
  cases errors with
  | nil => simp [exec]
  | cons error errors =>
      refine ⟨fun run => ⟨error, errors, rfl, run⟩, ?_⟩
      rintro ⟨first, rest, same, run⟩
      cases same
      exact run

/-! ### Steps of a thread -/

/-- One step of a thread. -/
inductive Step : Thread μ σ ρ × σ → Thread μ σ ρ × σ → Prop
  | load {next : σ → Program μ σ ρ} {entered : List (Entered μ)} {s : σ} :
      Step (⟨.load next, entered⟩, s) (⟨next s, entered⟩, s)
  | store {update : σ → σ} {next : Program μ σ ρ} {entered : List (Entered μ)} {s : σ} :
      Step (⟨.store update next, entered⟩, s) (⟨next, entered⟩, update s)
  | enter {mode : Mode} {mutex : μ} {next : Bool → Program μ σ ρ} {entered : List (Entered μ)}
      {s : σ} (error : Bool) :
      Step (⟨.enter mode mutex next, entered⟩, s)
        (⟨next error, ⟨mode, mutex, !error⟩ :: entered⟩, s)
  | exit {mode : Mode} {next : Program μ σ ρ} {last : Entered μ} {entered : List (Entered μ)}
      {s : σ} : Step (⟨.exit mode next, last :: entered⟩, s) (⟨next, entered⟩, s)

/-- Several steps of a thread which runs alone. -/
abbrev Steps : Thread μ σ ρ × σ → Thread μ σ ρ × σ → Prop := Relation.ReflTransGen Step

/-- A condition on the threads that a program passes through, when it runs alone. -/
def Program.Always (good : Thread μ σ ρ → Prop) :
    Program μ σ ρ → List (Entered μ) → σ → Prop
  | .done result, entered, _ => good ⟨.done result, entered⟩
  | .fault, entered, _ => good ⟨.fault, entered⟩
  | .load next, entered, s => good ⟨.load next, entered⟩ ∧ (next s).Always good entered s
  | .store update next, entered, s =>
      good ⟨.store update next, entered⟩ ∧ next.Always good entered (update s)
  | .enter mode mutex next, entered, s =>
      good ⟨.enter mode mutex next, entered⟩ ∧
        ∀ error, (next error).Always good (⟨mode, mutex, !error⟩ :: entered) s
  | .exit mode next, entered, s =>
      good ⟨.exit mode next, entered⟩ ∧
        match entered with
        | [] => True
        | _ :: outer => next.Always good outer s

variable {good : Thread μ σ ρ → Prop} {program : Program μ σ ρ} {entered : List (Entered μ)}
  {thread thread' : Thread μ σ ρ} {s s' : σ}

theorem Program.Always.here (always : program.Always good entered s) :
    good ⟨program, entered⟩ := by
  cases program with
  | done result => exact always
  | fault => exact always
  | load next => exact always.1
  | store update next => exact always.1
  | enter mode mutex next => exact always.1
  | exit mode next => exact always.1

theorem Program.Always.step (always : thread.program.Always good thread.entered s)
    (step : Step (thread, s) (thread', s')) : thread'.program.Always good thread'.entered s' := by
  cases step with
  | load => exact always.2
  | store => exact always.2
  | enter error => exact always.2 error
  | exit => exact always.2

theorem Program.Always.steps (always : thread.program.Always good thread.entered s)
    (steps : Steps (thread, s) (thread', s')) :
    thread'.program.Always good thread'.entered s' := by
  generalize source : (thread, s) = c at steps
  generalize target : (thread', s') = c' at steps
  induction steps generalizing thread' s' with
  | refl =>
      cases source
      cases target
      exact always
  | @tail middle last _ step ih =>
      cases target
      have before : middle.1.program.Always good middle.1.entered middle.2 := ih rfl
      exact before.step step

/-- The condition holds along all the steps. -/
theorem Program.always_iff : program.Always good entered s ↔
    ∀ thread s', Steps (⟨program, entered⟩, s) (thread, s') → good thread := by
  refine ⟨?_, ?_⟩
  · intro always thread s' steps
    exact (always.steps steps).here
  · intro holds
    induction program generalizing entered s with
    | done result => exact holds _ _ .refl
    | fault => exact holds _ _ .refl
    | load next ih =>
        refine ⟨holds _ _ .refl, ih s fun thread s' steps => ?_⟩
        exact holds thread s' (.head .load steps)
    | store update next ih =>
        refine ⟨holds _ _ .refl, ih fun thread s' steps => ?_⟩
        exact holds thread s' (.head .store steps)
    | enter mode mutex next ih =>
        refine ⟨holds _ _ .refl, fun error => ih error fun thread s' steps => ?_⟩
        exact holds thread s' (.head (.enter error) steps)
    | exit mode next ih =>
        refine ⟨holds _ _ .refl, ?_⟩
        cases entered with
        | nil => trivial
        | cons last outer =>
            exact ih fun thread s' steps => holds thread s' (.head .exit steps)

/-! ### Two threads -/

/-- The thread is in a section which it acquired. -/
def Thread.Holds (thread : Thread μ σ ρ) (mutex : μ) : Prop :=
  ∃ section_ ∈ thread.entered, section_.acquired = true ∧ section_.mutex = mutex

/-- The thread is about to enter a section. -/
def Thread.Enters (thread : Thread μ σ ρ) (mutex : μ) : Prop :=
  ∃ mode next, thread.program = .enter mode mutex next

/-- The thread leaves a section by the exit of its kind. -/
def Thread.LeavesAsEntered (thread : Thread μ σ ρ) : Prop :=
  ∀ mode next, thread.program = .exit mode next →
    ∃ last outer, thread.entered = last :: outer ∧ last.mode = mode

section

variable {mutex mutex' : μ} {mode : Mode}

@[simp]
theorem holds_nil : ¬ (⟨program, []⟩ : Thread μ σ ρ).Holds mutex := by simp [Thread.Holds]

@[simp]
theorem holds_cons {last : Entered μ} : (⟨program, last :: entered⟩ : Thread μ σ ρ).Holds mutex ↔
    last.acquired = true ∧ last.mutex = mutex ∨
      (⟨program, entered⟩ : Thread μ σ ρ).Holds mutex := by
  simp [Thread.Holds]

@[simp]
theorem enters_enter {next : Bool → Program μ σ ρ} :
    (Thread.mk (.enter mode mutex next) entered).Enters mutex' ↔ mutex = mutex' := by
  refine ⟨?_, ?_⟩
  · rintro ⟨mode', next', same⟩
    cases same
    rfl
  · rintro rfl
    exact ⟨mode, next, rfl⟩

@[simp]
theorem not_enters_done {result : ρ} :
    ¬ (Thread.mk (.done result : Program μ σ ρ) entered).Enters mutex := by
  simp [Thread.Enters]

@[simp]
theorem not_enters_load {next : σ → Program μ σ ρ} :
    ¬ (Thread.mk (.load next) entered).Enters mutex := by
  simp [Thread.Enters]

@[simp]
theorem not_enters_store {update : σ → σ} {next : Program μ σ ρ} :
    ¬ (Thread.mk (.store update next) entered).Enters mutex := by
  simp [Thread.Enters]

@[simp]
theorem not_enters_exit {next : Program μ σ ρ} :
    ¬ (Thread.mk (.exit mode next) entered).Enters mutex := by
  simp [Thread.Enters]

@[simp]
theorem leavesAsEntered_exit {last : Entered μ} {next : Program μ σ ρ} :
    (Thread.mk (.exit mode next) (last :: entered)).LeavesAsEntered ↔ last.mode = mode := by
  refine ⟨?_, ?_⟩
  · intro leaves
    rcases leaves mode next rfl with ⟨last', outer, same, matches_⟩
    cases same
    exact matches_
  · intro matches_ mode' next' same
    cases same
    exact ⟨last, entered, rfl, matches_⟩

@[simp]
theorem leavesAsEntered_done {result : ρ} :
    (Thread.mk (.done result : Program μ σ ρ) entered).LeavesAsEntered := by
  simp [Thread.LeavesAsEntered]

@[simp]
theorem leavesAsEntered_load {next : σ → Program μ σ ρ} :
    (Thread.mk (.load next) entered).LeavesAsEntered := by
  simp [Thread.LeavesAsEntered]

@[simp]
theorem leavesAsEntered_store {update : σ → σ} {next : Program μ σ ρ} :
    (Thread.mk (.store update next) entered).LeavesAsEntered := by
  simp [Thread.LeavesAsEntered]

@[simp]
theorem leavesAsEntered_enter {next : Bool → Program μ σ ρ} :
    (Thread.mk (.enter mode mutex next) entered).LeavesAsEntered := by
  simp [Thread.LeavesAsEntered]

end

/-- Two threads on one state. -/
structure Pair (μ σ ρ : Type) where
  threads : Bool → Thread μ σ ρ
  state : σ

namespace Pair

/-- Two threads can be in these sections at a time. -/
def Compatible (taken other : Entered μ) : Prop :=
  taken.acquired = true → other.acquired = true → taken.mutex = other.mutex →
    taken.mode = .read ∧ other.mode = .read

/-- One step of one of the threads.  It acquires a mutex only if the other one does not hold
it. -/
inductive Step : Pair μ σ ρ → Pair μ σ ρ → Prop
  | step {c : Pair μ σ ρ} {thread : Thread μ σ ρ} {s : σ} (t : Bool)
      (move : CriticalSection.Step (c.threads t, c.state) (thread, s))
      (free : ∀ taken, thread.entered = taken :: (c.threads t).entered →
        ∀ other ∈ (c.threads !t).entered, Compatible taken other) :
      Step c ⟨Function.update c.threads t thread, s⟩

abbrev Steps : Pair μ σ ρ → Pair μ σ ρ → Prop := Relation.ReflTransGen Step

/-- Each thread holds a mutex that the other one wants to enter. -/
def Deadlock (c : Pair μ σ ρ) : Prop :=
  ∃ first second, (c.threads true).Holds first ∧ (c.threads false).Enters first ∧
    (c.threads false).Holds second ∧ (c.threads true).Enters second

end Pair

theorem Pair.Compatible.symm {taken other : Entered μ} (compatible : Pair.Compatible taken other) :
    Pair.Compatible other taken :=
  fun otherAcquired takenAcquired same =>
    (compatible takenAcquired otherAcquired same.symm).symm

/-- A step of a thread leaves sections, or adds one. -/
theorem Step.sections (step : Step (thread, s) (thread', s')) :
    (∀ e ∈ thread'.entered, e ∈ thread.entered) ∨
      ∃ taken, thread'.entered = taken :: thread.entered := by
  cases step with
  | load => exact Or.inl fun _ member => member
  | store => exact Or.inl fun _ member => member
  | enter error => exact Or.inr ⟨_, rfl⟩
  | exit => exact Or.inl fun _ member => List.mem_cons_of_mem _ member

/-- The sections of the two threads stay compatible. -/
theorem Pair.Steps.compatible {c c' : Pair μ σ ρ}
    (start : ∀ t, ∀ e ∈ (c.threads t).entered, ∀ other ∈ (c.threads !t).entered,
      Pair.Compatible e other) (steps : Pair.Steps c c') (t : Bool) :
    ∀ e ∈ (c'.threads t).entered, ∀ other ∈ (c'.threads !t).entered,
      Pair.Compatible e other := by
  induction steps generalizing t with
  | refl => exact start t
  | @tail middle _ _ step ih =>
      cases step with
      | @step thread s u move free =>
          have moved : ∀ e ∈ thread.entered, ∀ other ∈ (middle.threads !u).entered,
              Pair.Compatible e other := by
            intro e member other memberOther
            rcases move.sections with kept | ⟨taken, added⟩
            · exact ih u e (kept e member) other memberOther
            · rw [added, List.mem_cons] at member
              rcases member with rfl | before
              · exact free e added other memberOther
              · exact ih u e before other memberOther
          intro e member other memberOther
          by_cases mine : t = u
          · subst mine
            simp only [Function.update_self] at member
            have differ : (!t) ≠ t := by cases t <;> decide
            simp only [Function.update_of_ne differ] at memberOther
            exact moved e member other memberOther
          · have others : (!t) = u := by
              cases t <;> cases u <;> simp_all
            subst others
            simp only [Function.update_self] at memberOther
            simp only [Function.update_of_ne mine] at member
            rw [Bool.not_not] at moved
            exact (moved other memberOther e member).symm

/-- Steps of one thread only, which keep the state, bring it there. -/
def Pair.Brings (c : Pair μ σ ρ) (t : Bool) (thread : Thread μ σ ρ) : Prop :=
  Pair.Steps c ⟨Function.update c.threads t thread, c.state⟩

theorem Pair.brings_self (c : Pair μ σ ρ) (t : Bool) : c.Brings t (c.threads t) := by
  unfold Pair.Brings
  rw [Function.update_eq_self]

theorem Pair.Brings.tail {c : Pair μ σ ρ} {t : Bool} (brings : c.Brings t thread)
    (move : CriticalSection.Step (thread, c.state) (thread', c.state))
    (free : ∀ taken, thread'.entered = taken :: thread.entered →
      ∀ other ∈ (c.threads !t).entered, Pair.Compatible taken other) : c.Brings t thread' := by
  have differ : (!t) ≠ t := by cases t <;> decide
  have step : Pair.Step ⟨Function.update c.threads t thread, c.state⟩
      ⟨Function.update (Function.update c.threads t thread) t thread', c.state⟩ :=
    .step t (by simpa using move) (by simpa [Function.update_of_ne differ] using free)
  rw [Function.update_idem] at step
  exact Relation.ReflTransGen.tail brings step

theorem Pair.Brings.load {c : Pair μ σ ρ} {t : Bool} {next : σ → Program μ σ ρ}
    (brings : c.Brings t ⟨.load next, entered⟩) : c.Brings t ⟨next c.state, entered⟩ := by
  apply brings.tail .load
  intro taken added
  exact absurd (congrArg List.length added) (by simp)

theorem Pair.Brings.enter {c : Pair μ σ ρ} {t : Bool} {mode : Mode} {mutex : μ}
    {next : Bool → Program μ σ ρ} (brings : c.Brings t ⟨.enter mode mutex next, entered⟩)
    (free : ∀ other ∈ (c.threads !t).entered, other.mutex ≠ mutex) :
    c.Brings t ⟨next false, ⟨mode, mutex, true⟩ :: entered⟩ := by
  apply brings.tail (.enter false)
  intro taken added other member acquired _ same
  rw [← (List.cons.inj added).1] at same
  exact absurd same.symm (free other member)

/-! ### Programs which store at the end -/

/-- The program enters no section. -/
def Program.EntersNone : Program μ σ ρ → Prop
  | .done _ => True
  | .fault => True
  | .load next => ∀ s, (next s).EntersNone
  | .store _ next => next.EntersNone
  | .enter _ _ _ => False
  | .exit _ next => next.EntersNone

/-- The program enters no section any more once it stored. -/
def Program.StoresLast : Program μ σ ρ → Prop
  | .done _ => True
  | .fault => True
  | .load next => ∀ s, (next s).StoresLast
  | .store _ next => next.EntersNone
  | .enter _ _ next => ∀ error, (next error).StoresLast
  | .exit _ next => next.StoresLast

theorem EntersNone.step (none : thread.program.EntersNone)
    (step : Step (thread, s) (thread', s')) : thread'.program.EntersNone := by
  cases step with
  | load => exact none _
  | store => exact none
  | enter error => exact none.elim
  | exit => exact none

/-- A step stores, and no section is entered after it, or it keeps the state. -/
theorem StoresLast.step (last : thread.program.StoresLast)
    (step : Step (thread, s) (thread', s')) :
    thread'.program.EntersNone ∨ s' = s ∧ thread'.program.StoresLast := by
  cases step with
  | load => exact Or.inr ⟨rfl, last _⟩
  | store => exact Or.inl last
  | enter error => exact Or.inr ⟨rfl, last error⟩
  | exit => exact Or.inr ⟨rfl, last⟩

/-- The sections that can be entered in the state at the start, by a thread which runs alone. -/
def Early (program : Program μ σ ρ) (s : σ) (thread : Thread μ σ ρ) : Prop :=
  thread.program.StoresLast ∧ Steps (⟨program, []⟩, s) (thread, s)

/-- Two programs which store at the end: one of them is past its sections, or nothing was stored
yet and each is where it comes alone. -/
theorem Pair.Steps.early {programs : Bool → Program μ σ ρ} {c : Pair μ σ ρ}
    (last : ∀ t, (programs t).StoresLast)
    (steps : Pair.Steps ⟨fun t => ⟨programs t, []⟩, s⟩ c) :
    (∃ t, (c.threads t).program.EntersNone) ∨
      c.state = s ∧ ∀ t, Early (programs t) s (c.threads t) := by
  induction steps with
  | refl => exact Or.inr ⟨rfl, fun t => ⟨last t, .refl⟩⟩
  | @tail middle _ _ step ih =>
      cases step with
      | @step thread s' t move free =>
          rcases ih with ⟨u, none⟩ | ⟨same, early⟩
          · left
            refine ⟨u, ?_⟩
            by_cases moves : u = t
            · subst moves
              simpa using EntersNone.step none move
            · simpa [moves] using none
          · rcases StoresLast.step (early t).1 move with none | ⟨kept, storesLast⟩
            · exact Or.inl ⟨t, by simpa using none⟩
            · right
              rw [same] at move kept
              subst kept
              refine ⟨rfl, fun u => ?_⟩
              by_cases moves : u = t
              · subst moves
                simpa using ⟨storesLast, (early u).2.tail move⟩
              · simpa [moves] using early u

/-- In a deadlock of such programs each thread is where it comes alone. -/
theorem Pair.Deadlock.early {programs : Bool → Program μ σ ρ} {c : Pair μ σ ρ}
    (last : ∀ t, (programs t).StoresLast)
    (steps : Pair.Steps ⟨fun t => ⟨programs t, []⟩, s⟩ c) (deadlock : c.Deadlock) (t : Bool) :
    CriticalSection.Steps (⟨programs t, []⟩, s) (c.threads t, s) := by
  rcases deadlock with ⟨first, second, -, entersFirst, -, entersSecond⟩
  have entersSome : ∀ u, ¬ (c.threads u).program.EntersNone := by
    intro u none
    cases u with
    | false =>
        rcases entersFirst with ⟨mode, next, enters⟩
        rw [enters] at none
        exact none
    | true =>
        rcases entersSecond with ⟨mode, next, enters⟩
        rw [enters] at none
        exact none
  rcases Pair.Steps.early last steps with ⟨u, none⟩ | ⟨-, early⟩
  · exact absurd none (entersSome u)
  · exact (early t).2

end CriticalSection
