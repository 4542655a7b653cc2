import CmsisStream.Platform.ProtectedBuffers

/-!
# The locks that protected buffers take

An assignment takes the lock of the other handle and then its own, so that it
matters which handles share a mutex, and what another thread assigns.  This file
determines for all handles when an assignment takes a lock twice, when two
assignments wait for each other, and which functions leave a critical section
with the exit of the other kind.
-/

namespace CmsisStream.Platform

open CriticalSection (Program Mode Thread Entered Pair Steps)
open Buffers ProtectedBuffer

variable {ι α ρ : Type}

/-- The program, running alone, never enters a section for a mutex that it holds. -/
def NeverReacquires (program : BufferProgram ι α ρ) (b : Buffers ι α) : Prop :=
  ∀ thread b', Steps (⟨program, []⟩, b) (thread, b') →
    ∀ mutex, thread.Enters mutex → ¬ thread.Holds mutex

/-- The program leaves the sections for reading by the exit for reading, and those for writing by
the exit for writing. -/
def ExitsMatch (program : BufferProgram ι α ρ) (b : Buffers ι α) : Prop :=
  ∀ thread b', Steps (⟨program, []⟩, b) (thread, b') → thread.LeavesAsEntered

theorem exitsMatch_iff {program : BufferProgram ι α ρ} {b : Buffers ι α} :
    ExitsMatch program b ↔ program.Always Thread.LeavesAsEntered [] b :=
  Program.always_iff.symm

variable [DecidableEq ι]

/-- An assignment of a thread. -/
structure Assignment (ι : Type) where
  kind : PointerTransfer
  dst : ι
  src : ι

def Assignment.program (a : Assignment ι) : BufferProgram ι α Unit :=
  ProtectedBuffer.assign a.kind a.dst a.src

/-- Two threads, each at its assignment. -/
def concurrently (assignments : Bool → Assignment ι) (b : Buffers ι α) :
    Pair ℕ (Buffers ι α) Unit :=
  ⟨fun t => ⟨(assignments t).program, []⟩, b⟩

/-- The assignments, made by two threads, never wait for each other. -/
def NeverDeadlock (assignments : Bool → Assignment ι) (b : Buffers ι α) : Prop :=
  ∀ c, Pair.Steps (concurrently assignments b) c → ¬ c.Deadlock

/-- The functions of a handle which take locks. -/
inductive Operation (ι α ρ : Type) where
  | reset (h : ι)
  | lock (h : ι) (f : Bool → α → α × ρ)
  | lockVoid (h : ι) (f : Bool → α → α)
  | lock_shared (h : ι) (f : α → ρ)
  | lockSharedVoid (h : ι) (f : α → Unit)
  | construct (kind : PointerTransfer) (d s : ι)
  | assign (kind : PointerTransfer) (d s : ι)

def Operation.ExitsMatch [Inhabited ρ] (b : Buffers ι α) : Operation ι α ρ → Prop
  | .reset h => Platform.ExitsMatch (ProtectedBuffer.reset h) b
  | .lock h f => Platform.ExitsMatch (ProtectedBuffer.lock h f) b
  | .lockVoid h f => Platform.ExitsMatch (ProtectedBuffer.lockVoid h f) b
  | .lock_shared h f => Platform.ExitsMatch (ProtectedBuffer.lock_shared h f) b
  | .lockSharedVoid h f => Platform.ExitsMatch (ProtectedBuffer.lockSharedVoid h f) b
  | .construct kind d s => Platform.ExitsMatch (ProtectedBuffer.constructFrom kind d s) b
  | .assign kind d s => Platform.ExitsMatch (ProtectedBuffer.assign kind d s) b

/-! ### When they hold -/

/-- The operands are one handle, or the assigned one has no mutex, or it is another one. -/
def Assignment.Separate (b : Buffers ι α) (a : Assignment ι) : Prop :=
  a.dst = a.src ∨ (b.handle a.dst).mutex = none ∨
    (b.handle a.dst).mutex ≠ (b.handle a.src).mutex

/-- Each assignment takes the mutexes of the other one, in the other order. -/
def Crossing (b : Buffers ι α) (assignments : Bool → Assignment ι) : Prop :=
  (∀ t, (assignments t).dst ≠ (assignments t).src) ∧
    ∃ first second, first ≠ second ∧
      (b.handle (assignments true).src).mutex = some first ∧
      (b.handle (assignments true).dst).mutex = some second ∧
      (b.handle (assignments false).src).mutex = some second ∧
      (b.handle (assignments false).dst).mutex = some first

/-- The operation is not `lock_shared` with a result, on a handle with a mutex. -/
def Operation.NotSharedResult (b : Buffers ι α) (operation : Operation ι α ρ) : Prop :=
  ∀ h f, operation = .lock_shared h f → (b.handle h).mutex = none

/-! ### Locks taken twice -/

/-- A thread which enters a section does so for a mutex that it does not hold. -/
def NotHeld (thread : Thread ℕ (Buffers ι α) ρ) : Prop :=
  ∀ mutex, thread.Enters mutex → ¬ thread.Holds mutex

theorem neverReacquires_iff (b : Buffers ι α) (a : Assignment ι) :
    NeverReacquires a.program b ↔ a.Separate b := by
  have always : NeverReacquires a.program b ↔ a.program.Always NotHeld [] b :=
    Program.always_iff.symm
  rw [always]
  unfold Assignment.program ProtectedBuffer.assign Assignment.Separate
  by_cases same : a.dst = a.src
  · simp [same, Program.Always, NotHeld]
  · rw [if_neg same]
    cases onDst : (b.handle a.dst).mutex with
    | none =>
        cases onSrc : (b.handle a.src).mutex with
        | none => simp [Program.Always, NotHeld, onDst, onSrc]
        | some src => simp [Program.Always, NotHeld, onDst, onSrc, enterMutex]
    | some dst =>
        cases onSrc : (b.handle a.src).mutex with
        | none => simp [Program.Always, NotHeld, onDst, onSrc, enterMutex]
        | some src =>
            have comm : src = dst ↔ dst = src := eq_comm
            simp [Program.Always, NotHeld, onDst, onSrc, enterMutex, same, comm]

/-! ### Exits -/

theorem exitsMatch_assign (kind : PointerTransfer) (d s : ι) (b : Buffers ι α) :
    ExitsMatch (ProtectedBuffer.assign kind d s) b := by
  rw [exitsMatch_iff]
  unfold ProtectedBuffer.assign
  split_ifs with same
  · simp [Program.Always]
  · cases onDst : (b.handle d).mutex with
    | none =>
        cases onSrc : (b.handle s).mutex with
        | none => simp [Program.Always, onDst, onSrc]
        | some src => simp [Program.Always, onDst, onSrc, enterMutex]
    | some dst =>
        cases onSrc : (b.handle s).mutex with
        | none => simp [Program.Always, onDst, onSrc, enterMutex]
        | some src => simp [Program.Always, onDst, onSrc, enterMutex]

theorem exitsMatch_construct (kind : PointerTransfer) (d s : ι) (b : Buffers ι α) :
    ExitsMatch (constructFrom kind d s) b := by
  rw [exitsMatch_iff]
  unfold constructFrom
  cases onSrc : ((construct d b).handle s).mutex with
  | none => simp [Program.Always, onSrc]
  | some src => simp [Program.Always, onSrc, enterMutex]

theorem exitsMatch_reset (h : ι) (b : Buffers ι α) :
    ExitsMatch (ProtectedBuffer.reset h) b := by
  rw [exitsMatch_iff]
  unfold ProtectedBuffer.reset
  cases mutex : (b.handle h).mutex with
  | none => simp [Program.Always, mutex]
  | some m => simp [Program.Always, mutex, enterMutex]

omit [DecidableEq ι] in
theorem exitsMatch_lock [Inhabited ρ] (h : ι) (f : Bool → α → α × ρ) (b : Buffers ι α) :
    ExitsMatch (ProtectedBuffer.lock h f) b := by
  rw [exitsMatch_iff]
  unfold ProtectedBuffer.lock
  cases mutex : (b.handle h).mutex with
  | none => simp [Program.Always, mutex]
  | some m =>
      cases object : (b.handle h).obj with
      | none => simp [Program.Always, mutex, object, enterMutex]
      | some obj => simp [Program.Always, mutex, object, enterMutex]

omit [DecidableEq ι] in
/-- `lock_shared` enters the section for reading. -/
theorem exitsMatch_lockSharedWith [Inhabited ρ] (exitMode : Mode) (h : ι) (f : α → ρ)
    (b : Buffers ι α) :
    ExitsMatch (lockSharedWith exitMode h f) b ↔ exitMode = .read ∨ (b.handle h).mutex = none := by
  rw [exitsMatch_iff]
  unfold lockSharedWith
  cases mutex : (b.handle h).mutex with
  | none => simp [Program.Always, mutex]
  | some m =>
      cases object : (b.handle h).obj with
      | none => simp [Program.Always, mutex, object, enterMutex, eq_comm]
      | some obj => simp [Program.Always, mutex, object, enterMutex, eq_comm]

theorem operation_exitsMatch_iff [Inhabited ρ] (b : Buffers ι α) (operation : Operation ι α ρ) :
    operation.ExitsMatch b ↔ operation.NotSharedResult b := by
  cases operation with
  | reset h => simp [Operation.ExitsMatch, Operation.NotSharedResult, exitsMatch_reset]
  | lock h f => simp [Operation.ExitsMatch, Operation.NotSharedResult, exitsMatch_lock]
  | lockVoid h f =>
      simp [Operation.ExitsMatch, Operation.NotSharedResult, lockVoid, exitsMatch_lock]
  | lock_shared h f =>
      simp [Operation.ExitsMatch, Operation.NotSharedResult, ProtectedBuffer.lock_shared,
        exitsMatch_lockSharedWith]
  | lockSharedVoid h f =>
      simp [Operation.ExitsMatch, Operation.NotSharedResult, lockSharedVoid,
        exitsMatch_lockSharedWith]
  | construct kind d s =>
      simp [Operation.ExitsMatch, Operation.NotSharedResult, exitsMatch_construct]
  | assign kind d s =>
      simp [Operation.ExitsMatch, Operation.NotSharedResult, exitsMatch_assign]

/-! ### Two assignments -/

omit [DecidableEq ι] in
theorem storesLast_enterMutex {mode : Mode} {h : ι} {next : Bool → BufferProgram ι α ρ}
    (last : ∀ error, (next error).StoresLast) : (enterMutex mode h next).StoresLast := by
  intro b
  beta_reduce
  cases (b.handle h).mutex with
  | none => trivial
  | some mutex => exact last

theorem storesLast_assign (kind : PointerTransfer) (d s : ι) :
    (ProtectedBuffer.assign kind d s : BufferProgram ι α Unit).StoresLast := by
  unfold ProtectedBuffer.assign
  split_ifs
  · trivial
  · intro b
    beta_reduce
    cases (b.handle d).mutex with
    | none =>
        cases (b.handle s).mutex with
        | none => trivial
        | some src =>
            apply storesLast_enterMutex
            intro error
            cases error <;> trivial
    | some dst =>
        cases (b.handle s).mutex with
        | none =>
            apply storesLast_enterMutex
            intro error
            cases error <;> trivial
        | some src =>
            apply storesLast_enterMutex
            intro error_src
            apply storesLast_enterMutex
            intro error_dst
            cases error_src <;> cases error_dst <;> trivial

/-- A thread which holds a mutex and enters a section does so with the mutexes of the two
operands, and holds it for writing. -/
def EntersSecond (b : Buffers ι α) (a : Assignment ι) (thread : Thread ℕ (Buffers ι α) Unit) :
    Prop :=
  (∀ e ∈ thread.entered, e.mode = .write) ∧
    ∀ held wanted, thread.Holds held → thread.Enters wanted →
      a.dst ≠ a.src ∧ (b.handle a.src).mutex = some held ∧ (b.handle a.dst).mutex = some wanted

theorem always_entersSecond (b : Buffers ι α) (a : Assignment ι) :
    a.program.Always (EntersSecond b a) [] b := by
  unfold Assignment.program ProtectedBuffer.assign
  by_cases same : a.dst = a.src
  · simp [same, Program.Always, EntersSecond]
  · rw [if_neg same]
    cases onDst : (b.handle a.dst).mutex with
    | none =>
        cases onSrc : (b.handle a.src).mutex with
        | none => simp [Program.Always, EntersSecond, onDst, onSrc]
        | some src => simp [Program.Always, EntersSecond, onDst, onSrc, enterMutex]
    | some dst =>
        cases onSrc : (b.handle a.src).mutex with
        | none => simp [Program.Always, EntersSecond, onDst, onSrc, enterMutex]
        | some src => simp [Program.Always, EntersSecond, onDst, onSrc, enterMutex, same]

theorem crossing_of_deadlock {assignments : Bool → Assignment ι} {b : Buffers ι α}
    {c : Pair ℕ (Buffers ι α) Unit} (steps : Pair.Steps (concurrently assignments b) c)
    (deadlock : c.Deadlock) : Crossing b assignments := by
  have second : ∀ t, EntersSecond b (assignments t) (c.threads t) := by
    intro t
    have early := deadlock.early (fun t => storesLast_assign _ _ _) steps t
    exact Program.always_iff.mp (always_entersSecond b (assignments t)) _ _ early
  have compatible := Pair.Steps.compatible (by simp [concurrently]) steps true
  rcases deadlock with ⟨held, held', holds, enters, holds', enters'⟩
  rcases (second true).2 held held' holds enters' with ⟨differ, src, dst⟩
  rcases (second false).2 held' held holds' enters with ⟨differ', src', dst'⟩
  refine ⟨fun t => ?_, held, held', ?_, src, dst, src', dst'⟩
  · cases t with
    | false => exact differ'
    | true => exact differ
  · -- both hold their first mutex for writing
    rintro rfl
    rcases holds with ⟨e, member, acquired, mutex⟩
    rcases holds' with ⟨e', member', acquired', mutex'⟩
    have reads := compatible e member e' member' acquired acquired' (mutex.trans mutex'.symm)
    rw [(second true).1 e member] at reads
    exact absurd reads.1 (by decide)

/-- A thread comes to its second lock, if the other one does not hold the first. -/
theorem brings_to_second {c : Pair ℕ (Buffers ι α) Unit} {t : Bool} {a : Assignment ι}
    {src dst : ℕ} (start : c.threads t = ⟨a.program, []⟩) (differ : a.dst ≠ a.src)
    (onSrc : (c.state.handle a.src).mutex = some src)
    (onDst : (c.state.handle a.dst).mutex = some dst)
    (free : ∀ other ∈ (c.threads !t).entered, other.mutex ≠ src) :
    ∃ next, c.Brings t ⟨.enter .write dst next, [⟨.write, src, true⟩]⟩ := by
  have atStart := c.brings_self t
  rw [start] at atStart
  unfold Assignment.program ProtectedBuffer.assign at atStart
  rw [if_neg differ] at atStart
  have checked := atStart.load
  simp only [onSrc, onDst] at checked
  have loaded := checked.load
  simp only [onSrc] at loaded
  have second := (loaded.enter free).load
  simp only [onDst] at second
  exact ⟨_, second⟩

theorem deadlock_of_crossing {assignments : Bool → Assignment ι} {b : Buffers ι α}
    (crossing : Crossing b assignments) :
    ∃ c, Pair.Steps (concurrently assignments b) c ∧ c.Deadlock := by
  rcases crossing with ⟨differ, first, second, apart, onSrc, onDst, onSrc', onDst'⟩
  rcases brings_to_second (c := concurrently assignments b) (t := true) rfl (differ true)
    onSrc onDst (by simp [concurrently]) with ⟨next, moved⟩
  rcases brings_to_second (t := false)
    (c := ⟨Function.update (concurrently assignments b).threads true
      ⟨.enter .write second next, [⟨.write, first, true⟩]⟩, b⟩) rfl (differ false) onSrc' onDst'
    (by simp [apart]) with ⟨next', moved'⟩
  refine ⟨_, Relation.ReflTransGen.trans moved moved', first, second, ?_, ?_, ?_, ?_⟩
  · simp
  · simp
  · simp
  · simp

theorem neverDeadlock_iff (assignments : Bool → Assignment ι) (b : Buffers ι α) :
    NeverDeadlock assignments b ↔ ¬ Crossing b assignments := by
  refine ⟨?_, ?_⟩
  · intro never crossing
    rcases deadlock_of_crossing crossing with ⟨c, steps, deadlock⟩
    exact never c steps deadlock
  · intro apart c steps deadlock
    exact apart (crossing_of_deadlock steps deadlock)

/-- The discipline of the locks holds of an assignment exactly if its operands do not share a
mutex, of two concurrent assignments exactly if they do not cross, and of an operation exactly
if it is not `lock_shared` with a result on a handle with a mutex. -/
theorem locking_discipline_iff [Inhabited ρ] (b : Buffers ι α) :
    (∀ a : Assignment ι, NeverReacquires a.program b ↔ a.Separate b) ∧
      (∀ assignments, NeverDeadlock assignments b ↔ ¬ Crossing b assignments) ∧
        ∀ operation : Operation ι α ρ,
          operation.ExitsMatch b ↔ operation.NotSharedResult b :=
  ⟨neverReacquires_iff b, fun assignments => neverDeadlock_iff assignments b,
    operation_exitsMatch_iff b⟩

/-- Handles 0 and 1 are copies of each other, handle 2 has another object. -/
def sharedHandles : Buffers ℕ Unit where
  live := {0, 1, 2}
  handle h := if h = 2 then ⟨some 1, some 1⟩ else ⟨some 0, some 0⟩
  content _ := ()
  allocated := 2

/-- An assignment between copies takes their lock twice, two assignments in opposite directions
wait for each other, and `lock_shared` with a result leaves by the other exit. -/
theorem locking_discipline_broken :
    ¬ NeverReacquires (Assignment.mk .copy 0 1).program sharedHandles ∧
      ¬ NeverDeadlock (fun t => if t then ⟨.copy, 0, 2⟩ else ⟨.copy, 2, 0⟩) sharedHandles ∧
        ¬ (Operation.lock_shared 0 id : Operation ℕ Unit Unit).ExitsMatch
          sharedHandles := by
  refine ⟨?_, ?_, ?_⟩
  · rw [neverReacquires_iff]
    unfold Assignment.Separate
    decide
  · rw [neverDeadlock_iff, not_not]
    refine ⟨by decide, 1, 0, by decide, rfl, rfl, rfl, rfl⟩
  · rw [operation_exitsMatch_iff]
    intro matches_
    exact absurd (matches_ 0 id rfl) (by decide)

end CmsisStream.Platform
