import CmsisStream.Concurrency.CriticalSection
import CmsisStream.Concurrency.Machine
import Mathlib.Data.Finset.Card

/-!
# Protected buffers and their mutex

A `ProtectedBuffer` has a shared pointer to an object and one to the mutex of the
object.  Its functions exchange both, under the locks of the mutexes, and the
acquisition of a lock may fail.  In every history of such handles, those of one
object have the same mutex.
-/

namespace CmsisStream.Platform

open CriticalSection (Program)

/-- The shared pointers of a handle. -/
structure ProtectedBuffer where
  obj : Option ℕ
  mutex : Option ℕ
deriving DecidableEq, Repr

namespace ProtectedBuffer

def null : ProtectedBuffer := ⟨none, none⟩

end ProtectedBuffer

/-- All the handles of a program, and the objects that they protect. -/
structure Buffers (ι α : Type) where
  live : Finset ι
  handle : ι → ProtectedBuffer
  content : ℕ → α
  /-- the next object and its mutex -/
  allocated : ℕ

/-- Whether the pointers of the other handle are copied or moved. -/
inductive PointerTransfer where
  | copy
  | move
deriving DecidableEq, Repr

namespace Buffers

variable {ι α : Type} [DecidableEq ι]

def setHandle (b : Buffers ι α) (h : ι) (p : ProtectedBuffer) : Buffers ι α :=
  { b with handle := Function.update b.handle h p }

def setObj (h : ι) (obj : Option ℕ) (b : Buffers ι α) : Buffers ι α :=
  b.setHandle h { b.handle h with obj }

def setMutex (h : ι) (mutex : Option ℕ) (b : Buffers ι α) : Buffers ι α :=
  b.setHandle h { b.handle h with mutex }

/-- `obj = other.obj` or `obj = std::move(other.obj)` -/
def transferObj (d s : ι) (b : Buffers ι α) : PointerTransfer → Buffers ι α
  | .copy => b.setObj d (b.handle s).obj
  | .move => (b.setObj d (b.handle s).obj).setObj s none

/-- `mutex = other.mutex` or `mutex = std::move(other.mutex)` -/
def transferMutex (d s : ι) (b : Buffers ι α) : PointerTransfer → Buffers ι α
  | .copy => b.setMutex d (b.handle s).mutex
  | .move => (b.setMutex d (b.handle s).mutex).setMutex s none

/-- A handle comes to life with null pointers. -/
def construct (h : ι) (b : Buffers ι α) : Buffers ι α :=
  { b.setHandle h .null with live := insert h b.live }

/-- The end of the scope of a handle. -/
def destroy (h : ι) (b : Buffers ι α) : Buffers ι α :=
  { b.setHandle h .null with live := b.live.erase h }

/-- The pointers of `create_with`; the object may be missing. -/
def allocate (h : ι) (objAllocated : Bool) (value : α) (b : Buffers ι α) : Buffers ι α :=
  { b.setHandle h ⟨if objAllocated then some b.allocated else none, some b.allocated⟩ with
    content := Function.update b.content b.allocated value
    allocated := b.allocated + 1 }

/-- `obj.use_count()` -/
def useCount (b : Buffers ι α) (obj : ℕ) : ℕ :=
  (b.live.filter fun h => (b.handle h).obj = some obj).card

end Buffers

open Buffers

/-! ### The functions of a handle -/

/-- A function of a handle, with the result `ρ`. -/
abbrev BufferProgram (ι α ρ : Type) := Program ℕ (Buffers ι α) ρ

namespace ProtectedBuffer

section

variable {ι α ρ : Type}

/-- `CG_ENTER_CRITICAL_SECTION` on the mutex of a handle, or the section for reading. -/
def enterMutex (mode : CriticalSection.Mode) (h : ι) (next : Bool → BufferProgram ι α ρ) :
    BufferProgram ι α ρ :=
  .load fun b => match (b.handle h).mutex with
    | some mutex => .enter mode mutex next
    | none => .fault

variable [DecidableEq ι]

def reset (h : ι) : BufferProgram ι α Unit :=
  .load fun b => match (b.handle h).mutex with
    | some _ =>
        enterMutex .write h fun error =>
          if error then .exit .write (.done ())
          else .store (setObj h none) (.exit .write (.store (setMutex h none) (.done ())))
    | none => .store (setObj h none) (.done ())

/-- `create_with`, where the two allocations may fail -/
def create_with (h : ι) (mutexAllocated objAllocated : Bool) (value : α) :
    BufferProgram ι α Unit :=
  .store (construct h) <|
    if mutexAllocated then .store (allocate h objAllocated value) (.done ()) else .done ()

/-- The body of `lock`, with the value of `lockError` and the result. -/
def lock [Inhabited ρ] (h : ι) (f : Bool → α → α × ρ) : BufferProgram ι α (Bool × ρ) :=
  .load fun b => match (b.handle h).mutex with
    | some _ =>
        enterMutex .write h fun error =>
          if error then .exit .write (.done (true, default))
          else .load fun b => match (b.handle h).obj with
            | some obj =>
                let result := f (decide (b.useCount obj > 1)) (b.content obj)
                .store (fun b => { b with content := Function.update b.content obj result.1 }) <|
                  .exit .write (.done (false, result.2))
            | none => .exit .write (.done (false, default))
    | none => .done (false, default)

/-- `lock` of a function without result -/
def lockVoid (h : ι) (f : Bool → α → α) : BufferProgram ι α (Bool × Unit) :=
  lock h fun isShared value => (f isShared value, ())

omit [DecidableEq ι] in
/-- The body of `lock_shared`, which leaves the section with `CG_EXIT_READ_CRITICAL_SECTION` or
with `CG_EXIT_CRITICAL_SECTION`. -/
def lockSharedWith [Inhabited ρ] (exitMode : CriticalSection.Mode) (h : ι) (f : α → ρ) :
    BufferProgram ι α (Bool × ρ) :=
  .load fun b => match (b.handle h).mutex with
    | some _ =>
        enterMutex .read h fun error =>
          if error then .exit exitMode (.done (true, default))
          else .load fun b => match (b.handle h).obj with
            | some obj => .exit exitMode (.done (false, f (b.content obj)))
            | none => .exit exitMode (.done (false, default))
    | none => .done (false, default)

/-- `lock_shared` of a function with a result -/
def lock_shared [Inhabited ρ] (h : ι) (f : α → ρ) : BufferProgram ι α (Bool × ρ) :=
  lockSharedWith .write h f

/-- `lock_shared` of a function without result -/
def lockSharedVoid (h : ι) (f : α → Unit) : BufferProgram ι α (Bool × Unit) :=
  lockSharedWith .read h f

/-- The copy constructor and the move constructor. -/
def constructFrom (kind : PointerTransfer) (d s : ι) : BufferProgram ι α Unit :=
  .store (construct d) <|
    .load fun b => match (b.handle s).mutex with
      | some _ =>
          enterMutex .write s fun error =>
            if error then
              .exit .write (.store (setMutex d none) (.store (setObj d none) (.done ())))
            else
              .store (transferObj d s · kind) <|
                .exit .write (.store (transferMutex d s · kind) (.done ()))
      | none => .store (setObj d none) (.store (setMutex d none) (.done ()))

/-- The copy assignment and the move assignment. -/
def assign (kind : PointerTransfer) (d s : ι) : BufferProgram ι α Unit :=
  if d = s then .done ()
  else .load fun b => match (b.handle d).mutex, (b.handle s).mutex with
    | some _, some _ =>
        enterMutex .write s fun error_src =>
          enterMutex .write d fun error_dst =>
            if error_src || error_dst then .exit .write (.exit .write (.done ()))
            else
              .store (transferObj d s · kind) <|
                .exit .write (.exit .write (.store (transferMutex d s · kind) (.done ())))
    | some _, none =>
        enterMutex .write d fun error_dst =>
          if error_dst then .exit .write (.done ())
          else .store (setObj d none) (.exit .write (.store (setMutex d none) (.done ())))
    | none, some _ =>
        enterMutex .write s fun error_src =>
          if error_src then .exit .write (.done ())
          else
            .store (transferObj d s · kind) <|
              .exit .write (.store (transferMutex d s · kind) (.done ()))
    | none, none => .store (setObj d none) (.store (setMutex d none) (.done ()))

end

end ProtectedBuffer

/-! ### Histories of handles -/

/-- What a program does with its handles. -/
inductive BufferAction (ι α : Type) where
  | defaultConstruct (h : ι)
  | create_with (h : ι) (mutexAllocated objAllocated : Bool) (value : α)
  | construct (kind : PointerTransfer) (d s : ι)
  | assign (kind : PointerTransfer) (d s : ι)
  | reset (h : ι)
  | scopeEnd (h : ι)

namespace BufferAction

variable {ι α : Type} [DecidableEq ι]

def program : BufferAction ι α → BufferProgram ι α Unit
  | .defaultConstruct h => .store (Buffers.construct h) (.done ())
  | .create_with h mutexAllocated objAllocated value =>
      ProtectedBuffer.create_with h mutexAllocated objAllocated value
  | .construct kind d s => ProtectedBuffer.constructFrom kind d s
  | .assign kind d s => ProtectedBuffer.assign kind d s
  | .reset h => ProtectedBuffer.reset h
  | .scopeEnd h => .store (Buffers.destroy h) (.done ())

/-- A handle is constructed once, and used while it lives. -/
def Possible (b : Buffers ι α) : BufferAction ι α → Prop
  | .defaultConstruct h => h ∉ b.live
  | .create_with h _ _ _ => h ∉ b.live
  | .construct _ d s => d ∉ b.live ∧ s ∈ b.live
  | .assign _ d s => d ∈ b.live ∧ s ∈ b.live
  | .reset h => h ∈ b.live
  | .scopeEnd h => h ∈ b.live

instance (b : Buffers ι α) (a : BufferAction ι α) : Decidable (a.Possible b) := by
  cases a <;> unfold Possible <;> infer_instance

end BufferAction

namespace Buffers

variable {ι α : Type} [DecidableEq ι]

def empty (content : ℕ → α) : Buffers ι α := ⟨∅, fun _ => .null, content, 0⟩

/-- The histories of handles: an action, and for every lock that it takes whether the
acquisition fails. -/
def histories (content : ℕ → α) : Machine (Buffers ι α) (BufferAction ι α × List Bool) where
  init := empty content
  next b a :=
    if a.1.Possible b then (a.1.program.exec [] b a.2).map Prod.snd else none

/-- Handles of one object have one mutex. -/
structure MutexShared (b : Buffers ι α) : Prop where
  guarded : ∀ h, (b.handle h).obj ≠ none → (b.handle h).mutex ≠ none
  shared : ∀ h h', (b.handle h).obj ≠ none → (b.handle h).obj = (b.handle h').obj →
    (b.handle h).mutex = (b.handle h').mutex
  fresh : ∀ h obj, (b.handle h).obj = some obj → obj < b.allocated

variable {b b' : Buffers ι α}

omit [DecidableEq ι] in
/-- Only pointers which were there before. -/
theorem MutexShared.of_handles (holds : b.MutexShared) (allocated : b'.allocated = b.allocated)
    (handles : ∀ h, b'.handle h = .null ∨ ∃ h', b'.handle h = b.handle h') : b'.MutexShared := by
  refine ⟨?_, ?_, ?_⟩
  · intro h object
    rcases handles h with null | ⟨from_, same⟩
    · simp [null, ProtectedBuffer.null] at object
    · rw [same] at object ⊢
      exact holds.guarded from_ object
  · intro h h' object same
    rcases handles h with null | ⟨from_, here⟩
    · simp [null, ProtectedBuffer.null] at object
    · rcases handles h' with null | ⟨from_', there⟩
      · rw [same, null] at object
        exact absurd rfl object
      · rw [here] at object same ⊢
        rw [there] at same ⊢
        exact holds.shared from_ from_' object same
  · intro h obj object
    rw [allocated]
    rcases handles h with null | ⟨from_, same⟩
    · simp [null, ProtectedBuffer.null] at object
    · exact holds.fresh from_ obj (same ▸ object)

theorem handle_setHandle (b : Buffers ι α) (h : ι) (p : ProtectedBuffer) (x : ι) :
    (b.setHandle h p).handle x = if x = h then p else b.handle x := by
  simp [setHandle, Function.update_apply]

/-- Both pointers are exchanged: those of the other handle, which loses them in a move. -/
theorem handle_transfer {d s : ι} (differ : d ≠ s) (kind : PointerTransfer) (x : ι) :
    (transferMutex d s (transferObj d s b kind) kind).handle x =
      if x = d then b.handle s
      else if x = s ∧ kind = .move then .null else b.handle x := by
  have sd : s ≠ d := differ.symm
  cases kind with
  | copy =>
      simp only [transferMutex, transferObj, setMutex, setObj, handle_setHandle]
      split_ifs <;> simp_all
  | move =>
      simp only [transferMutex, transferObj, setMutex, setObj, handle_setHandle]
      split_ifs <;> simp_all [ProtectedBuffer.null]

theorem handle_clear (h x : ι) :
    (setMutex h none (setObj h none b)).handle x = if x = h then .null else b.handle x := by
  simp only [setMutex, setObj, handle_setHandle]
  split_ifs <;> simp_all [ProtectedBuffer.null]

end Buffers

namespace ProtectedBuffer

variable {ι α : Type} [DecidableEq ι] {b b' : Buffers ι α} {d s h : ι} {kind : PointerTransfer}
  {errors : List Bool}

/-- What an assignment leaves: the same handles after an error, else the pointers of the other
handle, or none if it has no mutex. -/
theorem assign_exec (exec : (assign kind d s).exec [] b errors = some ((), b')) :
    b' = b ∨ true ∉ errors ∧ d ≠ s ∧
      (b' = transferMutex d s (transferObj d s b kind) kind ∨
        b' = setMutex d none (setObj d none b)) := by
  unfold assign at exec
  split_ifs at exec with same
  · exact Or.inl (Program.exec_done.mp exec).2.2.2.symm
  · cases onDst : (b.handle d).mutex with
    | none =>
        cases onSrc : (b.handle s).mutex with
        | none =>
            simp only [Program.exec, onDst, onSrc] at exec
            rcases Program.exec_done.mp exec with ⟨-, rfl, -, rfl⟩
            exact Or.inr ⟨List.not_mem_nil, same, Or.inr rfl⟩
        | some src =>
            simp only [Program.exec, onDst, onSrc, enterMutex] at exec
            rcases Program.exec_enter.mp exec with ⟨error, rest, rfl, exec⟩
            cases error with
            | true => exact Or.inl (Program.exec_done.mp exec).2.2.2.symm
            | false =>
                rcases Program.exec_done.mp exec with ⟨-, rfl, -, rfl⟩
                exact Or.inr ⟨by simp, same, Or.inl rfl⟩
    | some dst =>
        cases onSrc : (b.handle s).mutex with
        | none =>
            simp only [Program.exec, onDst, onSrc, enterMutex] at exec
            rcases Program.exec_enter.mp exec with ⟨error, rest, rfl, exec⟩
            cases error with
            | true => exact Or.inl (Program.exec_done.mp exec).2.2.2.symm
            | false =>
                rcases Program.exec_done.mp exec with ⟨-, rfl, -, rfl⟩
                exact Or.inr ⟨by simp, same, Or.inr rfl⟩
        | some src =>
            simp only [Program.exec, onDst, onSrc, enterMutex] at exec
            rcases Program.exec_enter.mp exec with ⟨error_src, rest, rfl, inner⟩
            simp only [Program.exec, onDst] at inner
            rcases Program.exec_enter.mp inner with ⟨error_dst, rest, rfl, body⟩
            by_cases either : (error_src || error_dst) = true
            · rw [if_pos either] at body
              exact Or.inl (Program.exec_done.mp body).2.2.2.symm
            · rw [if_neg either] at body
              rcases Program.exec_done.mp body with ⟨-, rfl, -, rfl⟩
              rw [Bool.not_eq_true, Bool.or_eq_false_iff] at either
              exact Or.inr ⟨by simp [either], same, Or.inl rfl⟩

theorem reset_exec (exec : (reset h).exec [] b errors = some ((), b')) :
    b' = b ∨ b' = setMutex h none (setObj h none b) ∨
      (b.handle h).mutex = none ∧ b' = setObj h none b := by
  unfold reset at exec
  cases mutex : (b.handle h).mutex with
  | none =>
      simp only [Program.exec, mutex] at exec
      exact Or.inr (Or.inr ⟨rfl, (Program.exec_done.mp exec).2.2.2.symm⟩)
  | some m =>
      simp only [Program.exec, mutex, enterMutex] at exec
      rcases Program.exec_enter.mp exec with ⟨error, rest, rfl, exec⟩
      cases error with
      | true => exact Or.inl (Program.exec_done.mp exec).2.2.2.symm
      | false => exact Or.inr (Or.inl (Program.exec_done.mp exec).2.2.2.symm)

theorem constructFrom_exec (exec : (constructFrom kind d s).exec [] b errors = some ((), b')) :
    b' = transferMutex d s (transferObj d s (construct d b) kind) kind ∨
      b' = setMutex d none (setObj d none (construct d b)) ∨
        b' = setObj d none (setMutex d none (construct d b)) := by
  simp only [constructFrom, Program.exec] at exec
  cases mutex : ((construct d b).handle s).mutex with
  | none =>
      simp only [Program.exec, mutex] at exec
      exact Or.inr (Or.inl (Program.exec_done.mp exec).2.2.2.symm)
  | some m =>
      simp only [Program.exec, mutex, enterMutex] at exec
      rcases Program.exec_enter.mp exec with ⟨error, rest, rfl, exec⟩
      cases error with
      | true => exact Or.inr (Or.inr (Program.exec_done.mp exec).2.2.2.symm)
      | false => exact Or.inl (Program.exec_done.mp exec).2.2.2.symm

theorem create_with_exec {mutexAllocated objAllocated : Bool} {value : α}
    (exec : (create_with h mutexAllocated objAllocated value).exec [] b errors = some ((), b')) :
    b' = construct h b ∨ b' = allocate h objAllocated value (construct h b) := by
  simp only [create_with, Program.exec] at exec
  cases mutexAllocated with
  | true => exact Or.inr (Program.exec_done.mp exec).2.2.2.symm
  | false => exact Or.inl (Program.exec_done.mp exec).2.2.2.symm

end ProtectedBuffer

/-! ### The mutex of an object in every history -/

namespace Buffers

variable {ι α : Type} [DecidableEq ι] {b b' : Buffers ι α} {d s h : ι}

theorem handle_construct (h x : ι) :
    (construct h b).handle x = if x = h then .null else b.handle x := handle_setHandle b h _ x

theorem handle_destroy (h x : ι) :
    (destroy h b).handle x = if x = h then .null else b.handle x := handle_setHandle b h _ x

theorem allocated_transfer (kind : PointerTransfer) :
    (transferMutex d s (transferObj d s b kind) kind).allocated = b.allocated := by
  cases kind <;> rfl

/-- A handle which is made null keeps the others as they are. -/
theorem MutexShared.of_null (holds : b.MutexShared) (allocated : b'.allocated = b.allocated)
    (handles : ∀ x, b'.handle x = if x = h then .null else b.handle x) : b'.MutexShared := by
  apply holds.of_handles allocated
  intro x
  rw [handles]
  split_ifs with here
  · exact Or.inl rfl
  · exact Or.inr ⟨x, rfl⟩

theorem MutexShared.transfer (holds : b.MutexShared) (differ : d ≠ s) (kind : PointerTransfer) :
    (transferMutex d s (transferObj d s b kind) kind).MutexShared := by
  apply holds.of_handles (allocated_transfer kind)
  intro x
  rw [handle_transfer differ]
  split_ifs with onDst onSrc
  · exact Or.inr ⟨s, rfl⟩
  · exact Or.inl rfl
  · exact Or.inr ⟨x, rfl⟩

/-- A new object gets a new mutex. -/
theorem MutexShared.allocate (holds : b.MutexShared) (objAllocated : Bool) (value : α) :
    (allocate h objAllocated value b).MutexShared := by
  have handles : ∀ x, (Buffers.allocate h objAllocated value b).handle x =
      if x = h then ⟨if objAllocated then some b.allocated else none, some b.allocated⟩
      else b.handle x := handle_setHandle b h _
  have allocated : (Buffers.allocate h objAllocated value b).allocated = b.allocated + 1 := rfl
  -- no other handle has the new object
  have new : ∀ x, (b.handle x).obj ≠ some b.allocated := by
    intro x object
    exact absurd (holds.fresh x _ object) (lt_irrefl _)
  refine ⟨?_, ?_, ?_⟩
  · intro x object
    rw [handles] at object ⊢
    by_cases here : x = h
    · simp [here]
    · rw [if_neg here] at object ⊢
      exact holds.guarded x object
  · intro x y object same
    simp only [handles] at object same ⊢
    split_ifs at object same ⊢ with hereX made hereY hereY hereY
    · rfl
    · exact absurd same.symm (new y)
    · rfl
    · exact absurd rfl object
    · exact absurd same (new x)
    · exact absurd same object
    · exact holds.shared x y object same
  · intro x obj object
    rw [handles] at object
    rw [allocated]
    by_cases here : x = h
    · rw [if_pos here] at object
      cases objAllocated with
      | true =>
          cases object
          exact Nat.lt_succ_self _
      | false => cases object
    · rw [if_neg here] at object
      exact Nat.lt_succ_of_lt (holds.fresh x obj object)

/-- One action keeps the mutexes shared. -/
theorem MutexShared.next {a : BufferAction ι α} {errors : List Bool} (holds : b.MutexShared)
    (possible : a.Possible b) (exec : a.program.exec [] b errors = some ((), b')) :
    b'.MutexShared := by
  have constructed : ∀ x, (construct x b).MutexShared := fun x =>
    holds.of_null rfl (handle_construct x)
  cases a with
  | defaultConstruct h =>
      rcases Program.exec_done.mp exec with ⟨-, -, -, rfl⟩
      exact constructed h
  | create_with h mutexAllocated objAllocated value =>
      rcases ProtectedBuffer.create_with_exec exec with rfl | rfl
      · exact constructed h
      · exact (constructed h).allocate objAllocated value
  | construct kind d s =>
      have differ : d ≠ s := fun same => possible.1 (same ▸ possible.2)
      rcases ProtectedBuffer.constructFrom_exec exec with rfl | rfl | rfl
      · exact (constructed d).transfer differ kind
      · exact (constructed d).of_null rfl (handle_clear d)
      · refine (constructed d).of_null (h := d) rfl ?_
        intro x
        simp only [setObj, setMutex, handle_setHandle]
        split_ifs <;> simp_all [ProtectedBuffer.null]
  | assign kind d s =>
      rcases ProtectedBuffer.assign_exec exec with rfl | ⟨-, differ, rfl | rfl⟩
      · exact holds
      · exact holds.transfer differ kind
      · exact holds.of_null rfl (handle_clear d)
  | reset h =>
      rcases ProtectedBuffer.reset_exec exec with rfl | rfl | ⟨mutex, rfl⟩
      · exact holds
      · exact holds.of_null rfl (handle_clear h)
      · refine holds.of_null (h := h) rfl ?_
        intro x
        simp only [setObj, handle_setHandle]
        split_ifs with here
        · rw [mutex]
          rfl
        · rfl
  | scopeEnd h =>
      rcases Program.exec_done.mp exec with ⟨-, -, -, rfl⟩
      exact holds.of_null rfl (handle_destroy h)

omit [DecidableEq ι] in
theorem mutexShared_empty (content : ℕ → α) : (empty content : Buffers ι α).MutexShared :=
  ⟨fun _ object => absurd rfl object, fun _ _ _ _ => rfl, fun _ _ object => nomatch object⟩

theorem mutexShared_of_runs {content : ℕ → α} {actions : List (BufferAction ι α × List Bool)}
    (runs : (histories content).Runs actions b) : b.MutexShared := by
  apply runs.invariant (mutexShared_empty content)
  rintro before ⟨a, errors⟩ after holds - next
  simp only [histories] at next
  split_ifs at next with possible
  rcases Option.map_eq_some_iff.mp next with ⟨⟨⟨⟩, final⟩, exec, rfl⟩
  exact holds.next possible exec

/-- In every history a handle with an object has a mutex, the handles of one object have the
same mutex, and an assignment which fails to acquire a lock leaves all the handles as they
were. -/
theorem mutex_shared_in_histories {content : ℕ → α}
    {actions : List (BufferAction ι α × List Bool)} (runs : (histories content).Runs actions b) :
    (∀ h ∈ b.live, (b.handle h).obj ≠ none → (b.handle h).mutex ≠ none) ∧
      (∀ h ∈ b.live, ∀ h' ∈ b.live, (b.handle h).obj ≠ none →
        (b.handle h).obj = (b.handle h').obj → (b.handle h).mutex = (b.handle h').mutex) ∧
      ∀ kind d s errors b', (ProtectedBuffer.assign kind d s).exec [] b errors = some ((), b') →
        true ∈ errors → b' = b := by
  have holds := mutexShared_of_runs runs
  refine ⟨fun h _ => holds.guarded h, fun h _ h' _ => holds.shared h h', ?_⟩
  intro kind d s errors b' exec failed
  rcases ProtectedBuffer.assign_exec exec with same | ⟨acquired, -⟩
  · exact same
  · exact absurd failed acquired

/-- A tensor, a copy of it, an assignment which fails and a reset. -/
def tensorHistory : List (BufferAction Bool Unit × List Bool) :=
  [(.create_with true true true (), []), (.construct .copy false true, [false]),
    (.assign .move false true, [false, true]), (.reset true, [false])]

theorem tensorHistory_shared :
    ∃ b : Buffers Bool Unit, (histories fun _ => ()).Runs tensorHistory b ∧
      b.live = {false, true} ∧
      ((∀ h ∈ b.live, (b.handle h).obj ≠ none → (b.handle h).mutex ≠ none) ∧
        (∀ h ∈ b.live, ∀ h' ∈ b.live, (b.handle h).obj ≠ none →
          (b.handle h).obj = (b.handle h').obj → (b.handle h).mutex = (b.handle h').mutex) ∧
        ∀ kind d s errors b', (ProtectedBuffer.assign kind d s).exec [] b errors = some ((), b') →
          true ∈ errors → b' = b) := by
  rcases run : (histories (ι := Bool) fun _ => ()).run (empty fun _ => ()) tensorHistory with
    _ | b
  · exact absurd run (by decide)
  · have runs := Machine.runs_of_run run
    refine ⟨b, runs, ?_, mutex_shared_in_histories runs⟩
    have live := congrArg (Option.map Buffers.live) run
    exact (Option.some.inj live).symm.trans (by decide)

end Buffers

end CmsisStream.Platform
