import Mathlib.Data.List.Basic
import Mathlib.Logic.Function.Basic

/-!
# Tables of reader/writer locks

A table keeps, for every key, one process which may write or several which read.
The answers that processes got from it show who holds a lock, and a process
which holds one for writing holds it alone.
-/

namespace ReadWriteLock

inductive Operation where
  | lock
  | unlock
  | readLock
  | readUnlock
deriving DecidableEq

variable {π κ : Type}

/-- What a process was answered. -/
structure Answer (κ π : Type) where
  process : π
  operation : Operation
  key : κ
  granted : Bool

/-- A process was granted an operation on a key and did not try to end it since. -/
def Holds (begins ends : Operation) (answers : List (Answer κ π)) (process : π) (key : κ) : Prop :=
  ∃ front back, answers = front ++ ⟨process, begins, key, true⟩ :: back ∧
    ∀ granted, ⟨process, ends, key, granted⟩ ∉ back

abbrev WriteHolds (answers : List (Answer κ π)) : π → κ → Prop := Holds .lock .unlock answers

abbrev ReadHolds (answers : List (Answer κ π)) : π → κ → Prop :=
  Holds .readLock .readUnlock answers

/-- A process which holds a lock for writing excludes every other one. -/
def Excludes (answers : List (Answer κ π)) : Prop :=
  ∀ process other key, WriteHolds answers process key →
    WriteHolds answers other key ∨ ReadHolds answers other key → process = other

theorem holds_append {begins ends : Operation} {answers : List (Answer κ π)}
    {answer : Answer κ π} {process : π} {key : κ}
    (holds : Holds begins ends (answers ++ [answer]) process key) :
    answer = ⟨process, begins, key, true⟩ ∨
      Holds begins ends answers process key ∧
        ¬ (answer.operation = ends ∧ answer.process = process ∧ answer.key = key) := by
  rcases holds with ⟨front, back, split, open_⟩
  rcases List.eq_nil_or_concat back with rfl | ⟨middle, last, rfl⟩
  · left
    exact (List.append_inj' split rfl).2 |> List.singleton_inj.mp
  · right
    rw [List.concat_eq_append, ← List.cons_append, ← List.append_assoc] at split
    rcases List.append_inj' split rfl with ⟨whole, same⟩
    obtain rfl := List.singleton_inj.mp same
    refine ⟨⟨front, middle, whole, ?_⟩, ?_⟩
    · intro granted ended
      exact open_ granted (by simp [ended])
    · rintro ⟨rfl, rfl, rfl⟩
      exact open_ answer.granted (by simp)

/-- The lock of one key. -/
structure Entry (π : Type) where
  writer : Option π
  readers : List π

variable [DecidableEq π]

namespace Entry

def free : Entry π := ⟨none, []⟩

/-- The lock after an operation of a process, and whether the operation was granted. -/
def perform (entry : Entry π) (process : π) : Operation → Entry π × Bool
  | .lock =>
      if entry.writer = none ∧ entry.readers = [] then ({ entry with writer := process }, true)
      else (entry, false)
  | .unlock =>
      if entry.writer = some process then ({ entry with writer := none }, true) else (entry, false)
  | .readLock =>
      if entry.writer = none then ({ entry with readers := process :: entry.readers }, true)
      else (entry, false)
  | .readUnlock =>
      if process ∈ entry.readers then
        ({ entry with readers := entry.readers.erase process }, true)
      else (entry, false)

/-- A writer is alone. -/
def Exclusive (entry : Entry π) : Prop := entry.writer ≠ none → entry.readers = []

theorem perform_exclusive {entry : Entry π} (exclusive : entry.Exclusive) (process : π)
    (operation : Operation) : (entry.perform process operation).1.Exclusive := by
  unfold Exclusive at *
  cases operation with
  | lock =>
      simp only [perform]
      split_ifs with free
      · exact fun _ => free.2
      · exact exclusive
  | unlock =>
      simp only [perform]
      split_ifs
      · simp
      · exact exclusive
  | readLock =>
      simp only [perform]
      split_ifs with unwritten
      · simp [unwritten]
      · exact exclusive
  | readUnlock =>
      simp only [perform]
      split_ifs
      · intro written
        simp [exclusive written]
      · exact exclusive

/-- Only the writer ends its lock. -/
theorem perform_writer {entry : Entry π} {process other : π} {operation : Operation}
    (holds : entry.writer = some other)
    (kept : ¬ (operation = .unlock ∧ process = other)) :
    (entry.perform process operation).1.writer = some other := by
  cases operation with
  | lock => simp [perform, holds]
  | unlock =>
      have differ : ¬ other = process := fun same => kept ⟨rfl, same.symm⟩
      simp [perform, holds, differ]
  | readLock => simp [perform, holds]
  | readUnlock =>
      simp only [perform]
      split_ifs <;> exact holds

/-- Only a reader ends its lock. -/
theorem mem_readers_perform {entry : Entry π} {process other : π} {operation : Operation}
    (holds : other ∈ entry.readers)
    (kept : ¬ (operation = .readUnlock ∧ process = other)) :
    other ∈ (entry.perform process operation).1.readers := by
  cases operation with
  | lock =>
      simp only [perform]
      split_ifs <;> exact holds
  | unlock =>
      simp only [perform]
      split_ifs <;> exact holds
  | readLock =>
      simp only [perform]
      split_ifs
      · exact List.mem_cons_of_mem _ holds
      · exact holds
  | readUnlock =>
      have differ : other ≠ process := fun same => kept ⟨rfl, same.symm⟩
      simp only [perform]
      split_ifs
      · exact (List.mem_erase_of_ne differ).mpr holds
      · exact holds

theorem writer_of_granted {entry : Entry π} {process : π}
    (granted : (entry.perform process .lock).2 = true) :
    (entry.perform process .lock).1.writer = some process := by
  unfold perform at *
  split_ifs at * <;> simp_all

theorem mem_readers_of_granted {entry : Entry π} {process : π}
    (granted : (entry.perform process .readLock).2 = true) :
    process ∈ (entry.perform process .readLock).1.readers := by
  unfold perform at *
  split_ifs at * <;> simp_all

end Entry

variable [DecidableEq κ]

/-- The answers of a table, which starts with free locks.  A request may be refused before it
reaches the table. -/
inductive Serves : List (Answer κ π) → (κ → Entry π) → Prop
  | start : Serves [] fun _ => Entry.free
  | perform {answers : List (Answer κ π)} {table : κ → Entry π} (served : Serves answers table)
      (process : π) (operation : Operation) (key : κ) :
      Serves
        (answers ++ [⟨process, operation, key, ((table key).perform process operation).2⟩])
        (Function.update table key ((table key).perform process operation).1)
  | refuse {answers : List (Answer κ π)} {table : κ → Entry π} (served : Serves answers table)
      (process : π) (operation : Operation) (key : κ) :
      Serves (answers ++ [⟨process, operation, key, false⟩]) table

/-- The table knows all the holders. -/
theorem Serves.known {answers : List (Answer κ π)} {table : κ → Entry π}
    (served : Serves answers table) :
    (∀ process key, WriteHolds answers process key → (table key).writer = some process) ∧
      (∀ process key, ReadHolds answers process key → process ∈ (table key).readers) ∧
        ∀ key, (table key).Exclusive := by
  induction served with
  | start =>
      refine ⟨?_, ?_, ?_⟩
      · rintro process key ⟨front, back, split, -⟩
        simp at split
      · rintro process key ⟨front, back, split, -⟩
        simp at split
      · intro key written
        rfl
  | @perform answers table served process operation key ih =>
      rcases ih with ⟨writers, readers, exclusive⟩
      refine ⟨?_, ?_, ?_⟩
      · intro other key' holds
        rcases holds_append holds with answer | ⟨before, kept⟩
        · rw [Answer.mk.injEq] at answer
          rcases answer with ⟨rfl, rfl, rfl, granted⟩
          rw [Function.update_self]
          exact Entry.writer_of_granted granted
        · by_cases same : key' = key
          · subst same
            rw [Function.update_self]
            exact Entry.perform_writer (writers other key' before)
              fun ended => kept ⟨ended.1, ended.2, rfl⟩
          · rw [Function.update_of_ne same]
            exact writers other key' before
      · intro other key' holds
        rcases holds_append holds with answer | ⟨before, kept⟩
        · rw [Answer.mk.injEq] at answer
          rcases answer with ⟨rfl, rfl, rfl, granted⟩
          rw [Function.update_self]
          exact Entry.mem_readers_of_granted granted
        · by_cases same : key' = key
          · subst same
            rw [Function.update_self]
            exact Entry.mem_readers_perform (readers other key' before)
              fun ended => kept ⟨ended.1, ended.2, rfl⟩
          · rw [Function.update_of_ne same]
            exact readers other key' before
      · intro key'
        by_cases same : key' = key
        · subst same
          rw [Function.update_self]
          exact Entry.perform_exclusive (exclusive key') process operation
        · rw [Function.update_of_ne same]
          exact exclusive key'
  | refuse served process operation key ih =>
      rcases ih with ⟨writers, readers, exclusive⟩
      refine ⟨?_, ?_, exclusive⟩
      · intro other key' holds
        rcases holds_append holds with answer | ⟨before, -⟩
        · cases answer
        · exact writers other key' before
      · intro other key' holds
        rcases holds_append holds with answer | ⟨before, -⟩
        · cases answer
        · exact readers other key' before

theorem Serves.excludes {answers : List (Answer κ π)} {table : κ → Entry π}
    (served : Serves answers table) : Excludes answers := by
  rcases served.known with ⟨writers, readers, exclusive⟩
  rintro process other key writes (alsoWrites | reads)
  · have writer := writers process key writes
    rw [writers other key alsoWrites] at writer
    exact (Option.some.inj writer).symm
  · have written : (table key).writer ≠ none := by simp [writers process key writes]
    have reader := readers other key reads
    rw [exclusive key written] at reader
    exact absurd reader List.not_mem_nil

end ReadWriteLock
