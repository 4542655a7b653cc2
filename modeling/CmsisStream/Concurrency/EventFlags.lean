import Mathlib.Data.List.Basic

/-!
# Event flags

A set of sticky flags which threads post, clear and wait for.  Each operation is atomic.
-/

/-- The flags which have been posted and not cleared. -/
structure EventFlags (φ : Type) where
  isSet : φ → Bool

namespace EventFlags

variable {φ : Type} [DecidableEq φ]

def none : EventFlags φ := ⟨fun _ => false⟩

def post (flags : EventFlags φ) (posted : List φ) : EventFlags φ :=
  ⟨fun f => if f ∈ posted then true else flags.isSet f⟩

def clear (flags : EventFlags φ) (cleared : List φ) : EventFlags φ :=
  ⟨fun f => if f ∈ cleared then false else flags.isSet f⟩

/-- The flags that a thread was waiting for and the flags which stay, once one of them is
posted. -/
def wait (flags : EventFlags φ) (mask : List φ) (clear_flags : Bool) :
    Option (List φ × EventFlags φ) :=
  let res := mask.filter flags.isSet
  if res = [] then .none else some (res, if clear_flags then flags.clear res else flags)

variable {flags flags' : EventFlags φ} {mask res : List φ}

omit [DecidableEq φ] in
@[simp]
theorem isSet_none (f : φ) : (none : EventFlags φ).isSet f = false := rfl

@[simp]
theorem isSet_post (posted : List φ) (f : φ) :
    (flags.post posted).isSet f = if f ∈ posted then true else flags.isSet f := rfl

@[simp]
theorem isSet_clear (cleared : List φ) (f : φ) :
    (flags.clear cleared).isSet f = if f ∈ cleared then false else flags.isSet f := rfl

/-- To clear the flags which are set is to clear them all. -/
theorem clear_filter (flags : EventFlags φ) (mask : List φ) :
    flags.clear (mask.filter flags.isSet) = flags.clear mask := by
  simp only [clear, mk.injEq]
  funext f
  cases set : flags.isSet f <;> simp [set]

/-- A thread goes on with the flags which are set, at least one, and these are cleared. -/
theorem wait_eq_some (waited : flags.wait mask true = some (res, flags')) :
    (∃ f ∈ mask, flags.isSet f = true) ∧ (∀ f, f ∈ res ↔ f ∈ mask ∧ flags.isSet f = true) ∧
      flags' = flags.clear mask := by
  simp only [wait, ↓reduceIte] at waited
  split at waited
  · cases waited
  · rename_i ready
    cases waited
    refine ⟨?_, fun f => List.mem_filter, clear_filter flags mask⟩
    rcases List.exists_mem_of_ne_nil _ ready with ⟨f, mem⟩
    exact ⟨f, List.mem_filter.mp mem⟩

theorem wait_singleton_eq_some {f : φ} (waited : flags.wait [f] true = some (res, flags')) :
    flags.isSet f = true ∧ flags' = flags.clear [f] := by
  rcases wait_eq_some waited with ⟨⟨f', mem, set⟩, -, cleared⟩
  rw [List.mem_singleton.mp mem] at set
  exact ⟨set, cleared⟩

/-- The flag stays down while nobody posts it. -/
theorem wait_singleton_eq_none {f : φ} (waited : flags.wait [f] true = .none) :
    flags.isSet f = false := by
  simp only [wait, ↓reduceIte] at waited
  split at waited
  · rename_i ready
    simpa [List.filter_cons] using ready
  · cases waited

/-- A thread does not wait for a flag which is set. -/
theorem isSome_wait_singleton {f : φ} (set : flags.isSet f = true) :
    (flags.wait [f] true).isSome := by
  simp [wait, set]

end EventFlags
