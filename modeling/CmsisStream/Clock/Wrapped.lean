import Mathlib.Data.Int.Order.Basic
import Mathlib.Tactic.LinearCombination
import Mathlib.Tactic.Zify

/-!
# Time limits on counters which wrap

A counter is converted to time units: its count is multiplied, kept below a
modulus, shifted and divided.  The result is a word.  A limit is the converted
time of the start plus a duration, in the same word.  This file compares such a
limit with the true elapsed time, for any two counts.
-/

namespace WrappedClock

/-- How a counter is read in time units. -/
structure Conversion where
  /-- the parts of a count -/
  step : ℕ
  /-- where the number of parts wraps -/
  modulus : ℕ
  /-- added for the rounding -/
  offset : ℕ
  /-- the parts of a time unit -/
  unit : ℕ
  /-- the number of values of a time -/
  size : ℕ
  unit_pos : 0 < unit

namespace Conversion

variable (clock : Conversion)

/-- The parts which are divided, for a count which never wraps. -/
def parts (count : ℕ) : ℕ := clock.step * count % clock.modulus + clock.offset

/-- The time which is read at a count. -/
def reading (count : ℕ) : ℕ := clock.parts count / clock.unit % clock.size

/-- The comparison with the limit, on words. -/
def PastLimit (start duration count : ℕ) : Prop :=
  (clock.reading start + duration) % clock.size < clock.reading count

/-- The parts from the start to the count. -/
def elapsed (start count : ℕ) : ℕ := clock.step * (count - start)

/-- The duration is over. -/
def Over (start duration count : ℕ) : Prop :=
  duration * clock.unit < clock.elapsed start count

/-- How often the number of parts wraps from the start to the count. -/
def partWraps (start count : ℕ) : ℤ :=
  (clock.step * count / clock.modulus : ℕ) - (clock.step * start / clock.modulus : ℕ)

/-- How often the limit wraps. -/
def limitWraps (start duration : ℕ) : ℕ :=
  (clock.parts start + duration * clock.unit) / (clock.unit * clock.size)

/-- How often the time at the count wraps. -/
def readingWraps (count : ℕ) : ℕ := clock.parts count / (clock.unit * clock.size)

/-- What the comparison is wrong by: the part of a unit which is missing at the start, and
the wraps of the counter, of the time and of the limit. -/
def error (start duration count : ℕ) : ℤ :=
  (clock.unit - 1 - clock.parts start % clock.unit : ℤ) +
    clock.partWraps start count * clock.modulus +
    (clock.readingWraps count - clock.limitWraps start duration : ℤ) *
      (clock.unit * clock.size : ℕ)

/-- The parts since the first one after the duration, negative before it. -/
def lateness (start duration count : ℕ) : ℤ :=
  clock.elapsed start count - (duration * clock.unit + 1 : ℕ)

variable {clock} {start duration count : ℕ}

theorem over_iff : clock.Over start duration count ↔ 0 ≤ clock.lateness start duration count := by
  unfold Over lateness
  omega

/-- The parts at the count, from those at the start. -/
theorem parts_add_elapsed (clock : Conversion) (order : start ≤ count) :
    (clock.parts count : ℤ) =
      clock.parts start + clock.elapsed start count -
        clock.partWraps start count * clock.modulus := by
  have whole : clock.step * count = clock.step * start + clock.elapsed start count := by
    rw [elapsed, ← Nat.mul_add, Nat.add_sub_cancel' order]
  have atStart := Nat.div_add_mod (clock.step * start) clock.modulus
  have atCount := Nat.div_add_mod (clock.step * count) clock.modulus
  unfold parts partWraps
  zify at whole atStart atCount
  push_cast
  linear_combination whole - atStart + atCount

theorem limit_mod (clock : Conversion) (start duration : ℕ) :
    ((clock.reading start + duration) % clock.size : ℤ) =
      clock.parts start / clock.unit + duration -
        clock.limitWraps start duration * clock.size := by
  have wraps : clock.limitWraps start duration =
      (clock.parts start / clock.unit + duration) / clock.size := by
    rw [limitWraps, ← Nat.div_div_eq_div_mul, Nat.add_mul_div_right _ _ clock.unit_pos]
  have split := Nat.div_add_mod (clock.parts start / clock.unit + duration) clock.size
  rw [reading, wraps, ← Nat.cast_add, ← Int.natCast_mod, Nat.mod_add_mod]
  zify at split
  push_cast
  linear_combination split

theorem reading_eq (clock : Conversion) (count : ℕ) :
    (clock.reading count : ℤ) =
      clock.parts count / clock.unit - clock.readingWraps count * clock.size := by
  have split := Nat.div_add_mod (clock.parts count / clock.unit) clock.size
  rw [reading, readingWraps, ← Nat.div_div_eq_div_mul]
  zify at split
  push_cast
  linear_combination split

/-- The comparison is that of the elapsed time, shifted by the error. -/
theorem pastLimit_iff (order : start ≤ count) :
    clock.PastLimit start duration count ↔
      clock.error start duration count ≤ clock.lateness start duration count := by
  have unit_pos : (0 : ℤ) < clock.unit := by exact_mod_cast clock.unit_pos
  have atStart := Int.mul_ediv_add_emod (clock.parts start) clock.unit
  have atCount := parts_add_elapsed clock order
  calc clock.PastLimit start duration count
      ↔ ((clock.parts start : ℤ) / clock.unit + duration + 1 +
          (clock.readingWraps count - clock.limitWraps start duration) * clock.size : ℤ) ≤
            clock.parts count / clock.unit := by
        have limit := limit_mod clock start duration
        have now := reading_eq clock count
        unfold PastLimit
        zify
        rw [limit, now, sub_mul]
        omega
    _ ↔ ((clock.parts start : ℤ) / clock.unit + duration + 1 +
          (clock.readingWraps count - clock.limitWraps start duration) * clock.size : ℤ) *
            clock.unit ≤ clock.parts count := Int.le_ediv_iff_mul_le unit_pos
    _ ↔ clock.error start duration count ≤ clock.lateness start duration count := by
        have difference :
            ((clock.parts start : ℤ) / clock.unit + duration + 1 +
              (clock.readingWraps count - clock.limitWraps start duration) * clock.size) *
                clock.unit - clock.parts count =
              clock.error start duration count - clock.lateness start duration count := by
          unfold error lateness
          push_cast
          linear_combination atStart - atCount
        omega

/-- The comparison answers whether the duration is over exactly outside the error. -/
theorem pastLimit_iff_over_iff (order : start ≤ count) :
    (clock.PastLimit start duration count ↔ clock.Over start duration count) ↔
      clock.lateness start duration count < min 0 (clock.error start duration count) ∨
        max 0 (clock.error start duration count) ≤ clock.lateness start duration count := by
  rw [pastLimit_iff order, over_iff]
  omega

end Conversion

end WrappedClock
