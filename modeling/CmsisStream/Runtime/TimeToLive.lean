import CmsisStream.Clock.Wrapped
import CmsisStream.Runtime.EventQueue

/-!
# Time to live of an event

`execute` drops a message when the present time in ms is past the time stamp of
the message plus the time to live of its event.  Time stamps are counts of 32
bits: ms for POSIX, kernel ticks for CMSIS-RTOS, cycles for Zephyr.  This file
compares the test of each port with the time which really elapsed.
-/

namespace CmsisStream.Runtime

open Codec (Word)
open WrappedClock (Conversion)

/-- The tick frequency of a CMSIS-RTOS kernel, `osKernelGetTickFreq()`. -/
structure KernelTicks where
  tickFreq : Word 4
  tickFreq_ne : tickFreq ≠ 0

/-- The cycle counter of Zephyr. -/
structure CycleClock where
  cyclesPerSec : ℕ
  cyclesPerSec_pos : 0 < cyclesPerSec
  /-- `k_cyc_to_ms_near32` -/
  cycToMsNear32 : Word 4 → Word 4
  /-- it rounds to the nearest ms, in 32 bits -/
  nearest : ∀ t, (cycToMsNear32 t).toNat =
    (2000 * t.toNat + cyclesPerSec) / (2 * cyclesPerSec) % 2 ^ 32

/-- The port which a queue belongs to. -/
inductive Port where
  | posix
  | cmsisRtos (ticks : KernelTicks)
  | zephyr (cycles : CycleClock)

namespace Port

/-- The ms of a time stamp. -/
def toMs : Port → Word 4 → Word 4
  | .posix, timestamp => timestamp
  | .cmsisRtos ticks, timestamp => 1000 * timestamp / ticks.tickFreq
  | .zephyr cycles, timestamp => cycles.cycToMsNear32 timestamp

/-- The test of `execute` on a popped message. -/
def eventExpired (port : Port) (ttl timestamp now : Word 4) : Bool :=
  if ttl ≠ 0 then
    let limitMs := port.toMs timestamp + ttl
    let nowMs := port.toMs now
    decide (nowMs > limitMs)
  else false

/-- The counts of a second. -/
def frequency : Port → ℕ
  | .posix => 1000
  | .cmsisRtos ticks => ticks.tickFreq.toNat
  | .zephyr cycles => cycles.cyclesPerSec

/-- `CG_GET_TIME_STAMP()` when the counter has made `count` steps. -/
def timeStamp (count : ℕ) : Word 4 := Word.ofNat 4 count

/-- More than `ttl` ms elapsed between the two counts. -/
def Outlived (port : Port) (ttl : Word 4) (pushed dispatched : ℕ) : Prop :=
  ttl.toNat * port.frequency < 1000 * (dispatched - pushed)

/-- The test drops exactly the messages which are too old. -/
def DropsExactly (port : Port) (ttl : Word 4) (pushed dispatched : ℕ) : Prop :=
  port.eventExpired ttl (timeStamp pushed) (timeStamp dispatched) = true ↔
    port.Outlived ttl pushed dispatched

theorem tickFreq_pos (ticks : KernelTicks) : 0 < ticks.tickFreq.toNat :=
  Nat.pos_of_ne_zero fun zero => ticks.tickFreq_ne (BitVec.eq_of_toNat_eq zero)

theorem two_cycles_pos (cycles : CycleClock) : 0 < 2 * cycles.cyclesPerSec :=
  Nat.mul_pos two_pos cycles.cyclesPerSec_pos

/-- How a port reads its counter in ms. -/
def conversion : Port → Conversion
  | .posix =>
      { step := 1, modulus := 2 ^ 32, offset := 0, unit := 1, size := 2 ^ 32
        unit_pos := one_pos }
  | .cmsisRtos ticks =>
      { step := 1000, modulus := 2 ^ 32, offset := 0, unit := ticks.tickFreq.toNat
        size := 2 ^ 32, unit_pos := tickFreq_pos ticks }
  | .zephyr cycles =>
      { step := 2000, modulus := 2000 * 2 ^ 32, offset := cycles.cyclesPerSec
        unit := 2 * cycles.cyclesPerSec, size := 2 ^ 32, unit_pos := two_cycles_pos cycles }

/-- The age of the message is not between the time to live and the time to live plus the
error of the test: the missing part of a ms and the wraps. -/
def OutsideError (port : Port) (ttl : Word 4) (pushed dispatched : ℕ) : Prop :=
  let error := port.conversion.error pushed ttl.toNat dispatched
  let lateness := port.conversion.lateness pushed ttl.toNat dispatched
  lateness < min 0 error ∨ max 0 error ≤ lateness

/-! ### The conversions -/

theorem toNat_timeStamp (count : ℕ) : (timeStamp count).toNat = count % 2 ^ 32 := by
  simp [timeStamp, Word.ofNat]

theorem posix_reading (count : ℕ) : (timeStamp count).toNat = posix.conversion.reading count := by
  rw [toNat_timeStamp]
  simp [Conversion.reading, Conversion.parts, conversion]

theorem cmsisRtos_reading (ticks : KernelTicks) (count : ℕ) :
    (1000 * timeStamp count / ticks.tickFreq).toNat =
      (cmsisRtos ticks).conversion.reading count := by
  have small : 1000 * count % 2 ^ 32 / ticks.tickFreq.toNat < 2 ^ 32 :=
    (Nat.div_le_self _ _).trans_lt (Nat.mod_lt _ (by omega))
  have product : (1000 * timeStamp count).toNat = 1000 * count % 2 ^ 32 := by
    rw [BitVec.toNat_mul, toNat_timeStamp]
    exact Nat.mul_mod_mod 1000 count (2 ^ 32)
  rw [BitVec.toNat_udiv, product]
  exact (Nat.mod_eq_of_lt small).symm

theorem zephyr_reading (cycles : CycleClock) (count : ℕ) :
    (cycles.cycToMsNear32 (timeStamp count)).toNat =
      (zephyr cycles).conversion.reading count := by
  rw [cycles.nearest, toNat_timeStamp, ← Nat.mul_mod_mul_left]
  rfl

theorem toNat_toMs (port : Port) (count : ℕ) :
    (port.toMs (timeStamp count)).toNat = port.conversion.reading count := by
  cases port with
  | posix => exact posix_reading count
  | cmsisRtos ticks => exact cmsisRtos_reading ticks count
  | zephyr cycles => exact zephyr_reading cycles count

theorem size_conversion (port : Port) : port.conversion.size = 2 ^ 32 := by
  cases port <;> rfl

/-- The test on words is the comparison of the converted counts. -/
theorem eventExpired_iff (port : Port) {ttl : Word 4} (limited : ttl ≠ 0)
    (pushed dispatched : ℕ) :
    port.eventExpired ttl (timeStamp pushed) (timeStamp dispatched) = true ↔
      port.conversion.PastLimit pushed ttl.toNat dispatched := by
  unfold eventExpired Conversion.PastLimit
  rw [if_pos limited, decide_eq_true_iff, gt_iff_lt, BitVec.lt_def, BitVec.toNat_add,
    toNat_toMs, toNat_toMs, size_conversion]

theorem outlived_iff_over (port : Port) (ttl : Word 4) (pushed dispatched : ℕ) :
    port.Outlived ttl pushed dispatched ↔
      port.conversion.Over pushed ttl.toNat dispatched := by
  unfold Outlived Conversion.Over Conversion.elapsed
  cases port with
  | posix =>
      simp only [frequency, conversion]
      omega
  | cmsisRtos ticks => rfl
  | zephyr cycles =>
      simp only [frequency, conversion]
      rw [Nat.mul_left_comm]
      omega

/-! ### When the test is right -/

/-- `execute` on POSIX drops the popped message exactly if the test says so. -/
theorem executeStep_testTtl {ι ε : Type} {q : PosixEventQueue ι ε} {msg : Message ε}
    (testing : q.execute = .testTtl msg) (capacity : ℕ) (now : Word 4) :
    q.executeStep capacity now = some
      { q with
        execute :=
          if posix.eventExpired msg.ttl msg.timestamp now then .innerTestEnd
          else .dispatch msg } := by
  have same : msg.expired now = posix.eventExpired msg.ttl msg.timestamp now := by
    unfold Message.expired eventExpired
    by_cases unlimited : msg.ttl = 0
    · simp [unlimited]
    · rw [if_pos unlimited, bne_iff_ne.mpr unlimited, Bool.true_and]
      rfl
  simp only [PosixEventQueue.executeStep, testing, same]

/-- The test of a port is right exactly outside its error. -/
theorem dropsExactly_iff (port : Port) {ttl : Word 4} (limited : ttl ≠ 0)
    {pushed dispatched : ℕ} (order : pushed ≤ dispatched) :
    port.DropsExactly ttl pushed dispatched ↔ port.OutsideError ttl pushed dispatched := by
  unfold DropsExactly
  rw [eventExpired_iff port limited, outlived_iff_over]
  exact Conversion.pastLimit_iff_over_iff order

/-- `k_cyc_to_ms_near32` for 32768 Hz -/
def lowPowerToMs (t : Word 4) : Word 4 := Word.ofNat 4 ((2000 * t.toNat + 32768) / (2 * 32768))

theorem lowPowerToMs_nearest (t : Word 4) :
    (lowPowerToMs t).toNat = (2000 * t.toNat + 32768) / (2 * 32768) % 2 ^ 32 := by
  simp [lowPowerToMs, Word.ofNat]

theorem lowPower_pos : 0 < 32768 := by decide

def lowPowerClock : CycleClock where
  cyclesPerSec := 32768
  cyclesPerSec_pos := lowPower_pos
  cycToMsNear32 := lowPowerToMs
  nearest := lowPowerToMs_nearest

/-- A message which is dispatched on time by Zephyr, near the wrap of the cycles. -/
theorem lowPowerClock_dropsExactly :
    (zephyr lowPowerClock).DropsExactly 250 (2 ^ 32 - 32768) (2 ^ 32 - 30000) ↔
      (zephyr lowPowerClock).OutsideError 250 (2 ^ 32 - 32768) (2 ^ 32 - 30000) :=
  dropsExactly_iff (zephyr lowPowerClock) (by decide) (by decide)

theorem tickOfOneMs_ne : (1000 : Word 4) ≠ 0 := by decide

def tickOfOneMs : KernelTicks where
  tickFreq := 1000
  tickFreq_ne := tickOfOneMs_ne

/-- On POSIX a message which waited 5 ms of its 20 is dropped when the limit wraps.  With ticks
of 1 ms, a message which waited 1000 ms too long is kept when the product wraps, after 72 min. -/
theorem drops_wrongly :
    ¬ posix.DropsExactly 20 (2 ^ 32 - 10) (2 ^ 32 - 5) ∧
      ¬ (cmsisRtos tickOfOneMs).DropsExactly 20 4294900 (4294900 + 1020) := by
  unfold DropsExactly Outlived
  decide

/-- On POSIX the condition is that the limit wraps exactly if the counter does. -/
theorem posix_dropsExactly_iff {ttl : Word 4} (limited : ttl ≠ 0) {pushed dispatched : ℕ}
    (order : pushed ≤ dispatched) (recent : dispatched - pushed < 2 ^ 31) :
    posix.DropsExactly ttl pushed dispatched ↔
      (pushed % 2 ^ 32 + ttl.toNat < 2 ^ 32 ↔
        pushed % 2 ^ 32 + (dispatched - pushed) < 2 ^ 32) := by
  have bound := ttl.isLt
  unfold DropsExactly Outlived
  rw [eventExpired_iff posix limited]
  unfold Conversion.PastLimit
  rw [← posix_reading, ← posix_reading, toNat_timeStamp, toNat_timeStamp]
  simp only [conversion, frequency]
  omega

end Port

end CmsisStream.Runtime
