import NeilOS.Foundation.Word
import Mathlib.Logic.Function.Iterate

/-!
# The tick counter and waiting for a time

`ticks` has 32 bits, while `timer_ms` and the deadlines of its callers have 64. A deadline past the
range of the counter is never reached.
-/

namespace NeilOS

open Foundation

namespace Devices

/-! ## The counter -/

/-- `PIT_FREQUENCY`, in Hz. -/
def pitFrequency : ℕ := 1000

def pitTick (ticks : Word) : Word := ticks + 1

def pitGetTicks (ticks : Word) : Word := ticks

/-- The two branches are chosen by the preprocessor. -/
def timerMs (ticks : Word) : BitVec 64 :=
  if pitFrequency = 1000 then (pitGetTicks ticks).setWidth 64
  else (pitGetTicks ticks).setWidth 64 * 1000 / BitVec.ofNat 64 pitFrequency

theorem toNat_pitTick (ticks : Word) : (pitTick ticks).toNat = (ticks.toNat + 1) % 2 ^ 32 :=
  BitVec.toNat_add ticks 1

/-- The static variable after a number of interrupts since boot. -/
def ticksAfter (interrupts : ℕ) : Word := pitTick^[interrupts] 0

theorem ticksAfter_succ (interrupts : ℕ) :
    ticksAfter (interrupts + 1) = pitTick (ticksAfter interrupts) :=
  Function.iterate_succ_apply' pitTick interrupts 0

theorem toNat_ticksAfter (interrupts : ℕ) : (ticksAfter interrupts).toNat = interrupts % 2 ^ 32 := by
  induction interrupts with
  | zero => rfl
  | succ interrupts ih =>
    rw [ticksAfter_succ, toNat_pitTick, ih]
    exact Nat.mod_add_mod interrupts (2 ^ 32) 1

theorem toNat_timerMs (ticks : Word) : (timerMs ticks).toNat = ticks.toNat := by
  have hsmall : ticks.toNat < 2 ^ 64 := ticks.isLt.trans (by decide)
  calc
    (timerMs ticks).toNat = (ticks.setWidth 64).toNat := rfl
    _ = ticks.toNat % 2 ^ 64 := BitVec.toNat_setWidth 64 ticks
    _ = ticks.toNat := Nat.mod_eq_of_lt hsmall

/-- The time is the number of interrupts, reduced to the range of the counter. -/
theorem toNat_timerMs_ticksAfter (interrupts : ℕ) :
    (timerMs (ticksAfter interrupts)).toNat = interrupts % 2 ^ 32 :=
  (toNat_timerMs _).trans (toNat_ticksAfter interrupts)

theorem timerMs_le_succ_iff (interrupts : ℕ) :
    timerMs (ticksAfter interrupts) ≤ timerMs (ticksAfter (interrupts + 1)) ↔
      (interrupts + 1) % 2 ^ 32 ≠ 0 := by
  rw [BitVec.le_def, toNat_timerMs_ticksAfter, toNat_timerMs_ticksAfter]
  omega

/-- A run of interrupts has no step down just when it stays below the range. -/
theorem timerMs_monotone_iff (interrupts : ℕ) :
    (∀ earlier < interrupts, timerMs (ticksAfter earlier) ≤ timerMs (ticksAfter (earlier + 1))) ↔
      interrupts < 2 ^ 32 := by
  constructor
  · intro hsteps
    by_contra hlarge
    have hwrap := (timerMs_le_succ_iff (2 ^ 32 - 1)).mp (hsteps (2 ^ 32 - 1) (by omega))
    exact hwrap rfl
  · intro hsmall earlier hearlier
    apply (timerMs_le_succ_iff earlier).mpr
    omega

/-! ## Waiting -/

/-- The loop `while (timer_ms() < deadline)`, by ticks: how many pass before it ends. -/
def waitUntil (deadline : BitVec 64) : ℕ → Word → Option ℕ
  | 0, _ => none
  | fuel + 1, ticks =>
    if timerMs ticks < deadline then (waitUntil deadline fuel (pitTick ticks)).map (· + 1)
    else some 0

theorem timerMs_lt_iff (ticks : Word) (deadline : BitVec 64) :
    timerMs ticks < deadline ↔ ticks.toNat < deadline.toNat := by
  rw [BitVec.lt_def, toNat_timerMs]

/-- A deadline within the range of the counter is reached at its tick. -/
theorem waitUntil_of_ahead {deadline : BitVec 64} {ticks : Word} {delay : ℕ}
    (hdeadline : deadline.toNat = ticks.toNat + delay) (hrange : ticks.toNat + delay < 2 ^ 32) :
    waitUntil deadline (delay + 1) ticks = some delay := by
  induction delay generalizing ticks with
  | zero =>
    have hreached : ¬ timerMs ticks < deadline := by
      rw [timerMs_lt_iff]
      omega
    rw [waitUntil, if_neg hreached]
  | succ delay ih =>
    have hwaiting : timerMs ticks < deadline := by
      rw [timerMs_lt_iff]
      omega
    have hnext : (pitTick ticks).toNat = ticks.toNat + 1 := by
      rw [toNat_pitTick]
      exact Nat.mod_eq_of_lt (by omega)
    rw [waitUntil, if_pos hwaiting, ih (by omega) (by omega)]
    rfl

/-- One that has passed ends the loop at once. -/
theorem waitUntil_of_passed {deadline : BitVec 64} {ticks : Word}
    (hdeadline : deadline.toNat ≤ ticks.toNat) (fuel : ℕ) :
    waitUntil deadline (fuel + 1) ticks = some 0 := by
  have hreached : ¬ timerMs ticks < deadline := by
    rw [timerMs_lt_iff]
    exact Nat.not_lt.mpr hdeadline
  rw [waitUntil, if_neg hreached]

/-- One past the range of the counter is never reached. -/
theorem waitUntil_of_unreachable {deadline : BitVec 64} (hdeadline : 2 ^ 32 ≤ deadline.toNat)
    (fuel : ℕ) (ticks : Word) : waitUntil deadline fuel ticks = none := by
  induction fuel generalizing ticks with
  | zero => rfl
  | succ fuel ih =>
    have hwaiting : timerMs ticks < deadline := by
      rw [timerMs_lt_iff]
      exact ticks.isLt.trans_le hdeadline
    rw [waitUntil, if_pos hwaiting, ih]
    rfl

theorem waitUntil_delay_iff (ticks : Word) (delay : BitVec 64) :
    (∃ fuel, waitUntil (timerMs ticks + delay) fuel ticks = some delay.toNat) ↔
      ticks.toNat + delay.toNat < 2 ^ 32 := by
  have hdeadline : (timerMs ticks + delay).toNat = (ticks.toNat + delay.toNat) % 2 ^ 64 := by
    rw [BitVec.toNat_add, toNat_timerMs]
  constructor
  · rintro ⟨fuel, hends⟩
    by_contra hlarge
    by_cases hwraps : ticks.toNat + delay.toNat < 2 ^ 64
    · rw [waitUntil_of_unreachable (by omega)] at hends
      cases hends
    · cases fuel with
      | zero => cases hends
      | succ fuel =>
        rw [waitUntil_of_passed (by omega), Option.some.injEq] at hends
        omega
  · intro hrange
    exact ⟨delay.toNat + 1, waitUntil_of_ahead (by omega) hrange⟩

/-- **The time.** After a number of interrupts the time is that number, and it has never decreased on
the way, just when the number is below `2 ^ 32`. A wait that starts then ends after its delay just when
the counter does not leave its range on the way. -/
theorem timer_counts_iff (interrupts : ℕ) :
    ((timerMs (ticksAfter interrupts)).toNat = interrupts ↔ interrupts < 2 ^ 32) ∧
    ((∀ earlier < interrupts, timerMs (ticksAfter earlier) ≤ timerMs (ticksAfter (earlier + 1))) ↔
      interrupts < 2 ^ 32) ∧
    ∀ delay : BitVec 64,
      (∃ fuel, waitUntil (timerMs (ticksAfter interrupts) + delay) fuel (ticksAfter interrupts) =
        some delay.toNat) ↔ interrupts % 2 ^ 32 + delay.toNat < 2 ^ 32 := by
  refine ⟨?_, timerMs_monotone_iff interrupts, fun delay ↦ ?_⟩
  · rw [toNat_timerMs_ticksAfter]
    exact Nat.mod_eq_iff_lt (by decide)
  · rw [waitUntil_delay_iff, toNat_ticksAfter]

/-- After `2 ^ 32` interrupts the time is zero, and a wait of a second that starts half a second before
does not end. -/
theorem timer_wraps :
    (timerMs (ticksAfter (2 ^ 32))).toNat = 0 ∧
      ∀ fuel, waitUntil (timerMs (ticksAfter (2 ^ 32 - 500)) + 1000) fuel
        (ticksAfter (2 ^ 32 - 500)) = none := by
  refine ⟨toNat_timerMs_ticksAfter (2 ^ 32), fun fuel ↦ waitUntil_of_unreachable ?_ fuel _⟩
  rw [BitVec.toNat_add, toNat_timerMs_ticksAfter]
  decide

end Devices

end NeilOS
