/-
# Sekkeizu.Network.Pacing — the main loop of `core_loop::start` and the heart beat it settles at.

A tick measures the time since the tick before, folds it into `_diff_mean`, runs the plugins, and sleeps
for what is left of the heart beat. What is left is computed from the mean, so the loop is a feedback
loop: a tick that came late shortens the sleeps of the ticks after it.

Modelling choices:

* Time is in milliseconds, the unit of `base_time`, and exact. The clock moves in the measured section
  and while the loop sleeps, by exactly the work and exactly the sleep.
* `_diff_mean` is a rational. `0.95f` and `0.05f` are the decimal fractions.
* `base_time` counts in `int64_t`, and the ceiling of the mean passes through `uint64_t`. Neither wraps as
  long as the first gap is one that `base_time` can count (`ceil_diffMean_lt`).
-/
import Sekkeizu.Semantics.Settling
import Mathlib.Data.Rat.Floor
import Mathlib.Algebra.Order.Ring.Rat
import Mathlib.Algebra.Order.Archimedean.Basic
import Mathlib.Tactic.NormNum
import Mathlib.Tactic.Positivity

namespace Sekkeizu.MainLoop

open DrivenSystem

/-! ## The loop -/

/-- `core_traits::heart_beat`, in `base_time` units. -/
def heartBeat : ℤ := 50

/-- `std::chrono::duration_cast` to `base_time`: towards zero. -/
def durationCast (duration : ℚ) : ℤ := duration.num.tdiv duration.den

/-- What the loop keeps from one tick to the next, and the clock. -/
structure Loop where
  /-- The next reading of `clock_t::now()`. -/
  clock : ℚ
  now : ℚ
  diffMean : ℚ

/-- What one tick computes on the way. -/
structure Tick where
  diff : ℤ
  updateTime : ℤ
  /-- `none` when the tick does not sleep. -/
  sleepTime : Option ℤ

/-- The constructor of `core_loop`, and the time that passes before the first tick. -/
def construct (constructed : ℚ) (gap : ℚ≥0) : Loop :=
  { clock := constructed + gap, now := constructed, diffMean := 0 }

/-- One tick, whose plugins work for the given time. -/
def tick (loop : Loop) (work : ℚ≥0) : Tick × Loop :=
  let lastTick := loop.now
  let now := loop.clock
  let diff := durationCast (now - lastTick)
  let mean := 95 / 100 * loop.diffMean + 5 / 100 * diff
  let clock := now + work
  let diffMean : ℤ := ⌈mean⌉₊
  let updateTime := durationCast (clock - now) + (diffMean - heartBeat)
  if updateTime < heartBeat then
    let sleepTime := heartBeat - updateTime
    (⟨diff, updateTime, some sleepTime⟩, ⟨clock + sleepTime, now, mean⟩)
  else
    (⟨diff, updateTime, none⟩, ⟨clock, now, mean⟩)

/-- What one tick leaves to the next. -/
def Loop.next (loop : Loop) (work : ℚ≥0) : Loop := (tick loop work).2

/-- The loop after `n` ticks. -/
def loopAfter (constructed : ℚ) (gap : ℚ≥0) (work : ℕ → ℚ≥0) (n : ℕ) : Loop :=
  orbit Loop.next (construct constructed gap) work n

/-- The `n`-th tick, counted from zero. -/
def tickAt (constructed : ℚ) (gap : ℚ≥0) (work : ℕ → ℚ≥0) (n : ℕ) : Tick :=
  (tick (loopAfter constructed gap work n) (work n)).1

/-! ## Whole milliseconds -/

theorem durationCast_of_nonneg {duration : ℚ} (h : 0 ≤ duration) :
    durationCast duration = ⌊duration⌋ := by
  have hnum : 0 ≤ duration.num := Rat.num_nonneg.mpr h
  rw [durationCast, Rat.floor_def', Int.tdiv_eq_ediv_of_nonneg hnum]

theorem durationCast_nonneg {duration : ℚ} (h : 0 ≤ duration) : 0 ≤ durationCast duration := by
  rw [durationCast_of_nonneg h]
  exact Int.floor_nonneg.mpr h

/-- Whole milliseconds on top of a duration are counted exactly. -/
theorem durationCast_add {duration : ℚ} (h : 0 ≤ duration) {ms : ℤ} (hms : 0 ≤ ms) :
    durationCast (duration + ms) = durationCast duration + ms := by
  have hsum : 0 ≤ duration + ms := add_nonneg h (Int.cast_nonneg hms)
  rw [durationCast_of_nonneg hsum, durationCast_of_nonneg h, Int.floor_add_intCast]

/-! ## What one tick does -/

/-- The time since the last tick, as the next tick measures it. -/
def Loop.elapsed (loop : Loop) : ℤ := durationCast (loop.clock - loop.now)

theorem tick_diff (loop : Loop) (work : ℚ≥0) : (tick loop work).1.diff = loop.elapsed := by
  simp only [tick, Loop.elapsed]
  split <;> rfl

theorem Loop.next_diffMean (loop : Loop) (work : ℚ≥0) :
    (loop.next work).diffMean = 95 / 100 * loop.diffMean + 5 / 100 * loop.elapsed := by
  simp only [next, tick, elapsed]
  split <;> rfl

/-- A sleep is what the work and the mean leave of two heart beats. -/
theorem tick_sleepTime (loop : Loop) (work : ℚ≥0) {sleepTime : ℤ}
    (h : (tick loop work).1.sleepTime = some sleepTime) :
    0 < sleepTime ∧ sleepTime = 2 * heartBeat - durationCast work - ⌈(loop.next work).diffMean⌉₊ := by
  simp only [Loop.next, tick, add_sub_cancel_left] at h ⊢
  split at h
  case isTrue hsleeps =>
      rw [if_pos hsleeps]
      cases h
      exact ⟨sub_pos.mpr hsleeps, by ring⟩
  case isFalse => cases h

/-- **The next tick comes two heart beats after this one, less the mean, unless the work took longer.**
The work that is counted is subtracted from the sleep, so it does not show in the sum. -/
theorem Loop.next_elapsed (loop : Loop) (work : ℚ≥0) :
    (loop.next work).elapsed =
      max (durationCast work) (2 * heartBeat - ⌈(loop.next work).diffMean⌉₊) := by
  simp only [next, tick, elapsed, add_sub_cancel_left]
  generalize 95 / 100 * loop.diffMean + 5 / 100 * (durationCast (loop.clock - loop.now) : ℚ) = mean
  split
  case isTrue hsleeps =>
      have hpos : 0 ≤ heartBeat - (durationCast work + (⌈mean⌉₊ - heartBeat)) :=
        (sub_pos.mpr hsleeps).le
      have hcounted := durationCast_add work.coe_nonneg hpos
      dsimp only
      rw [add_assoc, add_sub_cancel_left, hcounted, max_eq_right (by omega)]
      ring
  case isFalse hbusy =>
      dsimp only
      rw [add_sub_cancel_left, max_eq_left (by omega)]

/-! ## The mean approaches the heart beat -/

/-- A tick whose plugins leave time for it: its work, in whole milliseconds, is no longer than a heart
beat. -/
def FitsHeartBeat (work : ℚ≥0) : Prop := durationCast work ≤ heartBeat

/-- What holds after every tick: the next tick will measure the time the mean left, or work that fits. -/
def Paced (loop : Loop) : Prop :=
  ∃ worked ≤ heartBeat, loop.elapsed = max worked (2 * heartBeat - ⌈loop.diffMean⌉₊)

/-- How far the mean is from the heart beat. -/
def Loop.deviation (loop : Loop) : ℚ := |loop.diffMean - heartBeat|

theorem paced_next {loop : Loop} {work : ℚ≥0} (hwork : FitsHeartBeat work) : Paced (loop.next work) :=
  ⟨durationCast work, hwork, loop.next_elapsed work⟩

theorem keeps_paced : Keeps Loop.next FitsHeartBeat Paced := by
  intro loop work hwork _
  exact paced_next hwork

/-- Below the heart beat, no work that fits can hide the sleep. -/
theorem Paced.elapsed_of_le {loop : Loop} (h : Paced loop) (hmean : loop.diffMean ≤ heartBeat) :
    loop.elapsed = 2 * heartBeat - ⌈loop.diffMean⌉₊ := by
  obtain ⟨worked, hworked, helapsed⟩ := h
  have hceil : ⌈loop.diffMean⌉₊ ≤ 50 := Nat.ceil_le.mpr (by simpa [heartBeat] using hmean)
  rw [helapsed, max_eq_right]
  unfold heartBeat at *
  omega

/-- Above it, the work may, and then it takes a heart beat at most. -/
theorem Paced.elapsed_of_gt {loop : Loop} (h : Paced loop) (hmean : heartBeat < loop.diffMean) :
    2 * heartBeat - ⌈loop.diffMean⌉₊ ≤ loop.elapsed ∧ loop.elapsed ≤ heartBeat := by
  obtain ⟨worked, hworked, helapsed⟩ := h
  have hceil : 50 < ⌈loop.diffMean⌉₊ := Nat.lt_ceil.mpr (by simpa [heartBeat] using hmean)
  rw [helapsed]
  refine ⟨le_max_right _ _, max_le hworked ?_⟩
  unfold heartBeat
  omega

/-- **One tick.** The mean comes closer to the heart beat by a twentieth, except that from above it may
overshoot, by a twentieth of the millisecond the ceiling adds. -/
theorem attracts_deviation :
    Attracts Loop.next FitsHeartBeat Paced Loop.deviation (95 / 100) (5 / 100) := by
  intro loop work _ hpaced
  have hceil : loop.diffMean ≤ ⌈loop.diffMean⌉₊ := Nat.le_ceil _
  rw [Loop.deviation, Loop.next_diffMean, Loop.deviation]
  rcases le_or_gt loop.diffMean heartBeat with hmean | hmean
  · have helapsed : (loop.elapsed : ℚ) = 2 * heartBeat - ⌈loop.diffMean⌉₊ := by
      exact_mod_cast hpaced.elapsed_of_le hmean
    have hupper : (⌈loop.diffMean⌉₊ : ℚ) ≤ heartBeat := by
      have : ⌈loop.diffMean⌉₊ ≤ 50 := Nat.ceil_le.mpr (by simpa [heartBeat] using hmean)
      simpa [heartBeat] using (Nat.cast_le (α := ℚ)).mpr this
    apply le_max_of_le_left
    rw [abs_of_nonpos (sub_nonpos.mpr hmean), abs_of_nonpos (by linarith), helapsed]
    linarith
  · obtain ⟨hlower, hupper⟩ := hpaced.elapsed_of_gt hmean
    have hlower' : (2 * heartBeat - ⌈loop.diffMean⌉₊ : ℚ) ≤ loop.elapsed := by exact_mod_cast hlower
    have hupper' : (loop.elapsed : ℚ) ≤ heartBeat := by exact_mod_cast hupper
    have hceil' : (⌈loop.diffMean⌉₊ : ℚ) < loop.diffMean + 1 := by
      apply Nat.ceil_lt_add_one
      exact le_trans (by simp [heartBeat]) hmean.le
    rcases le_or_gt 0 (95 / 100 * loop.diffMean + 5 / 100 * loop.elapsed - heartBeat) with h | h
    · apply le_max_of_le_left
      rw [abs_of_pos (sub_pos.mpr hmean), abs_of_nonneg h]
      linarith
    · apply le_max_of_le_right
      rw [abs_of_neg h]
      linarith

/-- Where the mean is within a millisecond of the heart beat, so is the next measure. -/
theorem Paced.elapsed_near {loop : Loop} (h : Paced loop) (hnear : loop.deviation < 1) :
    |loop.elapsed - heartBeat| ≤ 1 := by
  obtain ⟨worked, hworked, helapsed⟩ := h
  obtain ⟨hlower, hupper⟩ := abs_lt.mp hnear
  have hmore : 49 < ⌈loop.diffMean⌉₊ := by
    apply Nat.lt_ceil.mpr
    norm_num [heartBeat] at hlower ⊢
    linarith
  have hless : ⌈loop.diffMean⌉₊ ≤ 51 := by
    apply Nat.ceil_le.mpr
    norm_num [heartBeat] at hupper ⊢
    linarith
  rw [helapsed, abs_le]
  unfold heartBeat at *
  omega

/-! ## Whole runs -/

/-- The state after the first tick, which is the first one to be paced. -/
theorem loopAfter_succ (constructed : ℚ) (gap : ℚ≥0) (work : ℕ → ℚ≥0) (n : ℕ) :
    loopAfter constructed gap work (n + 1) =
      orbit Loop.next ((construct constructed gap).next (work 0)) (fun k => work (k + 1)) n :=
  orbit_succ_eq_orbit_step n

theorem elapsed_construct (constructed : ℚ) (gap : ℚ≥0) :
    (construct constructed gap).elapsed = durationCast gap := by
  rw [Loop.elapsed, construct, add_sub_cancel_left]

/-- The first tick takes a twentieth of the first gap for the mean. -/
theorem deviation_first_tick (constructed : ℚ) (gap work : ℚ≥0) :
    ((construct constructed gap).next work).deviation ≤ 50 + 5 / 100 * gap := by
  have hnonneg : (0 : ℚ) ≤ durationCast gap := by exact_mod_cast durationCast_nonneg gap.coe_nonneg
  have hle : (durationCast gap : ℚ) ≤ gap := by
    rw [durationCast_of_nonneg gap.coe_nonneg]
    exact Int.floor_le _
  have hmean : (construct constructed gap).diffMean = 0 := rfl
  rw [Loop.deviation, Loop.next_diffMean, elapsed_construct, hmean, abs_le]
  norm_num [heartBeat]
  constructor <;> linarith

/-- **Settling, for all gaps up to a bound.** One number of ticks is enough for every such gap and for all
work that fits to bring the mean within a millisecond of the heart beat. -/
theorem exists_near (bound : ℚ≥0) :
    ∃ N, ∀ constructed gap work, gap ≤ bound → (∀ n, FitsHeartBeat (work n)) → ∀ n, N ≤ n →
      Paced (loopAfter constructed gap work n) ∧ (loopAfter constructed gap work n).deviation < 1 := by
  have hbound : (0 : ℚ) < 50 + bound := by positivity
  obtain ⟨N, hN⟩ := attracts_deviation.settles keeps_paced (by norm_num) (by norm_num) (by norm_num)
    (show (5 / 100 : ℚ) < 1 by norm_num) hbound
  refine ⟨N + 1, ?_⟩
  intro constructed gap work hgap hwork n hn
  obtain ⟨m, rfl⟩ := Nat.exists_eq_add_of_le' hn
  have hlater : ∀ k, FitsHeartBeat (work (k + 1)) := fun k => hwork (k + 1)
  have hpaced : Paced ((construct constructed gap).next (work 0)) := paced_next (hwork 0)
  have hfirst : ((construct constructed gap).next (work 0)).deviation ≤ 50 + bound := by
    have hgap' : (gap : ℚ) ≤ bound := hgap
    have hdeviation := deviation_first_tick constructed gap (work 0)
    linarith [gap.coe_nonneg]
  have hnear := hN _ hpaced hfirst _ hlater (m + N) (Nat.le_add_left N m)
  rw [← Nat.add_assoc, loopAfter_succ]
  exact ⟨keeps_paced.orbit hpaced hlater _, hnear⟩

/-- From there on the measured time is within a millisecond of the heart beat as well. -/
theorem exists_settled (bound : ℚ≥0) :
    ∃ N, ∀ constructed gap work, gap ≤ bound → (∀ n, FitsHeartBeat (work n)) →
      ∀ n, N ≤ n → |(tickAt constructed gap work n).diff - heartBeat| ≤ 1 := by
  obtain ⟨N, hN⟩ := exists_near bound
  refine ⟨N, fun constructed gap work hgap hwork n hn => ?_⟩
  obtain ⟨hpaced, hnear⟩ := hN constructed gap work hgap hwork n hn
  rw [tickAt, tick_diff]
  exact hpaced.elapsed_near hnear

/-- The mean is never further above the heart beat than the first gap alone could bring it. -/
theorem diffMean_le (constructed : ℚ) (gap : ℚ≥0) (work : ℕ → ℚ≥0)
    (hwork : ∀ n, FitsHeartBeat (work n)) (n : ℕ) :
    (loopAfter constructed gap work n).diffMean ≤ 100 + 5 / 100 * gap := by
  have hgap : (0 : ℚ) ≤ gap := gap.coe_nonneg
  cases n with
  | zero =>
      rw [loopAfter, orbit_zero, construct]
      linarith
  | succ n =>
      have hfirst := deviation_first_tick constructed gap (work 0)
      have hpaced : Paced ((construct constructed gap).next (work 0)) := paced_next (hwork 0)
      have hdeviation := attracts_deviation.orbit_le keeps_paced (by norm_num) (by norm_num)
        (by norm_num) hpaced (fun k => hwork (k + 1)) n
      have hshrunk : (95 / 100 : ℚ) ^ n * ((construct constructed gap).next (work 0)).deviation ≤
          50 + 5 / 100 * gap := by
        refine le_trans (mul_le_of_le_one_left (abs_nonneg _) ?_) hfirst
        exact pow_le_one₀ (by norm_num) (by norm_num)
      have hle := hdeviation.trans (max_le hshrunk (by linarith))
      rw [loopAfter_succ]
      have hmean := (abs_le.mp hle).2
      norm_num [heartBeat] at hmean
      linarith

/-- So it stays in the range of `base_time`'s counter, and the conversions of its ceiling are exact. -/
theorem ceil_diffMean_lt (constructed : ℚ) (gap : ℚ≥0) (work : ℕ → ℚ≥0)
    (hgap : gap < 2 ^ 63) (hwork : ∀ n, FitsHeartBeat (work n)) (n : ℕ) :
    ⌈(loopAfter constructed gap work n).diffMean⌉₊ < 2 ^ 63 := by
  have hgap' : (gap : ℚ) < 2 ^ 63 := by exact_mod_cast hgap
  have hmean := diffMean_le constructed gap work hwork n
  have hceil : ⌈(loopAfter constructed gap work n).diffMean⌉₊ ≤ 2 ^ 62 := by
    apply Nat.ceil_le.mpr
    push_cast
    linarith
  exact hceil.trans_lt (by norm_num)

/-- **The main loop settles at the heart beat.** From some tick on, the measured time differs from the
heart beat by a millisecond at most; and no tick sleeps for a negative time, or for more than two heart
beats. -/
theorem settles_at_heart_beat (constructed : ℚ) (gap : ℚ≥0) (work : ℕ → ℚ≥0)
    (hwork : ∀ n, durationCast (work n) ≤ heartBeat) :
    (∃ N, ∀ n, N ≤ n → |(tickAt constructed gap work n).diff - heartBeat| ≤ 1) ∧
      ∀ n, ∀ sleepTime ∈ (tickAt constructed gap work n).sleepTime,
        0 ≤ sleepTime ∧ sleepTime ≤ 2 * heartBeat := by
  constructor
  · obtain ⟨N, hN⟩ := exists_settled gap
    exact ⟨N, hN constructed gap work le_rfl hwork⟩
  · intro n sleepTime hsleep
    obtain ⟨hpos, heq⟩ := tick_sleepTime _ _ hsleep
    have hworked : 0 ≤ durationCast (work n) := durationCast_nonneg (work n).coe_nonneg
    exact ⟨hpos.le, by omega⟩

/-- Two seconds to the first tick, and plugins that take turns being busy and idle. -/
theorem settles_at_heart_beat_busy_and_idle :
    ∃ N, ∀ n, N ≤ n →
      |(tickAt 0 2000 (fun k => if k % 2 = 0 then 101 / 2 else 0) n).diff - heartBeat| ≤ 1 := by
  apply (settles_at_heart_beat 0 2000 _ ?_).1
  intro n
  rw [durationCast_of_nonneg (NNRat.coe_nonneg _)]
  split
  · norm_num [heartBeat]
  · norm_num [heartBeat]

end Sekkeizu.MainLoop
