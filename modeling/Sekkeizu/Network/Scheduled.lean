/-
# Sekkeizu.Network.Scheduled — the plugins of the main loop that are called with time.

`call_tick_proxy` hands the measured time of a tick to every plugin. `coreloop_user_tick_plugin` passes it on.
`coreloop_scheduled_tick` adds it up and passes the sum on once it exceeds `base_time_per_tick`. So the two
callbacks are told of the same time, but for what `_elapsed` still holds, and that time is the time of the clock
but for the fraction of a millisecond that every tick drops (`scheduled_time_conserved`). When the ticks lie
between two bounds, so does the number of ticks from one callback to the next (`scheduled_rhythm`), and once the
loop has settled that number is fixed (`settled_rhythm`).

Modelling choices are those of `Sekkeizu.Network.Pacing`. The time the callbacks take is part of the work of
their tick. `base_time_per_tick` is a number that `base_time` can count: it is converted to a signed 64-bit one.
-/
import Sekkeizu.Network.Pacing
import Sekkeizu.Semantics.Thresholds

namespace Sekkeizu.MainLoop

open DrivenSystem

/-! ## The plugins -/

/-- `coreloop_scheduled_tick::tick`: what `scheduled_tick` is called with, if it is called, and `_elapsed`
afterwards. -/
def scheduledTick (baseTimePerTick : ℕ) (elapsed diff : ℤ) : Option ℤ × ℤ :=
  let elapsed := elapsed + diff
  if elapsed > baseTimePerTick then (some elapsed, 0) else (none, elapsed)

/-- The main loop, and `_elapsed` of its scheduled plugin. -/
structure Timed where
  loop : Loop
  elapsed : ℤ

/-- The callbacks of one tick. -/
structure Calls where
  /-- `none` when `scheduled_tick` is not called. -/
  scheduledTick : Option ℤ
  userTick : ℤ

/-- One tick of the loop, with `call_tick_proxy`. -/
def Timed.tick (baseTimePerTick : ℕ) (t : Timed) (work : ℚ≥0) : Calls × Timed :=
  let (tick, loop) := MainLoop.tick t.loop work
  let (called, elapsed) := scheduledTick baseTimePerTick t.elapsed tick.diff
  (⟨called, tick.diff⟩, ⟨loop, elapsed⟩)

/-- The loop and its plugin after `n` ticks. -/
def timedAfter (baseTimePerTick : ℕ) (constructed : ℚ) (gap : ℚ≥0) (work : ℕ → ℚ≥0) (n : ℕ) : Timed :=
  orbit (fun t work => (t.tick baseTimePerTick work).2) ⟨construct constructed gap, 0⟩ work n

/-- The callbacks of the `n`-th tick, counted from zero. -/
def callsAt (baseTimePerTick : ℕ) (constructed : ℚ) (gap : ℚ≥0) (work : ℕ → ℚ≥0) (n : ℕ) : Calls :=
  ((timedAfter baseTimePerTick constructed gap work n).tick baseTimePerTick (work n)).1

/-- What `user_tick` has been called with in the first `n` ticks, added up. -/
def userTime (baseTimePerTick : ℕ) (constructed : ℚ) (gap : ℚ≥0) (work : ℕ → ℚ≥0) (n : ℕ) : ℤ :=
  ∑ k ∈ Finset.range n, (callsAt baseTimePerTick constructed gap work k).userTick

/-- What `scheduled_tick` has been called with in the first `n` ticks, added up. -/
def scheduledTime (baseTimePerTick : ℕ) (constructed : ℚ) (gap : ℚ≥0) (work : ℕ → ℚ≥0) (n : ℕ) : ℤ :=
  ∑ k ∈ Finset.range n, (callsAt baseTimePerTick constructed gap work k).scheduledTick.getD 0

/-! ## The plugin as an accumulator -/

/-- The plugin is the accumulator of its limit. -/
theorem scheduledTick_eq (baseTimePerTick : ℕ) (elapsed diff : ℤ) :
    scheduledTick baseTimePerTick elapsed diff = accumulate (baseTimePerTick : ℤ) elapsed diff := rfl

section Plugin

variable (baseTimePerTick : ℕ) (constructed : ℚ) (gap : ℚ≥0) (work : ℕ → ℚ≥0) (n : ℕ)

/-- The measured times. -/
def diffs (k : ℕ) : ℤ := (tickAt constructed gap work k).diff

/-- The plugin does not disturb the loop, and adds up the measured times. -/
theorem timedAfter_eq :
    timedAfter baseTimePerTick constructed gap work n =
      ⟨loopAfter constructed gap work n,
        level (baseTimePerTick : ℤ) 0 (diffs constructed gap work) n⟩ := by
  induction n with
  | zero => rfl
  | succ n ih =>
      have hnext : timedAfter baseTimePerTick constructed gap work (n + 1) =
          ((timedAfter baseTimePerTick constructed gap work n).tick baseTimePerTick (work n)).2 := rfl
      rw [hnext, ih]
      show (⟨(loopAfter constructed gap work n).next (work n), (scheduledTick baseTimePerTick
        (level (baseTimePerTick : ℤ) 0 (diffs constructed gap work) n) (diffs constructed gap work n)).2⟩ :
          Timed) = _
      rw [scheduledTick_eq]
      rfl

theorem callsAt_scheduledTick :
    (callsAt baseTimePerTick constructed gap work n).scheduledTick =
      output (baseTimePerTick : ℤ) 0 (diffs constructed gap work) n := by
  rw [callsAt, timedAfter_eq]
  show (scheduledTick baseTimePerTick (level (baseTimePerTick : ℤ) 0 (diffs constructed gap work) n)
    (diffs constructed gap work n)).1 = _
  rw [scheduledTick_eq]
  rfl

theorem callsAt_userTick :
    (callsAt baseTimePerTick constructed gap work n).userTick = diffs constructed gap work n := by
  rw [callsAt, timedAfter_eq]
  rfl

end Plugin

/-! ## Measured time and the clock -/

theorem Loop.next_now (loop : Loop) (work : ℚ≥0) : (loop.next work).now = loop.clock := by
  simp only [next, tick]
  split <;> rfl

/-- The clock never runs back. -/
theorem Loop.next_now_le_clock (loop : Loop) (work : ℚ≥0) :
    (loop.next work).now ≤ (loop.next work).clock := by
  have hwork := work.coe_nonneg
  simp only [next, tick]
  split
  case isTrue hsleeps =>
      have hsleep : (0 : ℚ) ≤ ((heartBeat - (durationCast (loop.clock + work - loop.clock) +
          (⌈95 / 100 * loop.diffMean + 5 / 100 * (durationCast (loop.clock - loop.now) : ℚ)⌉₊ -
            heartBeat)) : ℤ) : ℚ) := by
        exact_mod_cast (sub_pos.mpr hsleeps).le
      dsimp only
      linarith
  case isFalse =>
      dsimp only
      linarith

section Clock

variable (constructed : ℚ) (gap : ℚ≥0) (work : ℕ → ℚ≥0) (n : ℕ)

theorem now_le_clock :
    (loopAfter constructed gap work n).now ≤ (loopAfter constructed gap work n).clock := by
  cases n with
  | zero =>
      rw [loopAfter, orbit_zero, construct]
      exact le_add_of_nonneg_right gap.coe_nonneg
  | succ n => exact Loop.next_now_le_clock _ _

/-- **A tick measures whole milliseconds**: it drops less than one. -/
theorem diffs_bounds :
    (diffs constructed gap work n : ℚ) ≤
        (loopAfter constructed gap work (n + 1)).now - (loopAfter constructed gap work n).now ∧
      (loopAfter constructed gap work (n + 1)).now - (loopAfter constructed gap work n).now <
        diffs constructed gap work n + 1 ∧
      0 ≤ diffs constructed gap work n := by
  have hnow : (loopAfter constructed gap work (n + 1)).now = (loopAfter constructed gap work n).clock :=
    Loop.next_now _ _
  have hnonneg := sub_nonneg.mpr (now_le_clock constructed gap work n)
  rw [hnow, diffs, tickAt, tick_diff, Loop.elapsed, durationCast_of_nonneg hnonneg]
  exact ⟨Int.floor_le _, Int.lt_floor_add_one _, Int.floor_nonneg.mpr hnonneg⟩

/-- The measured times add up to the time of the clock, but for a millisecond a tick. -/
theorem sum_diffs_bounds :
    ((∑ k ∈ Finset.range n, diffs constructed gap work k : ℤ) : ℚ) ≤
        (loopAfter constructed gap work n).now - constructed ∧
      (loopAfter constructed gap work n).now - constructed ≤
        ((∑ k ∈ Finset.range n, diffs constructed gap work k : ℤ) : ℚ) + n := by
  induction n with
  | zero => simp [loopAfter, construct]
  | succ n ih =>
      obtain ⟨hle, hlt, -⟩ := diffs_bounds constructed gap work n
      rw [Finset.sum_range_succ]
      push_cast at ih ⊢
      constructor
      · linarith [ih.1]
      · linarith [ih.2]

end Clock

/-- **No time is lost between the callbacks.** After any number of ticks, whatever they did: what
`scheduled_tick` was called with and `_elapsed` add up to what `user_tick` was called with, which is the time
since construction, up to a millisecond a tick; `_elapsed` is between zero and `base_time_per_tick`, and
`scheduled_tick` is called with more. -/
theorem scheduled_time_conserved (baseTimePerTick : ℕ) (constructed : ℚ) (gap : ℚ≥0) (work : ℕ → ℚ≥0)
    (n : ℕ) :
    scheduledTime baseTimePerTick constructed gap work n +
        (timedAfter baseTimePerTick constructed gap work n).elapsed =
      userTime baseTimePerTick constructed gap work n ∧
      (userTime baseTimePerTick constructed gap work n ≤
          (timedAfter baseTimePerTick constructed gap work n).loop.now - constructed ∧
        (timedAfter baseTimePerTick constructed gap work n).loop.now - constructed ≤
          userTime baseTimePerTick constructed gap work n + n) ∧
      (0 ≤ (timedAfter baseTimePerTick constructed gap work n).elapsed ∧
        (timedAfter baseTimePerTick constructed gap work n).elapsed ≤ baseTimePerTick) ∧
      ∀ elapsed ∈ (callsAt baseTimePerTick constructed gap work n).scheduledTick,
        (baseTimePerTick : ℤ) < elapsed := by
  have hlimit : (0 : ℤ) ≤ baseTimePerTick := Int.natCast_nonneg _
  have huser : userTime baseTimePerTick constructed gap work n =
      ∑ k ∈ Finset.range n, diffs constructed gap work k :=
    Finset.sum_congr rfl fun k _ => callsAt_userTick baseTimePerTick constructed gap work k
  have hscheduled : scheduledTime baseTimePerTick constructed gap work n =
      ∑ k ∈ Finset.range n, (output (baseTimePerTick : ℤ) 0 (diffs constructed gap work) k).getD 0 :=
    Finset.sum_congr rfl fun k _ => by rw [callsAt_scheduledTick]
  rw [huser, hscheduled, callsAt_scheduledTick, timedAfter_eq]
  refine ⟨?_, sum_diffs_bounds constructed gap work n, ⟨?_, ?_⟩, fun elapsed hcalled => ?_⟩
  · rw [sum_output_add_level, zero_add]
  · exact level_nonneg le_rfl (fun k => (diffs_bounds constructed gap work k).2.2) n
  · exact level_le hlimit hlimit n
  · exact (limit_lt_of_output hcalled).1

/-! ## The rhythm of the callback -/

/-- In a loop that is paced and whose mean is near the heart beat, a tick takes a heart beat, or a millisecond
less. -/
theorem Paced.elapsed_mem {loop : Loop} (h : Paced loop) (hnear : loop.deviation < 1) :
    heartBeat - 1 ≤ loop.elapsed ∧ loop.elapsed ≤ heartBeat := by
  refine ⟨by linarith [(abs_le.mp (h.elapsed_near hnear)).1], ?_⟩
  obtain ⟨worked, hworked, helapsed⟩ := h
  obtain ⟨hlower, -⟩ := abs_lt.mp hnear
  have hceil : 49 < ⌈loop.diffMean⌉₊ := by
    apply Nat.lt_ceil.mpr
    norm_num [heartBeat] at hlower ⊢
    linarith
  rw [helapsed]
  apply max_le hworked
  unfold heartBeat
  omega

/-- From some tick on a loop whose work fits the heart beat ticks so. -/
theorem exists_diffs_mem (constructed : ℚ) (gap : ℚ≥0) (work : ℕ → ℚ≥0)
    (hwork : ∀ n, durationCast (work n) ≤ heartBeat) :
    ∃ N, ∀ n, N ≤ n → heartBeat - 1 ≤ (tickAt constructed gap work n).diff ∧
      (tickAt constructed gap work n).diff ≤ heartBeat := by
  obtain ⟨N, hN⟩ := exists_near gap
  refine ⟨N, fun n hn => ?_⟩
  obtain ⟨hpaced, hnear⟩ := hN constructed gap work le_rfl hwork n hn
  rw [tickAt, tick_diff]
  exact hpaced.elapsed_mem hnear

/-- The limit is exceeded by as many ticks as it has milliseconds, and one. -/
theorem limit_lt_nsmul (baseTimePerTick : ℕ) {shortest : ℤ} (hshortest : 0 < shortest) :
    (baseTimePerTick : ℤ) < (baseTimePerTick + 1) • shortest := by
  rw [nsmul_eq_mul]
  push_cast
  nlinarith [Int.natCast_nonneg baseTimePerTick]

/-- **The rhythm of the callback.** Let every tick, from some tick on, measure a time between two bounds. Then
`scheduled_tick` is called for the first time after at most as many ticks as the shortest ones fit into
`base_time_per_tick`; and from one call to the next there are `j` ticks without one, where `j` of the shortest
fit into `base_time_per_tick` and `j + 1` of the longest do not, and the call gets more than that, by one tick at
most. -/
theorem scheduled_rhythm {baseTimePerTick N : ℕ} {shortest longest : ℤ} (hshortest : 0 < shortest)
    {constructed : ℚ} {gap : ℚ≥0} {work : ℕ → ℚ≥0}
    (hticks : ∀ n, N ≤ n → shortest ≤ (tickAt constructed gap work n).diff ∧
      (tickAt constructed gap work n).diff ≤ longest) :
    (∃ j : ℕ, j * shortest ≤ baseTimePerTick ∧
        (callsAt baseTimePerTick constructed gap work (N + j)).scheduledTick.isSome = true) ∧
      ∀ n, N ≤ n → (callsAt baseTimePerTick constructed gap work n).scheduledTick.isSome = true →
        ∃ (j : ℕ) (elapsed : ℤ),
          (∀ i < j, (callsAt baseTimePerTick constructed gap work (n + 1 + i)).scheduledTick = none) ∧
          (callsAt baseTimePerTick constructed gap work (n + 1 + j)).scheduledTick = some elapsed ∧
          (j * shortest ≤ baseTimePerTick ∧ baseTimePerTick < (j + 1) * longest) ∧
          baseTimePerTick < elapsed ∧ elapsed ≤ baseTimePerTick + longest := by
  have hlimit : (0 : ℤ) ≤ baseTimePerTick := Int.natCast_nonneg _
  have hmany := limit_lt_nsmul baseTimePerTick hshortest
  simp only [callsAt_scheduledTick]
  constructor
  · have hlevel : 0 ≤ level (baseTimePerTick : ℤ) 0 (diffs constructed gap work) N :=
      level_nonneg le_rfl (fun i => (diffs_bounds constructed gap work i).2.2) N
    obtain ⟨j, v, -, hcalled, hfits⟩ := first_output hlimit hlimit hlevel
      (fun j => (hticks (N + j) (Nat.le_add_right N j)).1) hmany
    rw [nsmul_eq_mul] at hfits
    exact ⟨j, hfits, Option.isSome_iff_exists.mpr ⟨v, hcalled⟩⟩
  · intro n hn hsome
    obtain ⟨v, hv⟩ := Option.isSome_iff_exists.mp hsome
    have hzero := (limit_lt_of_output hv).2.2
    obtain ⟨j, elapsed, hsilent, hcalled, ⟨hfits, hexceeds⟩, hlower, hupper⟩ :=
      next_output hlimit hlimit hzero (fun j => hticks (n + 1 + j) (by omega)) hmany
    rw [nsmul_eq_mul] at hfits hexceeds
    push_cast at hexceeds
    exact ⟨j, elapsed, hsilent, hcalled, ⟨hfits, hexceeds⟩, hlower, hupper⟩

/-- A plugin with `base_time_per_tick = 500` in a loop that is busy every other tick: once the loop has settled
it is called every eleven ticks. -/
theorem scheduled_rhythm_every_eleven :
    ∃ N, ∀ n, N ≤ n →
      (callsAt 500 0 2000 (fun k => if k % 2 = 0 then 101 / 2 else 0) n).scheduledTick.isSome = true →
      ∃ elapsed,
        (callsAt 500 0 2000 (fun k => if k % 2 = 0 then 101 / 2 else 0) (n + 11)).scheduledTick =
          some elapsed ∧ 500 < elapsed ∧ elapsed ≤ 550 := by
  have hwork : ∀ n, durationCast ((fun k : ℕ => if k % 2 = 0 then (101 / 2 : ℚ≥0) else 0) n) ≤
      heartBeat := by
    intro n
    rw [durationCast_of_nonneg (NNRat.coe_nonneg _)]
    dsimp only
    split
    · norm_num [heartBeat]
    · norm_num [heartBeat]
  obtain ⟨N, hticks⟩ := exists_diffs_mem 0 2000 _ hwork
  obtain ⟨-, hnext⟩ := @scheduled_rhythm 500 N _ _ (by decide) 0 2000 _ hticks
  refine ⟨N, fun n hn hsome => ?_⟩
  obtain ⟨j, elapsed, -, hcalled, ⟨hfits, hexceeds⟩, hlower, hupper⟩ := hnext n hn hsome
  have hj : j = 10 := by
    norm_num [heartBeat] at hfits hexceeds
    omega
  subst hj
  exact ⟨elapsed, hcalled, by exact_mod_cast hlower, by norm_num [heartBeat] at hupper; exact hupper⟩

/-- **The rhythm of a settled loop.** When the work of every tick fits the heart beat, and `k` heart beats are
within `base_time_per_tick` but `k + 1` are above it even with a millisecond less each: from some tick on
`scheduled_tick` is called every `k + 1` ticks, with the time of `k + 1` heart beats, up to a millisecond
each. -/
theorem settled_rhythm {baseTimePerTick k : ℕ} (hheld : k * heartBeat ≤ baseTimePerTick)
    (hgiven : baseTimePerTick < (k + 1) * (heartBeat - 1)) (constructed : ℚ) (gap : ℚ≥0)
    (work : ℕ → ℚ≥0) (hwork : ∀ n, durationCast (work n) ≤ heartBeat) :
    ∃ N, ∀ n, N ≤ n → (callsAt baseTimePerTick constructed gap work n).scheduledTick.isSome = true →
      (∀ j < k, (callsAt baseTimePerTick constructed gap work (n + 1 + j)).scheduledTick = none) ∧
        ∃ elapsed, (callsAt baseTimePerTick constructed gap work (n + 1 + k)).scheduledTick = some elapsed ∧
          (k + 1) * (heartBeat - 1) ≤ elapsed ∧ elapsed ≤ (k + 1) * heartBeat := by
  obtain ⟨N, hticks⟩ := exists_diffs_mem constructed gap work hwork
  have hsmul : ∀ c : ℤ, (k + 1) • c = (k + 1) * c := fun c => by
    rw [nsmul_eq_mul, Nat.cast_add, Nat.cast_one]
  simp only [callsAt_scheduledTick]
  refine ⟨N, fun n hn hsome => ?_⟩
  obtain ⟨v, hv⟩ := Option.isSome_iff_exists.mp hsome
  have hzero := (limit_lt_of_output hv).2.2
  obtain ⟨hsilent, elapsed, hcalled, hlower, hupper⟩ := period (k := k) (a := heartBeat - 1)
    (b := heartBeat) (by decide) hzero (fun j _ => hticks (n + 1 + j) (by omega))
    (by rw [nsmul_eq_mul]; exact hheld) (by rw [hsmul]; exact hgiven)
  exact ⟨hsilent, elapsed, hcalled, by rwa [hsmul] at hlower, by rwa [hsmul] at hupper⟩

end Sekkeizu.MainLoop
