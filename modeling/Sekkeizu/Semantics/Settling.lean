/-
# Sekkeizu.Semantics.Settling — driven systems that settle near a point.

A driven system steps forever, and the environment chooses the input of every step. Its orbit under one
sequence of inputs is a sequence of states. Two rules are about all orbits at once:

* `Keeps.orbit` — what every step with an allowed input keeps holds from the state where it first holds;
* `Attracts.settles` — if every step shrinks a distance by a fixed factor, down to a floor, then from some
  step on the distance is below any margin above that floor. Which step depends on how far away the run
  started and on the margin, and on nothing the environment does.

Nothing here names a particular system.
-/
import Mathlib.Algebra.Order.Archimedean.Basic
import Mathlib.Tactic.Linarith

namespace DrivenSystem

variable {σ ι K : Type*}

/-- The states of a run: `orbit step start input n` is the state after `n` steps. -/
def orbit (step : σ → ι → σ) (start : σ) (input : ℕ → ι) : ℕ → σ
  | 0 => start
  | n + 1 => step (orbit step start input n) (input n)

section Orbit

variable {step : σ → ι → σ} {start : σ} {input : ℕ → ι}

@[simp] theorem orbit_zero : orbit step start input 0 = start := rfl

@[simp] theorem orbit_succ (n : ℕ) :
    orbit step start input (n + 1) = step (orbit step start input n) (input n) := rfl

/-- A run is its first step and the run from there. -/
theorem orbit_succ_eq_orbit_step (n : ℕ) :
    orbit step start input (n + 1) =
      orbit step (step start (input 0)) (fun k => input (k + 1)) n := by
  induction n with
  | zero => rfl
  | succ n ih => rw [orbit_succ, ih, orbit_succ]

end Orbit

/-- Every step with an allowed input keeps the property. -/
def Keeps (step : σ → ι → σ) (allowed : ι → Prop) (inv : σ → Prop) : Prop :=
  ∀ s i, allowed i → inv s → inv (step s i)

/-- **A kept property holds from the start.** -/
theorem Keeps.orbit {step : σ → ι → σ} {allowed : ι → Prop} {inv : σ → Prop}
    (hkeeps : Keeps step allowed inv) {start : σ} (hstart : inv start) {input : ℕ → ι}
    (hinput : ∀ n, allowed (input n)) (n : ℕ) : inv (orbit step start input n) := by
  induction n with
  | zero => exact hstart
  | succ n ih => exact hkeeps _ _ (hinput n) ih

/-! ## Attraction -/

/-- Where the invariant holds, a step multiplies the distance by at most `r`, or brings it to at most
`floor`. -/
def Attracts [Mul K] [LinearOrder K] (step : σ → ι → σ) (allowed : ι → Prop) (inv : σ → Prop)
    (dist : σ → K) (r floor : K) : Prop :=
  ∀ s i, allowed i → inv s → dist (step s i) ≤ max (r * dist s) floor

namespace Attracts

variable [Field K] [LinearOrder K] [IsStrictOrderedRing K] {step : σ → ι → σ} {allowed : ι → Prop}
  {inv : σ → Prop} {dist : σ → K} {r floor : K} {start : σ} {input : ℕ → ι}

/-- The distance after `n` steps is geometric, down to the floor. -/
theorem orbit_le (hattracts : Attracts step allowed inv dist r floor)
    (hkeeps : Keeps step allowed inv) (hr : 0 ≤ r) (hr' : r ≤ 1) (hfloor : 0 ≤ floor)
    (hstart : inv start) (hinput : ∀ n, allowed (input n)) (n : ℕ) :
    dist (orbit step start input n) ≤ max (r ^ n * dist start) floor := by
  induction n with
  | zero => simp
  | succ n ih =>
      have hinv : inv (orbit step start input n) := hkeeps.orbit hstart hinput n
      have hfloor' : r * floor ≤ floor := mul_le_of_le_one_left hfloor hr'
      have hscaled : r * dist (orbit step start input n) ≤ max (r ^ (n + 1) * dist start) floor := by
        calc r * dist (orbit step start input n)
            ≤ r * max (r ^ n * dist start) floor := mul_le_mul_of_nonneg_left ih hr
          _ = max (r ^ (n + 1) * dist start) (r * floor) := by
              rw [mul_max_of_nonneg _ _ hr, ← mul_assoc, ← pow_succ']
          _ ≤ max (r ^ (n + 1) * dist start) floor := max_le_max le_rfl hfloor'
      calc dist (orbit step start input (n + 1))
          ≤ max (r * dist (orbit step start input n)) floor := hattracts _ _ (hinput n) hinv
        _ ≤ max (r ^ (n + 1) * dist start) floor := max_le hscaled (le_max_right _ _)

/-- **Settling.** A contraction with a floor brings the distance below every margin above the floor, for
good, and no later from one start within the bound, or under one sequence of inputs, than another. -/
theorem settles [Archimedean K] (hattracts : Attracts step allowed inv dist r floor)
    (hkeeps : Keeps step allowed inv) (hr : 0 ≤ r) (hr' : r < 1) (hfloor : 0 ≤ floor) {margin : K}
    (hmargin : floor < margin) {bound : K} (hbound : 0 < bound) :
    ∃ N, ∀ start, inv start → dist start ≤ bound → ∀ input : ℕ → ι, (∀ n, allowed (input n)) →
      ∀ n, N ≤ n → dist (orbit step start input n) < margin := by
  have hpos : 0 < margin / bound := div_pos (hfloor.trans_lt hmargin) hbound
  obtain ⟨N, hN⟩ := exists_pow_lt_of_lt_one hpos hr'
  refine ⟨N, ?_⟩
  intro start hstart hdist input hinput n hn
  have hpow : r ^ n ≤ r ^ N := pow_le_pow_of_le_one hr hr'.le hn
  have hsmall : r ^ n * dist start < margin := by
    calc r ^ n * dist start
        ≤ r ^ n * bound := mul_le_mul_of_nonneg_left hdist (pow_nonneg hr n)
      _ ≤ r ^ N * bound := mul_le_mul_of_nonneg_right hpow hbound.le
      _ < margin := (lt_div_iff₀ hbound).mp hN
  calc dist (orbit step start input n)
      ≤ max (r ^ n * dist start) floor :=
        hattracts.orbit_le hkeeps hr hr'.le hfloor hstart hinput n
    _ < margin := max_lt hsmall hmargin

end Attracts

end DrivenSystem
