/-
# Sekkeizu.Semantics.Thresholds — accumulators that give out what they hold when it exceeds a limit.

An accumulator adds up its inputs; as soon as the sum is above its limit it gives out the sum and starts again
from zero. Nothing is lost on the way (`sum_output_add_level`). If from some input on all inputs lie between two
bounds, the bounds say how many inputs it can take from one output to the next (`next_output`), and outputs come
in a fixed rhythm when they are close enough to leave one number (`period`).

Nothing here names a particular system.
-/
import Sekkeizu.Semantics.Settling
import Mathlib.Algebra.BigOperators.Group.Finset.Basic
import Mathlib.Algebra.Order.BigOperators.Group.Finset
import Mathlib.Data.Nat.Find

namespace DrivenSystem

variable {M : Type*} [AddCommGroup M] [LinearOrder M]

/-- One input: what the accumulator gives out, and what it holds then. -/
def accumulate (limit level x : M) : Option M × M :=
  if limit < level + x then (some (level + x), 0) else (none, level + x)

/-- What the accumulator holds after `n` inputs. -/
def level (limit start : M) (input : ℕ → M) (n : ℕ) : M :=
  orbit (fun level x => (accumulate limit level x).2) start input n

/-- What it gives out at the `n`-th input, counted from zero. -/
def output (limit start : M) (input : ℕ → M) (n : ℕ) : Option M :=
  (accumulate limit (level limit start input n) (input n)).1

section One

variable {limit start : M} {input : ℕ → M} {n : ℕ}

/-- **One input** is given out with everything held, or held as well. -/
theorem output_cases (limit start : M) (input : ℕ → M) (n : ℕ) :
    (limit < level limit start input n + input n ∧
      output limit start input n = some (level limit start input n + input n) ∧
      level limit start input (n + 1) = 0) ∨
    (level limit start input n + input n ≤ limit ∧ output limit start input n = none ∧
      level limit start input (n + 1) = level limit start input n + input n) := by
  have hnext : level limit start input (n + 1) =
      (accumulate limit (level limit start input n) (input n)).2 := rfl
  rw [hnext, output, accumulate]
  split_ifs with hlimit
  · exact Or.inl ⟨hlimit, rfl, rfl⟩
  · exact Or.inr ⟨not_lt.mp hlimit, rfl, rfl⟩

theorem limit_lt_of_output {v : M} (h : output limit start input n = some v) :
    limit < v ∧ v = level limit start input n + input n ∧ level limit start input (n + 1) = 0 := by
  rcases output_cases limit start input n with ⟨hlt, hsome, hzero⟩ | ⟨-, hnone, -⟩
  · obtain rfl := Option.some.inj (hsome.symm.trans h)
    exact ⟨hlt, rfl, hzero⟩
  · exact absurd (hnone.symm.trans h) (by simp)

theorem level_succ_of_silent (h : output limit start input n = none) :
    level limit start input (n + 1) = level limit start input n + input n ∧
      level limit start input n + input n ≤ limit := by
  rcases output_cases limit start input n with ⟨-, hsome, -⟩ | ⟨hle, -, hsum⟩
  · exact absurd (hsome.symm.trans h) (by simp)
  · exact ⟨hsum, hle⟩

/-- **Nothing is lost**: what has been given out and what is held are what has come in. -/
theorem sum_output_add_level (limit start : M) (input : ℕ → M) (n : ℕ) :
    ∑ k ∈ Finset.range n, (output limit start input k).getD 0 + level limit start input n =
      start + ∑ k ∈ Finset.range n, input k := by
  induction n with
  | zero => simp [level]
  | succ n ih =>
      rw [Finset.sum_range_succ, Finset.sum_range_succ, ← add_assoc, ← ih]
      rcases output_cases limit start input n with ⟨-, hsome, hzero⟩ | ⟨-, hnone, hsum⟩
      · rw [hsome, hzero, Option.getD_some, add_zero, ← add_assoc]
      · rw [hnone, hsum, Option.getD_none, add_zero, ← add_assoc]

/-- The limit is never exceeded between inputs. -/
theorem level_le (hlimit : 0 ≤ limit) (hstart : start ≤ limit) (n : ℕ) :
    level limit start input n ≤ limit := by
  cases n with
  | zero => exact hstart
  | succ n =>
      rcases output_cases limit start input n with ⟨-, -, hzero⟩ | ⟨hle, -, hsum⟩
      · rw [hzero]
        exact hlimit
      · rw [hsum]
        exact hle

/-- Over a silent stretch the inputs add up. -/
theorem level_of_silent {k : ℕ} (h : ∀ j < k, output limit start input (n + j) = none) :
    level limit start input (n + k) =
      level limit start input n + ∑ j ∈ Finset.range k, input (n + j) := by
  induction k with
  | zero => simp
  | succ k ih =>
      have hrest := ih fun j hj => h j (Nat.lt_succ_of_lt hj)
      have hlast := (level_succ_of_silent (h k (Nat.lt_succ_self k))).1
      calc level limit start input (n + (k + 1))
          = level limit start input (n + k) + input (n + k) := hlast
        _ = level limit start input n + ∑ j ∈ Finset.range (k + 1), input (n + j) := by
            rw [hrest, add_assoc, Finset.sum_range_succ]

end One

section Rhythm

variable [IsOrderedAddMonoid M] {limit start a b : M} {input : ℕ → M} {n k : ℕ}

theorem level_nonneg (hstart : 0 ≤ start) (hinput : ∀ n, 0 ≤ input n) (n : ℕ) :
    0 ≤ level limit start input n := by
  induction n with
  | zero => exact hstart
  | succ n ih =>
      rcases output_cases limit start input n with ⟨-, -, hzero⟩ | ⟨-, -, hsum⟩
      · rw [hzero]
      · rw [hsum]
        exact add_nonneg ih (hinput n)

/-- Inputs that are small enough together are held. -/
theorem silent_of_le (hb : 0 ≤ b) (hinput : ∀ j < k, input (n + j) ≤ b)
    (hlimit : level limit start input n + k • b ≤ limit) :
    ∀ j < k, output limit start input (n + j) = none := by
  intro j
  induction j using Nat.strongRecOn with
  | ind j ih =>
      intro hj
      have hsum : ∑ i ∈ Finset.range (j + 1), input (n + i) ≤ k • b := by
        calc ∑ i ∈ Finset.range (j + 1), input (n + i)
            ≤ ∑ _i ∈ Finset.range (j + 1), b := by
              apply Finset.sum_le_sum
              intro i hi
              exact hinput i (by rw [Finset.mem_range] at hi; omega)
          _ = (j + 1) • b := by rw [Finset.sum_const, Finset.card_range]
          _ ≤ k • b := nsmul_le_nsmul_left hb hj
      rcases output_cases limit start input (n + j) with ⟨hlt, -, -⟩ | ⟨-, hnone, -⟩
      · rw [level_of_silent fun i hi => ih i hi (hi.trans hj), add_assoc,
          ← Finset.sum_range_succ fun i => input (n + i)] at hlt
        have hle : level limit start input n + ∑ i ∈ Finset.range (j + 1), input (n + i) ≤ limit :=
          (add_le_add_right hsum _).trans hlimit
        exact absurd hle (not_le.mpr hlt)
      · exact hnone

/-- Inputs that are large enough together are not all held. -/
theorem exists_output (hlimit : 0 ≤ limit) (hstart : start ≤ limit)
    (hlevel : 0 ≤ level limit start input n) (hinput : ∀ j < k, a ≤ input (n + j)) (hk : limit < k • a) :
    ∃ j < k, (output limit start input (n + j)).isSome = true := by
  by_contra hnone
  have hsilent : ∀ j < k, output limit start input (n + j) = none := by
    intro j hj
    by_contra hsome
    exact hnone ⟨j, hj, Option.isSome_iff_ne_none.mpr hsome⟩
  have hsum : k • a ≤ ∑ j ∈ Finset.range k, input (n + j) := by
    calc k • a = ∑ _j ∈ Finset.range k, a := by rw [Finset.sum_const, Finset.card_range]
      _ ≤ ∑ j ∈ Finset.range k, input (n + j) :=
        Finset.sum_le_sum fun j hj => hinput j (Finset.mem_range.mp hj)
  have hle : level limit start input (n + k) ≤ limit := level_le hlimit hstart (n + k)
  rw [level_of_silent hsilent] at hle
  exact absurd ((le_add_of_nonneg_left hlevel).trans hle) (not_le.mpr (hk.trans_le hsum))

/-- The first output of inputs that are not too small: before it no more are held than the limit allows. -/
theorem first_output (hlimit : 0 ≤ limit) (hstart : start ≤ limit)
    (hlevel : 0 ≤ level limit start input n) (hinput : ∀ j, a ≤ input (n + j)) (hk : limit < k • a) :
    ∃ j v, (∀ i < j, output limit start input (n + i) = none) ∧
      output limit start input (n + j) = some v ∧ j • a ≤ limit := by
  have hsome : ∃ j, (output limit start input (n + j)).isSome = true := by
    obtain ⟨j, -, hj⟩ := exists_output hlimit hstart hlevel (fun j _ => hinput j) hk
    exact ⟨j, hj⟩
  obtain ⟨v, hv⟩ := Option.isSome_iff_exists.mp (Nat.find_spec hsome)
  have hsilent : ∀ i < Nat.find hsome, output limit start input (n + i) = none := by
    intro i hi
    exact Option.not_isSome_iff_eq_none.mp (Nat.find_min hsome hi)
  refine ⟨Nat.find hsome, v, hsilent, hv, ?_⟩
  have hsum : Nat.find hsome • a ≤ ∑ i ∈ Finset.range (Nat.find hsome), input (n + i) := by
    simpa using Finset.card_nsmul_le_sum (Finset.range (Nat.find hsome)) (fun i => input (n + i)) a
      fun i _ => hinput i
  calc Nat.find hsome • a
      ≤ ∑ i ∈ Finset.range (Nat.find hsome), input (n + i) := hsum
    _ ≤ level limit start input n + ∑ i ∈ Finset.range (Nat.find hsome), input (n + i) :=
        le_add_of_nonneg_left hlevel
    _ = level limit start input (n + Nat.find hsome) := (level_of_silent hsilent).symm
    _ ≤ limit := level_le hlimit hstart _

/-- **From one output to the next** it takes `j + 1` inputs, of which the largest exceed the limit together and
`j` of the smallest do not; what is given out exceeds it by one input at most. -/
theorem next_output (hlimit : 0 ≤ limit) (hstart : start ≤ limit) (hlevel : level limit start input n = 0)
    (hinput : ∀ j, a ≤ input (n + j) ∧ input (n + j) ≤ b) (hk : limit < k • a) :
    ∃ j v, (∀ i < j, output limit start input (n + i) = none) ∧
      output limit start input (n + j) = some v ∧ (j • a ≤ limit ∧ limit < (j + 1) • b) ∧
      limit < v ∧ v ≤ limit + b := by
  obtain ⟨j, v, hsilent, hv, hsmall⟩ :=
    first_output hlimit hstart hlevel.ge (fun j => (hinput j).1) hk
  obtain ⟨hexceeds, hgiven, -⟩ := limit_lt_of_output hv
  refine ⟨j, v, hsilent, hv, ⟨hsmall, ?_⟩, hexceeds, ?_⟩
  · calc limit < v := hexceeds
      _ = ∑ i ∈ Finset.range (j + 1), input (n + i) := by
          rw [hgiven, level_of_silent hsilent, hlevel, zero_add, Finset.sum_range_succ]
      _ ≤ (j + 1) • b := by
          simpa using Finset.sum_le_card_nsmul (Finset.range (j + 1)) (fun i => input (n + i)) b
            fun i _ => (hinput i).2
  · rw [hgiven]
    exact add_le_add (level_le hlimit hstart _) (hinput j).2

/-- **The rhythm**: after an output, `k` inputs are held and the next one is given out with them, when `k` of
the largest inputs stay within the limit and `k + 1` of the smallest do not. -/
theorem period (hb : 0 ≤ b) (hlevel : level limit start input n = 0)
    (hinput : ∀ j ≤ k, a ≤ input (n + j) ∧ input (n + j) ≤ b) (hheld : k • b ≤ limit)
    (hgiven : limit < (k + 1) • a) :
    (∀ j < k, output limit start input (n + j) = none) ∧
      ∃ v, output limit start input (n + k) = some v ∧ (k + 1) • a ≤ v ∧ v ≤ (k + 1) • b := by
  have hsilent : ∀ j < k, output limit start input (n + j) = none := by
    apply silent_of_le hb fun j hj => (hinput j hj.le).2
    rw [hlevel, zero_add]
    exact hheld
  refine ⟨hsilent, ?_⟩
  have hsum : level limit start input (n + k) + input (n + k) =
      ∑ j ∈ Finset.range (k + 1), input (n + j) := by
    rw [level_of_silent hsilent, hlevel, zero_add, Finset.sum_range_succ]
  have hconst : ∀ c : M, ∑ _j ∈ Finset.range (k + 1), c = (k + 1) • c := fun c => by
    rw [Finset.sum_const, Finset.card_range]
  have hlower : (k + 1) • a ≤ ∑ j ∈ Finset.range (k + 1), input (n + j) := by
    rw [← hconst]
    exact Finset.sum_le_sum fun j hj => (hinput j (Nat.lt_succ_iff.mp (Finset.mem_range.mp hj))).1
  have hupper : ∑ j ∈ Finset.range (k + 1), input (n + j) ≤ (k + 1) • b := by
    rw [← hconst]
    exact Finset.sum_le_sum fun j hj => (hinput j (Nat.lt_succ_iff.mp (Finset.mem_range.mp hj))).2
  rcases output_cases limit start input (n + k) with ⟨-, hsome, -⟩ | ⟨hle, -, -⟩
  · exact ⟨_, hsome, hsum ▸ hlower, hsum ▸ hupper⟩
  · rw [hsum] at hle
    exact absurd (hlower.trans hle) (not_le.mpr hgiven)

end Rhythm

end DrivenSystem
