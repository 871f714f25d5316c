/-
# Sekkeizu.Semantics.Throttles — gates that open when they have held enough, or are forced.

A gate is told times. It holds them until they reach a limit, and then opens and holds nothing; it also opens
whenever it is forced. What it counts bounds its rate from both sides (`Throttle.Paced`): each time it opened of
itself it had held the limit, and if no single time is above a bound, it never held more than the limit and
that bound when it opened.

Nothing here names a particular system.
-/
import Mathlib.Tactic.Ring
import Mathlib.Tactic.Common

namespace DrivenSystem

/-- A gate, with what it has counted. -/
structure Throttle where
  /-- The time held. -/
  level : ℕ
  /-- How often it has opened of itself. -/
  timed : ℕ
  /-- How often it has opened because it was forced. -/
  forced : ℕ
  /-- All the time it was told. -/
  total : ℕ

namespace Throttle

/-- A gate that has been told nothing. -/
def new : Throttle := ⟨0, 0, 0, 0⟩

/-- The gate is told a time. -/
def tell (limit : ℕ) (force : Bool) (time : ℕ) (g : Throttle) : Throttle :=
  if force then { level := 0, timed := g.timed, forced := g.forced + 1, total := g.total + time }
  else if limit ≤ g.level + time then
    { level := 0, timed := g.timed + 1, forced := g.forced, total := g.total + time }
  else { level := g.level + time, timed := g.timed, forced := g.forced, total := g.total + time }

/-- **The rate of a gate** whose single times are at most `longest`. -/
structure Paced (limit longest : ℕ) (g : Throttle) : Prop where
  held : g.level < limit ∨ g.level = 0
  timed_le : g.timed * limit + g.level ≤ g.total
  total_le : g.total ≤ (g.timed + g.forced) * (limit + longest) + g.level

variable {limit longest time : ℕ} {g : Throttle}

theorem paced_new (limit longest : ℕ) : Paced limit longest new where
  held := Or.inr rfl
  timed_le := by simp [new]
  total_le := by simp [new]

theorem Paced.level_le (h : Paced limit longest g) : g.level ≤ limit := by
  rcases h.held with hlt | hzero
  · exact hlt.le
  · omega

/-- **Telling keeps the rate.** -/
theorem Paced.tell (h : Paced limit longest g) (htime : time ≤ longest) (force : Bool) :
    Paced limit longest (g.tell limit force time) := by
  have hlevel := h.level_le
  have hlower := h.timed_le
  have hupper := h.total_le
  unfold Throttle.tell
  split_ifs with hforce hopens
  · refine ⟨Or.inr rfl, ?_, ?_⟩
    · dsimp only
      omega
    · dsimp only
      have hone : (g.timed + (g.forced + 1)) * (limit + longest) =
          (g.timed + g.forced) * (limit + longest) + (limit + longest) := by ring
      omega
  · refine ⟨Or.inr rfl, ?_, ?_⟩
    · dsimp only
      have hone : (g.timed + 1) * limit = g.timed * limit + limit := by ring
      omega
    · dsimp only
      have hone : (g.timed + 1 + g.forced) * (limit + longest) =
          (g.timed + g.forced) * (limit + longest) + (limit + longest) := by ring
      omega
  · refine ⟨Or.inl (by dsimp only; omega), ?_, ?_⟩
    · dsimp only
      omega
    · dsimp only
      omega

end Throttle

end DrivenSystem
