/-
# Sekkeizu.Semantics.Reservoirs — things that are made on demand and kept for reuse.

A reservoir has made a number of things, and some of them are idle. A thing is only made when one is asked for;
when none is idle at that moment, the things in use are as many as have been made. So what a run makes is the
peak of what it had in use, but for the times when something was made although another thing was idle
(`high_water`).

Nothing here names a particular system.
-/
import Sekkeizu.Semantics.Runs
import Mathlib.Algebra.Order.Group.Nat

namespace PartialSystem

variable {σ α ε : Type*}

/-- What has been made, what of it is idle, and which actions make a thing in spite of that. -/
structure Reservoir (σ α : Type*) where
  made : σ → ℕ
  idle : σ → ℕ
  misses : σ → α → Bool

namespace Reservoir

variable (r : Reservoir σ α)

/-- What has been made and is not idle. -/
def inUse (s : σ) : ℕ := r.made s - r.idle s

/-- The most that was in use at once. -/
def peak (visited : List (Config σ ε × α)) (y : Config σ ε) : ℕ :=
  max ((visited.map fun p => r.inUse p.1.state).foldl max 0) (r.inUse y.state)

/-- How often something was made although another thing was idle. -/
def missed (visited : List (Config σ ε × α)) : ℕ :=
  visited.countP fun p => r.misses p.1.state p.2

/-- **What a step may do**: make one thing, or none. -/
inductive Moves (s s' : σ) (a : α) : Prop
  | keeps (hmade : r.made s' = r.made s)
  | makes (hmade : r.made s' = r.made s + 1) (hidle : r.idle s' = r.idle s)
      (hmiss : r.misses s a = true ∨ r.idle s = 0)

variable {r}

theorem peak_snoc (visited : List (Config σ ε × α)) (y z : Config σ ε) (a : α) :
    r.peak (visited ++ [(y, a)]) z = max (r.peak visited y) (r.inUse z.state) := by
  rw [peak, List.map_append, List.foldl_append]
  rfl

theorem missed_snoc (visited : List (Config σ ε × α)) (y : Config σ ε) (a : α) :
    r.missed (visited ++ [(y, a)]) = r.missed visited + (r.misses y.state a).toNat := by
  rw [missed, List.countP_append]
  cases h : r.misses y.state a <;> simp [missed, h]

/-- The peak bounds what any configuration of the run has in use. -/
theorem le_peak {visited : List (Config σ ε × α)} {y : Config σ ε} {n : ℕ} :
    r.peak visited y ≤ n ↔ (∀ p ∈ visited, r.inUse p.1.state ≤ n) ∧ r.inUse y.state ≤ n := by
  have hfold : ∀ (l : List ℕ) (m : ℕ), l.foldl max m ≤ n ↔ m ≤ n ∧ ∀ k ∈ l, k ≤ n := by
    intro l
    induction l with
    | nil => simp
    | cons k l ih =>
        intro m
        rw [List.foldl_cons, ih, Nat.max_le, List.forall_mem_cons, and_assoc]
  rw [peak, Nat.max_le, hfold, List.forall_mem_map]
  simp

/-- **The high-water mark.** A run makes what it has in use at its peak, and one thing more at most for each
time it made one although another was idle. -/
theorem high_water {step : Step σ α ε} (I : σ → Prop)
    (hkeep : ∀ {s s' a evs}, I s → step s a = some (s', evs) → I s')
    (hmoves : ∀ {s s' a evs}, I s → step s a = some (s', evs) → r.Moves s s' a)
    {x y : Config σ ε} {visited : List (Config σ ε × α)} (hrun : Run step x visited y)
    (hx : I x.state) (hstart : r.idle x.state = 0) :
    r.peak visited y ≤ r.made y.state ∧ r.made y.state ≤ r.peak visited y + r.missed visited := by
  have hinv : ∀ {visited y}, Run step x visited y → I y.state := by
    intro visited y hrun
    exact hrun.invariant_state I hkeep hx
  induction hrun with
  | start =>
      have hall : r.inUse x.state = r.made x.state := by
        rw [inUse, hstart, Nat.sub_zero]
      simp [peak, missed, hall]
  | @snoc visited y z a hinit hnext ih =>
      obtain ⟨s', evs, hstep, rfl⟩ := Step.next_eq_some.mp hnext
      rw [peak_snoc, missed_snoc]
      dsimp only
      have huse : r.inUse s' ≤ r.made s' := Nat.sub_le _ _
      cases hmoves (hinv hinit) hstep with
      | keeps hmade => omega
      | makes hmade hidle hmiss =>
          rcases hmiss with hmiss | hempty
          · rw [hmiss, Bool.toNat_true]
            omega
          · -- none is idle, so all are in use now
            have hall : r.inUse s' = r.made s' := by
              rw [inUse, hidle, hempty, Nat.sub_zero]
            omega

end Reservoir

end PartialSystem
