/-
# Sekkeizu.Semantics.Potentials — runs that use up a potential.

A potential is a number on the configurations. If wherever it is positive some allowed action lowers it, an
allowed run brings it to zero (`exists_run_to_zero`); if every round of some kind lowers it as long as it is
positive, it is zero after as many rounds as it counted, whatever the rounds were (`Rounds.zero_of_le`).

Nothing here names a particular system.
-/
import Sekkeizu.Semantics.Runs

namespace PartialSystem

variable {σ α ε : Type*}

/-- `n` rounds, one after the other. -/
inductive Rounds {κ : Type*} (round : κ → κ → Prop) : ℕ → κ → κ → Prop
  | start (x : κ) : Rounds round 0 x x
  | snoc {n : ℕ} {x y z : κ} : Rounds round n x y → round y z → Rounds round (n + 1) x z

namespace Rounds

variable {κ : Type*} {round : κ → κ → Prop} {I : κ → Prop} {n : ℕ} {x y : κ}

/-- What every round keeps, all rounds keep. -/
theorem keeps (hkeep : ∀ x y, I x → round x y → I y) (h : Rounds round n x y) (hx : I x) : I y := by
  induction h with
  | start => exact hx
  | snoc _ hround ih => exact hkeep _ _ (ih hx) hround

/-- As long as a round can be made, any number of rounds can. -/
theorem exist (hkeep : ∀ x y, I x → round x y → I y) (hround : ∀ x, I x → ∃ y, round x y) (hx : I x)
    (n : ℕ) : ∃ y, Rounds round n x y := by
  induction n with
  | zero => exact ⟨x, .start x⟩
  | succ n ih =>
      obtain ⟨y, hy⟩ := ih
      obtain ⟨z, hz⟩ := hround y (hy.keeps hkeep hx)
      exact ⟨z, hy.snoc hz⟩

/-- **The potential is used up** when every round lowers it while there is any, and none raises it. -/
theorem zero_of_le (hkeep : ∀ x y, I x → round x y → I y) (potential : κ → ℕ)
    (hfalls : ∀ x y, I x → round x y → potential y < potential x ∨ potential y = 0)
    (h : Rounds round n x y) (hx : I x) (hn : potential x ≤ n) : potential y = 0 := by
  have hle : potential y = 0 ∨ potential y + n ≤ potential x := by
    clear hn
    induction h with
    | start => exact Or.inr (Nat.le_refl _)
    | @snoc n x y z hinit hround ih =>
        rcases hfalls y z (hinit.keeps hkeep hx) hround with hlt | hzero
        · rcases ih hx with hzero | hle <;> omega
        · exact Or.inl hzero
  omega

end Rounds

/-- **A run that uses the potential up**, by allowed actions only. -/
theorem exists_run_to_zero {step : Step σ α ε} (I : Config σ ε → Prop) (allowed : α → Prop)
    (potential : Config σ ε → ℕ)
    (hlower : ∀ {x}, I x → 0 < potential x → ∃ a y, allowed a ∧ step.next x a = some y ∧ I y ∧
      potential y < potential x)
    {x : Config σ ε} (hx : I x) :
    ∃ visited y, Run step x visited y ∧ (∀ p ∈ visited, allowed p.2) ∧ potential y = 0 := by
  induction hn : potential x using Nat.strongRecOn generalizing x with
  | ind n ih =>
      rcases Nat.eq_zero_or_pos (potential x) with hzero | hpos
      · exact ⟨[], x, .start, fun p hp => absurd hp List.not_mem_nil, hzero⟩
      · obtain ⟨a, y, ha, hnext, hy, hlt⟩ := hlower hx hpos
        obtain ⟨visited, z, hrun, hallowed, hzero⟩ := ih (potential y) (hn ▸ hlt) hy rfl
        have hfirst : Run step x ([] ++ [(x, a)]) y := Run.start.snoc hnext
        refine ⟨_, z, hfirst.trans hrun, ?_, hzero⟩
        intro p hp
        rcases List.mem_append.mp hp with hp | hp
        · rw [List.nil_append, List.mem_singleton] at hp
          exact hp ▸ ha
        · exact hallowed p hp

end PartialSystem
