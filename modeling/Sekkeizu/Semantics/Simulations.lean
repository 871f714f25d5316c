/-
# Sekkeizu.Semantics.Simulations — a coarse system that follows a fine one.

What a fine system does in several steps a coarse one does in one. It follows the fine system if it answers
every fine step with one step of its own, or with none. Both show observations on channels, and an observer
compares each channel by itself (`Agree`). The coarse system may be behind: `owed` is what the fine one has
shown and the coarse one has still to show.

`Simulation.run` is the rule for runs: every fine run is followed by a coarse one that shows the same on
every channel, up to what it owes at the end.

Nothing here names a particular system.
-/
import Sekkeizu.Semantics.Runs
import Mathlib.Algebra.BigOperators.Group.List.Basic

namespace PartialSystem

variable {σ τ α β ε δ ω κ : Type*} [DecidableEq κ]

/-! ## Channels -/

/-- **The same on every channel.** Between two channels there is no order. -/
def Agree (channel : ω → κ) (l l' : List ω) : Prop :=
  ∀ c, l.filter (fun o => channel o = c) = l'.filter fun o => channel o = c

namespace Agree

variable {channel : ω → κ} {l l' m m' : List ω}

theorem refl (channel : ω → κ) (l : List ω) : Agree channel l l := fun _ => rfl

theorem trans (h : Agree channel l l') (h' : Agree channel l' m) : Agree channel l m :=
  fun c => (h c).trans (h' c)

theorem append (h : Agree channel l l') (h' : Agree channel m m') :
    Agree channel (l ++ m) (l' ++ m') := by
  intro c
  rw [List.filter_append, List.filter_append, h c, h' c]

/-- Observations on different channels pass each other. -/
theorem swap (h : ∀ a ∈ l, ∀ b ∈ m, channel a ≠ channel b) : Agree channel (l ++ m) (m ++ l) := by
  intro c
  rw [List.filter_append, List.filter_append]
  by_cases hl : ∃ a ∈ l, channel a = c
  · obtain ⟨a, ha, hac⟩ := hl
    have hm : m.filter (fun o => channel o = c) = [] := by
      apply List.filter_eq_nil_iff.mpr
      intro b hb hbc
      exact h a ha b hb (hac.trans (of_decide_eq_true hbc).symm)
    rw [hm, List.append_nil, List.nil_append]
  · have hl : l.filter (fun o => channel o = c) = [] := by
      apply List.filter_eq_nil_iff.mpr
      intro a ha hac
      exact hl ⟨a, ha, of_decide_eq_true hac⟩
    rw [hl, List.append_nil, List.nil_append]

/-- A value that one channel has alone adds up to the same. -/
theorem sum_map {M : Type*} [AddMonoid M] (h : Agree channel l l') {c : κ} {f : ω → M}
    (hf : ∀ o, channel o ≠ c → f o = 0) : (l.map f).sum = (l'.map f).sum := by
  have hfilter : ∀ l : List ω, (l.map f).sum = ((l.filter fun o => channel o = c).map f).sum := by
    intro l
    induction l with
    | nil => rfl
    | cons o l ih =>
        rw [List.map_cons, List.sum_cons, ih]
        by_cases ho : channel o = c
        · rw [List.filter_cons_of_pos (by simpa using ho), List.map_cons, List.sum_cons]
        · rw [List.filter_cons_of_neg (by simpa using ho), hf o ho, zero_add]
  rw [hfilter l, hfilter l', h c]

end Agree

/-! ## Simulations -/

/-- What the steps of a run showed, oldest first. -/
def observed (shows : σ → α → List ω) (visited : List (Config σ ε × α)) : List ω :=
  visited.flatMap fun p => shows p.1.state p.2

/-- **The answer of the coarse system** where it owes these observations: it waits and goes on owing them,
or it takes a step, which shows some of them. -/
inductive Answers (coarse : Step τ β δ) (view : δ → Option ω) (channel : ω → κ)
    (P : List ω → τ → Prop) (owed : List ω) (t : τ) : Prop
  | waits (h : P owed t)
  | moves (b : β) (t' : τ) (evs : List δ) (owed' : List ω) (hstep : coarse t b = some (t', evs))
      (hagree : Agree channel owed (evs.filterMap view ++ owed')) (h : P owed' t')

/-- **A simulation**: `R owed s t` relates the states of the two systems, with what the coarse one owes. It
may rest on an invariant of either side. -/
structure Simulation (fine : Step σ α ε) (coarse : Step τ β δ) (shows : σ → α → List ω)
    (view : δ → Option ω) (channel : ω → κ) (I : σ → Prop) (J : τ → Prop)
    (R : List ω → σ → τ → Prop) : Prop where
  fine_keeps : ∀ {s s' a evs}, I s → fine s a = some (s', evs) → I s'
  coarse_keeps : ∀ {t t' b evs}, J t → coarse t b = some (t', evs) → J t'
  answers : ∀ {owed s s' a evs t}, I s → J t → R owed s t → fine s a = some (s', evs) →
    Answers coarse view channel (fun owed' t' => R owed' s' t') (owed ++ shows s a) t

section Runs

variable {fine : Step σ α ε} {coarse : Step τ β δ} {shows : σ → α → List ω} {view : δ → Option ω}
variable {channel : ω → κ} {I : σ → Prop} {J : τ → Prop} {R : List ω → σ → τ → Prop}

/-- **Every run of the fine system is followed**, and what it showed has been shown by the coarse one, or is
owed. -/
theorem Simulation.run (h : Simulation fine coarse shows view channel I J R) {x y : Config σ ε}
    {visited : List (Config σ ε × α)} (hrun : Run fine x visited y) {u : Config τ δ} {owed : List ω}
    (hI : I x.state) (hJ : J u.state) (hR : R owed x.state u.state) :
    ∃ steps v owed', Run coarse u steps v ∧ J v.state ∧ R owed' y.state v.state ∧
      Agree channel (u.history.filterMap view ++ owed ++ observed shows visited)
        (v.history.filterMap view ++ owed') := by
  induction hrun with
  | start =>
      refine ⟨[], u, owed, .start, hJ, hR, ?_⟩
      rw [observed, List.flatMap_nil, List.append_nil]
      exact .refl channel _
  | @snoc visited y z a hinit hnext ih =>
      obtain ⟨steps, v, owed', hsteps, hJv, hRv, hagree⟩ := ih
      have hIy : I y.state := hinit.invariant_state I h.fine_keeps hI
      obtain ⟨s, evs, hstep, rfl⟩ := Step.next_eq_some.mp hnext
      have hseen : observed shows (visited ++ [(y, a)]) = observed shows visited ++ shows y.state a := by
        rw [observed, List.flatMap_append, List.flatMap_singleton, observed]
      have hlonger : Agree channel
          (u.history.filterMap view ++ owed ++ observed shows (visited ++ [(y, a)]))
          (v.history.filterMap view ++ (owed' ++ shows y.state a)) := by
        rw [hseen, ← List.append_assoc, ← List.append_assoc]
        exact hagree.append (.refl channel _)
      cases h.answers hIy hJv hRv hstep with
      | waits hR => exact ⟨steps, v, _, hsteps, hJv, hR, hlonger⟩
      | moves b t' devs owed'' hcoarse hshown hR =>
          have hnext : coarse.next v b = some ⟨t', v.history ++ devs⟩ :=
            Step.next_eq_some.mpr ⟨t', devs, hcoarse, rfl⟩
          refine ⟨_, _, owed'', hsteps.snoc hnext, h.coarse_keeps hJv hcoarse, hR, hlonger.trans ?_⟩
          rw [List.filterMap_append, List.append_assoc]
          exact (Agree.refl channel _).append hshown

end Runs

end PartialSystem
