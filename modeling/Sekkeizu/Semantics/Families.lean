/-
# Sekkeizu.Semantics.Families — several copies of one system, interleaved.

A family is a finite table of states of one system. An action names the member that takes it; before
the member takes it, `resolve` completes the action from the states of all members, which is how a
member gets to see the others. Events carry the name of the member they come from.

`next_member` is the one fact the rest needs: a step of the family is a step of one member, on that
member's own history, and nothing at all for the others. From it a property that the steps of a single
system keep holds of every member after every run (`member_step`).
-/
import Sekkeizu.Semantics.Runs
import Sekkeizu.Semantics.Tables

namespace PartialSystem

variable {κ σ α ε : Type*} [DecidableEq κ]

/-- One step of a family: the named member takes the completed action. -/
def familyStep (step : Step σ α ε) (resolve : (Finmap fun _ : κ => σ) → α → α) :
    Step (Finmap fun _ : κ => σ) (κ × α) (κ × ε) := fun family a =>
  match family.lookup a.1 with
  | none => none
  | some s =>
    (step s (resolve family a.2)).map fun r =>
      (family.insert a.1 r.1, r.2.map fun ev => (a.1, ev))

/-- The events of one member, in order. -/
def eventsOf (k : κ) (history : List (κ × ε)) : List ε :=
  history.filterMap fun ev => if ev.1 = k then some ev.2 else none

/-- A family seen from a member in state `s`: the state and the member's own history. -/
def memberConfig (x : Config (Finmap fun _ : κ => σ) (κ × ε)) (k : κ) (s : σ) : Config σ ε :=
  ⟨s, eventsOf k x.history⟩

@[simp] theorem eventsOf_append (k : κ) (h₁ h₂ : List (κ × ε)) :
    eventsOf k (h₁ ++ h₂) = eventsOf k h₁ ++ eventsOf k h₂ :=
  List.filterMap_append

theorem eventsOf_self (k : κ) (evs : List ε) : eventsOf k (evs.map fun ev => (k, ev)) = evs := by
  rw [eventsOf, List.filterMap_map]
  simp only [Function.comp_def, if_true, List.filterMap_some]

theorem eventsOf_ne {j k : κ} (h : k ≠ j) (evs : List ε) :
    eventsOf j (evs.map fun ev => (k, ev)) = [] := by
  simp [eventsOf, h]

theorem mem_eventsOf {k : κ} {history : List (κ × ε)} {ev : ε} :
    ev ∈ eventsOf k history ↔ (k, ev) ∈ history := by
  simp [eventsOf]

variable {step : Step σ α ε} {resolve : (Finmap fun _ : κ => σ) → α → α}
variable {x y : Config (Finmap fun _ : κ => σ) (κ × ε)}

theorem familyStep_eq_some {family family' : Finmap fun _ : κ => σ} {k : κ} {a : α}
    {evs : List (κ × ε)} :
    familyStep step resolve family (k, a) = some (family', evs) ↔
      ∃ s s' evs', family.lookup k = some s ∧ step s (resolve family a) = some (s', evs') ∧
        family' = family.insert k s' ∧ evs = evs'.map fun ev => (k, ev) := by
  unfold familyStep
  cases hlookup : family.lookup k with
  | none => simp
  | some s =>
      simp only [Option.map_eq_some_iff, Prod.mk.injEq, Prod.exists]
      constructor
      · rintro ⟨s', evs', hstep, rfl, rfl⟩
        exact ⟨s, s', evs', rfl, hstep, rfl, rfl⟩
      · rintro ⟨s₀, s', evs', heq, hstep, rfl, rfl⟩
        obtain rfl := Option.some.inj heq
        exact ⟨s', evs', hstep, rfl, rfl⟩

/-- **A step of the family, seen from one member**: the member acts, on its own history, or nothing
happens to it. -/
theorem next_member {k : κ} {a : α} (hnext : (familyStep step resolve).next x (k, a) = some y)
    {j : κ} {s : σ} (hj : x.state.lookup j = some s) :
    (j ≠ k ∧ y.state.lookup j = some s ∧ eventsOf j y.history = eventsOf j x.history) ∨
    (j = k ∧ ∃ s', y.state.lookup j = some s' ∧
      step.next (memberConfig x j s) (resolve x.state a) = some (memberConfig y j s')) := by
  obtain ⟨family, evs, hstep, rfl⟩ := Step.next_eq_some.mp hnext
  obtain ⟨s₀, s', evs', hlookup, hmove, rfl, rfl⟩ := familyStep_eq_some.mp hstep
  by_cases heq : j = k
  · subst heq
    obtain rfl := Option.some.inj (hlookup.symm.trans hj)
    refine Or.inr ⟨rfl, s', Finmap.lookup_insert _, ?_⟩
    refine Step.next_eq_some.mpr ⟨s', evs', hmove, ?_⟩
    simp only [memberConfig, eventsOf_append, eventsOf_self]
  · refine Or.inl ⟨heq, ?_, ?_⟩
    · exact (Finmap.lookup_insert_of_ne _ heq).trans hj
    · rw [eventsOf_append, eventsOf_ne (Ne.symm heq), List.append_nil]

/-- No step adds a member. -/
theorem member_of_next {k : κ} {a : α} (hnext : (familyStep step resolve).next x (k, a) = some y)
    {j : κ} {s' : σ} (hj : y.state.lookup j = some s') : ∃ s, x.state.lookup j = some s := by
  obtain ⟨family, evs, hstep, rfl⟩ := Step.next_eq_some.mp hnext
  obtain ⟨s₀, s₁, evs', hlookup, -, rfl, -⟩ := familyStep_eq_some.mp hstep
  by_cases heq : j = k
  · exact ⟨s₀, heq ▸ hlookup⟩
  · exact ⟨s', (Finmap.lookup_insert_of_ne _ heq).symm.trans hj⟩

/-- A name without a member has none before the step either, and no events of it. -/
theorem absent_of_next {a : κ × α} (hnext : (familyStep step resolve).next x a = some y)
    {j : κ} (hj : y.state.lookup j = none) :
    x.state.lookup j = none ∧ eventsOf j y.history = eventsOf j x.history := by
  obtain ⟨family, evs, hstep, rfl⟩ := Step.next_eq_some.mp hnext
  obtain ⟨s₀, s', evs', -, -, rfl, rfl⟩ := familyStep_eq_some.mp hstep
  have hne : j ≠ a.1 := by
    rintro rfl
    exact absurd ((Finmap.lookup_insert _).symm.trans hj) (by simp)
  refine ⟨(Finmap.lookup_insert_of_ne _ hne).symm.trans hj, ?_⟩
  rw [eventsOf_append, eventsOf_ne (Ne.symm hne), List.append_nil]

/-- What single steps keep, every member keeps through a step of the family. -/
theorem member_step {I : Config σ ε → Prop}
    (hkeep : ∀ {y z : Config σ ε} {a : α}, I y → step.next y a = some z → I z) {a : κ × α}
    (hx : ∀ k s, x.state.lookup k = some s → I (memberConfig x k s))
    (hnext : (familyStep step resolve).next x a = some y) :
    ∀ k s, y.state.lookup k = some s → I (memberConfig y k s) := by
  intro j s' hj
  obtain ⟨s, hs⟩ := member_of_next hnext hj
  rcases next_member hnext hs with ⟨-, hsame, hevents⟩ | ⟨-, s₁, hs₁, hmove⟩
  · obtain rfl := Option.some.inj (hsame.symm.trans hj)
    simpa only [memberConfig, hevents] using hx j s hs
  · obtain rfl := Option.some.inj (hs₁.symm.trans hj)
    exact hkeep (hx j s hs) hmove

end PartialSystem
