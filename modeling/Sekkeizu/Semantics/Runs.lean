/-
# Sekkeizu.Semantics.Runs — finite runs of a partial labelled system, with their history.

A system is a partial step function: from a state and an action it yields, when the action is
enabled, the next state and the events the step lets an observer see. A configuration pairs the
state with every event seen so far, and `Run` lists each configuration the run left together with
the action taken there, so that a property OF A STEP ("this action, taken in this state") can be
required of, or concluded about, every step of a run.

The two rules everything else rides on:

* `Run.invariant` — a configuration predicate kept by every enabled action that meets a side
  condition holds at the end of every run whose steps all meet it (`invariant_under` is the rule for a
  property that rests on another invariant, `invariant_state` for one of the state alone,
  `due_or_met` for what is to happen before something else does);
* `Run.forall_iff` — two step properties that agree wherever the invariant holds, the invariant being
  kept by the steps that have one of them, hold of all steps of exactly the same runs.

Nothing here names a particular system.
-/
import Mathlib.Data.List.Basic
import Mathlib.Data.Option.Basic
import Mathlib.Tactic.Common

namespace PartialSystem

variable {σ τ α β ε δ : Type*}

/-- A partial step function: the next state and the events of the step, when it is enabled. -/
abbrev Step (σ α ε : Type*) := σ → α → Option (σ × List ε)

/-- A state together with every event observed on the way to it. -/
structure Config (σ ε : Type*) where
  state : σ
  history : List ε

/-- One step of a configuration: the history grows by the events of the step. -/
def Step.next (step : Step σ α ε) (x : Config σ ε) (a : α) : Option (Config σ ε) :=
  (step x.state a).map fun r => ⟨r.1, x.history ++ r.2⟩

theorem Step.next_eq_some {step : Step σ α ε} {x y : Config σ ε} {a : α} :
    step.next x a = some y ↔
      ∃ s ev, step x.state a = some (s, ev) ∧ y = ⟨s, x.history ++ ev⟩ := by
  constructor
  · intro h
    obtain ⟨⟨s, ev⟩, hstep, hy⟩ := Option.map_eq_some_iff.mp h
    exact ⟨s, ev, hstep, hy.symm⟩
  · rintro ⟨s, ev, hstep, rfl⟩
    simp only [Step.next, hstep, Option.map_some]

/-- **`Run step x visited y`** — a run from `x` to `y`; `visited` pairs every configuration it left
with the action taken there, oldest first. -/
inductive Run (step : Step σ α ε) (x : Config σ ε) :
    List (Config σ ε × α) → Config σ ε → Prop
  | start : Run step x [] x
  | snoc {visited : List (Config σ ε × α)} {y z : Config σ ε} {a : α} :
      Run step x visited y → step.next y a = some z → Run step x (visited ++ [(y, a)]) z

/-- `G` holds of every step in the list. -/
def Throughout (G : Config σ ε → α → Prop) (visited : List (Config σ ε × α)) : Prop :=
  ∀ p ∈ visited, G p.1 p.2

instance (G : Config σ ε → α → Prop) [∀ x a, Decidable (G x a)]
    (visited : List (Config σ ε × α)) : Decidable (Throughout G visited) :=
  inferInstanceAs (Decidable (∀ p ∈ visited, G p.1 p.2))

@[simp] theorem throughout_nil {G : Config σ ε → α → Prop} : Throughout G [] := by
  intro p hp
  exact absurd hp List.not_mem_nil

@[simp] theorem throughout_snoc {G : Config σ ε → α → Prop}
    {visited : List (Config σ ε × α)} {y : Config σ ε} {a : α} :
    Throughout G (visited ++ [(y, a)]) ↔ Throughout G visited ∧ G y a := by
  simp only [Throughout, List.mem_append, List.mem_singleton]
  constructor
  · intro h
    exact ⟨fun p hp => h p (Or.inl hp), h (y, a) (Or.inr rfl)⟩
  · rintro ⟨hall, hlast⟩ p (hp | rfl)
    · exact hall p hp
    · exact hlast

namespace Run

variable {step : Step σ α ε} {x y z : Config σ ε} {visited later : List (Config σ ε × α)}

/-- **The invariant rule.** -/
theorem invariant (I : Config σ ε → Prop) (G : Config σ ε → α → Prop)
    (hkeep : ∀ {y z : Config σ ε} {a : α}, I y → G y a → step.next y a = some z → I z)
    (hrun : Run step x visited y) (hG : Throughout G visited) (hx : I x) : I y := by
  induction hrun with
  | start => exact hx
  | snoc _ hnext ih =>
      rw [throughout_snoc] at hG
      exact hkeep (ih hG.1) hG.2 hnext

/-- The invariant rule for a property every step keeps. -/
theorem invariant' (I : Config σ ε → Prop)
    (hkeep : ∀ {y z : Config σ ε} {a : α}, I y → step.next y a = some z → I z)
    (hrun : Run step x visited y) (hx : I x) : I y :=
  hrun.invariant I (fun _ _ => True) (fun hy _ hnext => hkeep hy hnext)
    (fun _ _ => trivial) hx

/-- The rule for a property kept by the steps from where an invariant already holds. -/
theorem invariant_under {I : Config σ ε → Prop}
    (hkeep : ∀ {y z : Config σ ε} {a : α}, I y → step.next y a = some z → I z)
    (P : Config σ ε → Prop)
    (hkeepP : ∀ {y z : Config σ ε} {a : α}, I y → P y → step.next y a = some z → P z)
    (hrun : Run step x visited y) (hx : I x) (hPx : P x) : P y := by
  have hboth : I y ∧ P y := by
    apply hrun.invariant' (fun y => I y ∧ P y) ?_ ⟨hx, hPx⟩
    rintro y z a ⟨hy, hPy⟩ hnext
    exact ⟨hkeep hy hnext, hkeepP hy hPy hnext⟩
  exact hboth.2

/-- The rule for a property of the state alone. -/
theorem invariant_state (J : σ → Prop)
    (hkeep : ∀ {s s' : σ} {a : α} {ev : List ε}, J s → step s a = some (s', ev) → J s')
    (hrun : Run step x visited y) (hx : J x.state) : J y.state := by
  apply hrun.invariant' (fun y => J y.state) ?_ hx
  intro y z a hy hnext
  obtain ⟨s, ev, hstep, rfl⟩ := Step.next_eq_some.mp hnext
  exact hkeep hy hstep

/-- **Two step properties with the same good runs.** Wherever `I` holds, an enabled action has `P`
exactly when it has `C`, and actions with `C` keep `I`. -/
theorem forall_iff (I : Config σ ε → Prop) (P C : Config σ ε → α → Prop)
    (hkeep : ∀ {y z : Config σ ε} {a : α}, I y → C y a → step.next y a = some z → I z)
    (hiff : ∀ {y z : Config σ ε} {a : α}, I y → step.next y a = some z → (P y a ↔ C y a))
    (hrun : Run step x visited y) (hx : I x) :
    Throughout P visited ↔ Throughout C visited := by
  induction hrun with
  | start => simp only [throughout_nil]
  | @snoc visited y z a hinit hnext ih =>
      rw [throughout_snoc, throughout_snoc, ih]
      apply and_congr_right
      intro hC
      exact hiff (hinit.invariant I C hkeep hC hx) hnext

/-- **What the good steps of a run have**, from where the invariant holds that they keep. -/
theorem throughout (I : Config σ ε → Prop) (G P : Config σ ε → α → Prop)
    (hkeep : ∀ {y z : Config σ ε} {a : α}, I y → G y a → step.next y a = some z → I z)
    (hstep : ∀ {y z : Config σ ε} {a : α}, I y → G y a → step.next y a = some z → P y a)
    (hrun : Run step x visited y) (hG : Throughout G visited) (hx : I x) : Throughout P visited := by
  induction hrun with
  | start => exact throughout_nil
  | @snoc visited y z a hinit hnext ih =>
      obtain ⟨hbefore, hlast⟩ := throughout_snoc.mp hG
      exact throughout_snoc.mpr ⟨ih hbefore, hstep (hinit.invariant I G hkeep hbefore hx) hlast hnext⟩

/-- A run reaches every configuration it leaves. -/
theorem reaches (hrun : Run step x visited y) {p : Config σ ε × α} (hp : p ∈ visited) :
    ∃ before, Run step x before p.1 := by
  induction hrun with
  | start => exact absurd hp List.not_mem_nil
  | @snoc visited y z a hinit hnext ih =>
      rcases List.mem_append.mp hp with hold | hlast
      · exact ih hold
      · obtain rfl := List.mem_singleton.mp hlast
        exact ⟨visited, hinit⟩

/-- The history only grows. -/
theorem exists_since (hrun : Run step x visited y) : ∃ since, y.history = x.history ++ since := by
  induction hrun with
  | start => exact ⟨[], (List.append_nil _).symm⟩
  | snoc _ hnext ih =>
      obtain ⟨since, hsince⟩ := ih
      obtain ⟨s, evs, -, rfl⟩ := Step.next_eq_some.mp hnext
      exact ⟨since ++ evs, by rw [hsince, List.append_assoc]⟩

/-- **What is due stays due until it is met.** When every step, from where the invariant holds, keeps an
obligation due or meets it, and what is met stays met, the obligation is due or met at the end of every run. -/
theorem due_or_met (I : Config σ ε → Prop) (G : Config σ ε → α → Prop)
    (hkeep : ∀ {y z : Config σ ε} {a : α}, I y → G y a → step.next y a = some z → I z)
    (due : List ε → σ → Prop) (met : List ε → Prop)
    (hmet : ∀ since evs, met since → met (since ++ evs))
    (hdue : ∀ y a s evs since, I y → step y.state a = some (s, evs) → due since y.state →
      due (since ++ evs) s ∨ met (since ++ evs))
    (hrun : Run step x visited y) (hG : Throughout G visited) (hx : I x) (hstart : due [] x.state)
    {since : List ε} (hsince : y.history = x.history ++ since) : due since y.state ∨ met since := by
  induction hrun generalizing since with
  | start =>
      obtain rfl : since = [] := List.append_cancel_left (hsince.symm.trans (List.append_nil _).symm)
      exact Or.inl hstart
  | snoc hinit hnext ih =>
      rw [throughout_snoc] at hG
      obtain ⟨earlier, hearlier⟩ := hinit.exists_since
      have hI := hinit.invariant I G hkeep hG.1 hx
      obtain ⟨s, evs, hstep, rfl⟩ := Step.next_eq_some.mp hnext
      obtain rfl : since = earlier ++ evs := by
        apply List.append_cancel_left (hsince.symm.trans _)
        rw [hearlier, List.append_assoc]
      rcases ih hG.1 hearlier with hstill | hdone
      · exact hdue _ _ s evs earlier hI hstep hstill
      · exact Or.inr (hmet earlier evs hdone)

/-- Runs compose. -/
theorem trans (hfirst : Run step x visited y) (hsecond : Run step y later z) :
    Run step x (visited ++ later) z := by
  induction hsecond with
  | start => simpa using hfirst
  | snoc _ hnext ih =>
      rw [← List.append_assoc]
      exact ih.snoc hnext

end Run

/-! ## Executing a list of actions -/

/-- Take the listed actions one after the other; `none` if one of them is not enabled. -/
def exec (step : Step σ α ε) : Config σ ε → List α → Option (Config σ ε)
  | x, [] => some x
  | x, a :: as =>
    match step.next x a with
    | none => none
    | some y => exec step y as

/-- The configurations these actions are taken in, each with its action. -/
def trace (step : Step σ α ε) : Config σ ε → List α → List (Config σ ε × α)
  | _, [] => []
  | x, a :: as =>
    (x, a) ::
      match step.next x a with
      | none => []
      | some y => trace step y as

theorem run_trace {step : Step σ α ε} {as : List α} {x y : Config σ ε}
    (h : exec step x as = some y) : Run step x (trace step x as) y := by
  induction as generalizing x with
  | nil =>
      obtain rfl : x = y := Option.some.inj h
      exact .start
  | cons a as ih =>
      simp only [exec] at h
      simp only [trace]
      cases hnext : step.next x a with
      | none => simp [hnext] at h
      | some z =>
          rw [hnext] at h
          have hfirst : Run step x ([] ++ [(x, a)]) z := Run.start.snoc hnext
          exact hfirst.trans (ih h)

theorem actions_trace {step : Step σ α ε} {as : List α} {x y : Config σ ε}
    (h : exec step x as = some y) : (trace step x as).map Prod.snd = as := by
  induction as generalizing x with
  | nil => rfl
  | cons a as ih =>
      simp only [exec] at h
      simp only [trace]
      cases hnext : step.next x a with
      | none => simp [hnext] at h
      | some z =>
          rw [hnext] at h
          rw [List.map_cons, ih h]

/-- Executing a list of actions gives a run that takes exactly these actions. -/
theorem run_of_exec {step : Step σ α ε} {as : List α} {x y : Config σ ε}
    (h : exec step x as = some y) :
    ∃ visited, Run step x visited y ∧ visited.map Prod.snd = as :=
  ⟨trace step x as, run_trace h, actions_trace h⟩

/-- Executing a list of actions and one more. -/
theorem run_of_exec_snoc {step : Step σ α ε} {as : List α} {a : α} {x y z : Config σ ε}
    (h : exec step x as = some y) (hnext : step.next y a = some z) :
    ∃ visited, Run step x (visited ++ [(y, a)]) z ∧ visited.map Prod.snd = as := by
  obtain ⟨visited, hrun, hacts⟩ := run_of_exec h
  exact ⟨visited, hrun.snoc hnext, hacts⟩

end PartialSystem
