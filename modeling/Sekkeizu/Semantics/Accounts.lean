/-
# Sekkeizu.Semantics.Accounts — what a run takes in, keeps, hands on and loses.

An account puts a value on the state (`content`), on the events that bring something in and on those that
hand something on, and says what a step loses. When every step balances, the books of a run balance with
the losses of its steps added up (`Account.books`), and a run that has lost nothing is one none of whose
steps lost anything (`Account.settled_iff`).

Nothing here names a particular system.
-/
import Sekkeizu.Semantics.Lists
import Sekkeizu.Semantics.Runs
import Mathlib.Algebra.BigOperators.Group.Finset.Basic
import Mathlib.Algebra.Order.BigOperators.Group.List
import Mathlib.Data.Multiset.OrderedMonoid
import Mathlib.Tactic.Abel

namespace PartialSystem

variable {σ α ε M : Type*}

/-- The values of a state, of an event and of a step. -/
structure Account (σ α ε M : Type*) where
  content : σ → M
  income : ε → M
  expense : ε → M
  leak : σ → α → M

namespace Account

variable [AddCommMonoid M]

/-- A value summed over a log. -/
def total (f : ε → M) (l : List ε) : M := (l.map f).sum

@[simp] theorem total_append (f : ε → M) (l m : List ε) :
    total f (l ++ m) = total f l + total f m := by
  rw [total, List.map_append, List.sum_append, total, total]

@[simp] theorem total_nil (f : ε → M) : total f [] = 0 := rfl

@[simp] theorem total_singleton (f : ε → M) (ev : ε) : total f [ev] = f ev := by
  rw [total, List.map_singleton, List.sum_singleton]

theorem total_eq_zero {f : ε → M} {l : List ε} (h : ∀ ev ∈ l, f ev = 0) : total f l = 0 := by
  rw [total, List.map_congr_left h, List.map_const', List.sum_replicate, nsmul_zero]

/-- Replacing one element of a log. -/
theorem total_set {f : ε → M} {l : List ε} {k : Nat} {ev : ε} (h : l[k]? = some ev) (ev' : ε) :
    total f (l.set k ev') + f ev = total f l + f ev' := by
  obtain ⟨before, after, rfl, rfl, -⟩ := List.split_of_getElem? h
  rw [List.set_append_right _ _ (Nat.le_refl _), Nat.sub_self, List.set_cons_zero]
  simp only [total, List.map_append, List.map_cons, List.sum_append, List.sum_cons]
  abel

/-- Lists summed over a log, the order left aside. -/
theorem total_coe {β : Type*} (f : ε → List β) (l : List ε) :
    total (fun ev => (f ev : Multiset β)) l = (l.flatMap f : List β) := by
  induction l with
  | nil => rfl
  | cons ev l ih =>
      rw [List.flatMap_cons, ← Multiset.coe_add, ← ih]
      rfl

/-- A sum over a log of what a sum over the members of a finite type gives. -/
theorem total_sum {ι : Type*} [Fintype ι] (f : ι → ε → M) (l : List ε) :
    total (fun ev => ∑ i, f i ev) l = ∑ i, total (f i) l := by
  induction l with
  | nil => simp
  | cons ev l ih =>
      show ∑ i, f i ev + total (fun ev => ∑ i, f i ev) l = ∑ i, (f i ev + total (f i) l)
      rw [ih, Finset.sum_add_distrib]

/-- A sum over the events of a log that are observed. -/
theorem total_filterMap {ω : Type*} (view : ε → Option ω) (f : ω → M) (l : List ε) :
    total f (l.filterMap view) = total (fun ev => (view ev).elim 0 f) l := by
  induction l with
  | nil => rfl
  | cons ev l ih =>
      show _ = (view ev).elim 0 f + total (fun ev => (view ev).elim 0 f) l
      rw [← ih]
      cases hview : view ev with
      | none =>
          rw [List.filterMap_cons_none hview]
          exact (zero_add _).symm
      | some o =>
          rw [List.filterMap_cons_some hview]
          rfl

theorem mem_total {β : Type*} {f : ε → Multiset β} {l : List ε} {b : β} :
    b ∈ total f l ↔ ∃ ev ∈ l, b ∈ f ev := by
  induction l with
  | nil => simp
  | cons ev l ih =>
      rw [total, List.map_cons, List.sum_cons, Multiset.mem_add, List.exists_mem_cons_iff, ← ih]
      rfl

/-- **The step balances**: what was there and came in is there, was handed on, or is lost. -/
def Balances (acc : Account σ α ε M) (s : σ) (a : α) (s' : σ) (evs : List ε) : Prop :=
  acc.content s' + total acc.expense evs + acc.leak s a = acc.content s + total acc.income evs

/-- Everything that came in is there or was handed on. -/
def Settled (acc : Account σ α ε M) (x : Config σ ε) : Prop :=
  total acc.income x.history = acc.content x.state + total acc.expense x.history

/-- The losses of the steps of a run. -/
def losses (acc : Account σ α ε M) (visited : List (Config σ ε × α)) : M :=
  (visited.map fun p => acc.leak p.1.state p.2).sum

variable {acc : Account σ α ε M} {step : Step σ α ε}

/-- **The books of a run.** -/
theorem books (I : σ → Prop)
    (hkeep : ∀ {s s' a evs}, I s → step s a = some (s', evs) → I s')
    (hbalance : ∀ {s s' a evs}, I s → step s a = some (s', evs) → acc.Balances s a s' evs)
    {x y : Config σ ε} {visited : List (Config σ ε × α)} (hrun : Run step x visited y)
    (hx : I x.state) (hsettled : acc.Settled x) :
    total acc.income y.history =
      acc.content y.state + total acc.expense y.history + acc.losses visited := by
  have hinv : ∀ {visited y}, Run step x visited y → I y.state := by
    intro visited y hrun
    refine hrun.invariant' (fun y => I y.state) (fun hy hnext => ?_) hx
    obtain ⟨s', evs, hstep, rfl⟩ := Step.next_eq_some.mp hnext
    exact hkeep hy hstep
  induction hrun with
  | start =>
      rw [hsettled, losses, List.map_nil, List.sum_nil, add_zero]
  | @snoc visited y z a hinit hnext ih =>
      obtain ⟨s', evs, hstep, rfl⟩ := Step.next_eq_some.mp hnext
      have hstepped : acc.content s' + total acc.expense evs + acc.leak y.state a =
          acc.content y.state + total acc.income evs := hbalance (hinv hinit) hstep
      have hlosses : acc.losses (visited ++ [(y, a)]) = acc.losses visited + acc.leak y.state a := by
        rw [losses, List.map_append, List.sum_append, List.map_singleton, List.sum_singleton, losses]
      dsimp only
      rw [hlosses, total_append, total_append, ih]
      calc acc.content y.state + total acc.expense y.history + acc.losses visited +
            total acc.income evs
          = acc.content y.state + total acc.income evs +
              (total acc.expense y.history + acc.losses visited) := by abel
        _ = acc.content s' + total acc.expense evs + acc.leak y.state a +
              (total acc.expense y.history + acc.losses visited) := by rw [hstepped]
        _ = acc.content s' + (total acc.expense y.history + total acc.expense evs) +
              (acc.losses visited + acc.leak y.state a) := by abel

variable [PartialOrder M] [IsOrderedCancelAddMonoid M] [CanonicallyOrderedAdd M]

/-- **Nothing is lost in a run exactly when no step loses anything.** -/
theorem settled_iff (I : σ → Prop)
    (hkeep : ∀ {s s' a evs}, I s → step s a = some (s', evs) → I s')
    (hbalance : ∀ {s s' a evs}, I s → step s a = some (s', evs) → acc.Balances s a s' evs)
    {x y : Config σ ε} {visited : List (Config σ ε × α)} (hrun : Run step x visited y)
    (hx : I x.state) (hsettled : acc.Settled x) :
    acc.Settled y ↔ ∀ p ∈ visited, acc.leak p.1.state p.2 = 0 := by
  rw [Settled, books I hkeep hbalance hrun hx hsettled, add_eq_left, losses, List.sum_eq_zero_iff]
  exact List.forall_mem_map

end Account

end PartialSystem
