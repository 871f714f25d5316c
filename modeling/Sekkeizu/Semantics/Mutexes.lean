/-
# Sekkeizu.Semantics.Mutexes — parties that lock mutexes, and why one of them can go on.

`owner` says who has a mutex, `held` what a party has locked by where it stands in its code. `Exclusive`
says that the two agree, and with it that no two parties hold one mutex. A step of a party keeps this when
it locks a free mutex (`Exclusive.lock`), unlocks one it holds (`Exclusive.unlock`), or leaves the mutexes
alone (`Exclusive.congr`).

A party that stands before a mutex waits for its owner. Where a rank falls along every such wait, the waits
have no cycle, and some party can go on (`Exclusive.exists_enabled`). The rank may depend on where the
parties stand, so the mutexes need no fixed order.

Nothing here names a particular system.
-/
import Mathlib.Data.Set.Insert
import Mathlib.Logic.Function.Basic
import Mathlib.Tactic.Common

namespace Mutexes

variable {mutex party : Type*}

/-- **The owner of a mutex is the party that holds it.** -/
def Exclusive (owner : mutex → Option party) (held : party → Set mutex) : Prop :=
  ∀ m p, owner m = some p ↔ m ∈ held p

variable {owner : mutex → Option party} {held held' : party → Set mutex}

namespace Exclusive

/-- No mutex is held by two parties. -/
theorem unique (h : Exclusive owner held) {m : mutex} {p q : party} (hp : m ∈ held p)
    (hq : m ∈ held q) : p = q := by
  have howner : owner m = some p := (h m p).mpr hp
  rw [(h m q).mpr hq] at howner
  exact (Option.some.inj howner).symm

/-- A step that locks and unlocks nothing. -/
theorem congr (h : Exclusive owner held) (hsame : ∀ p, held' p = held p) : Exclusive owner held' := by
  intro m p
  rw [hsame]
  exact h m p

variable [DecidableEq mutex]

/-- One mutex changes hands, the holders of the others stay. -/
theorem reassign (h : Exclusive owner held) {m : mutex} {next : Option party}
    (hothers : ∀ q n, n ≠ m → (n ∈ held' q ↔ n ∈ held q)) (hnew : ∀ q, next = some q ↔ m ∈ held' q) :
    Exclusive (Function.update owner m next) held' := by
  intro n q
  by_cases hn : n = m
  · subst hn
    rw [Function.update_self]
    exact hnew q
  · rw [Function.update_of_ne hn, hothers q n hn]
    exact h n q

/-- **A party locks** a mutex that is free. -/
theorem lock (h : Exclusive owner held) {p : party} {m : mutex} (hfree : owner m = none)
    (hself : held' p = insert m (held p)) (hothers : ∀ q ≠ p, held' q = held q) :
    Exclusive (Function.update owner m (some p)) held' := by
  apply h.reassign
  · intro q n hn
    by_cases hq : q = p
    · subst hq
      rw [hself, Set.mem_insert_iff, or_iff_right hn]
    · rw [hothers q hq]
  · intro q
    constructor
    · intro heq
      obtain rfl := Option.some.inj heq
      rw [hself]
      exact Set.mem_insert m _
    · intro hq
      by_contra hne
      have hqp : q ≠ p := fun heq => hne (congrArg some heq.symm)
      rw [hothers q hqp] at hq
      have howner : owner m = some q := (h m q).mpr hq
      rw [hfree] at howner
      exact absurd howner (by simp)

/-- **A party unlocks** a mutex it holds. -/
theorem unlock (h : Exclusive owner held) {p : party} {m : mutex} (hheld : m ∈ held p)
    (hself : held' p = held p \ {m}) (hothers : ∀ q ≠ p, held' q = held q) :
    Exclusive (Function.update owner m none) held' := by
  apply h.reassign
  · intro q n hn
    by_cases hq : q = p
    · subst hq
      rw [hself, Set.mem_sdiff, Set.mem_singleton_iff, and_iff_left hn]
    · rw [hothers q hq]
  · intro q
    have hno : m ∉ held' q := by
      intro hq
      by_cases hqp : q = p
      · subst hqp
        rw [hself] at hq
        exact hq.2 rfl
      · rw [hothers q hqp] at hq
        exact hqp (h.unique hq hheld)
    simp [hno]

end Exclusive

/-! ## Waiting -/

variable {Unfinished Enabled : party → Prop}

/-- **Waits that fall end.** If every unfinished party can go on or waits for one of smaller rank, and one
party is unfinished, then some party can go on. -/
theorem exists_enabled (rank : party → Nat)
    (hwaits : ∀ p, Unfinished p → Enabled p ∨ ∃ q, Unfinished q ∧ rank q < rank p) {p : party}
    (hp : Unfinished p) : ∃ q, Unfinished q ∧ Enabled q := by
  -- on the rank of the party
  induction hrank : rank p using Nat.strongRecOn generalizing p with
  | ind n ih =>
      rcases hwaits p hp with henabled | ⟨q, hq, hlt⟩
      · exact ⟨p, hp, henabled⟩
      · exact ih (rank q) (hrank ▸ hlt) hq rfl

/-- **No deadlock** where the rank falls from a party that stands before a mutex to one that holds it,
and to one it waits for otherwise. -/
theorem Exclusive.exists_enabled (h : Exclusive owner held) (rank : party → Nat)
    {before : party → Option mutex}
    (hwaits : ∀ p, Unfinished p →
      Enabled p ∨ (∃ m, before p = some m ∧ owner m ≠ none) ∨ ∃ q, Unfinished q ∧ rank q < rank p)
    (hfalls : ∀ {p q m}, before p = some m → m ∈ held q → Unfinished q ∧ rank q < rank p) {p : party}
    (hp : Unfinished p) : ∃ q, Unfinished q ∧ Enabled q := by
  apply Mutexes.exists_enabled rank _ hp
  intro p hp
  rcases hwaits p hp with henabled | ⟨m, hbefore, hlocked⟩ | hother
  · exact .inl henabled
  · obtain ⟨q, hq⟩ := Option.ne_none_iff_exists'.mp hlocked
    exact .inr ⟨q, hfalls hbefore ((h m q).mp hq)⟩
  · exact .inr hother

end Mutexes
