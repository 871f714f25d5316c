/-
# Sekkeizu.Semantics.Ownership — things that are held, each by one holder and once.

`held` says what each of the holders has, as a multiset. `Owned` says that no thing is held twice, by two
holders or by one, and that only things already handed out are held. A step keeps this when it is one of
four moves: holders let things go (`Owned.mono`), one holder gets what the others no longer have
(`Owned.gather`), in particular from one other holder (`Owned.transfer`), or one holder gets a thing that
is handed out for the first time (`Owned.fresh`).

Nothing here names a particular system.
-/
import Mathlib.Data.Multiset.AddSub
import Mathlib.Data.Finset.Insert
import Mathlib.Tactic.Common

namespace Ownership

variable {H α : Type*}

/-- **Exclusive ownership**: what is held is held once, by one holder, and has been handed out. -/
structure Owned (allocated : Finset α) (held : H → Multiset α) : Prop where
  nodup : ∀ h, (held h).Nodup
  unique : ∀ {a h h'}, a ∈ held h → a ∈ held h' → h = h'
  allocated : ∀ {a h}, a ∈ held h → a ∈ allocated

namespace Owned

variable {allocated : Finset α} {held held' : H → Multiset α}

theorem mono (h : Owned allocated held) (hle : ∀ i, held' i ≤ held i) : Owned allocated held' where
  nodup := fun i => Multiset.nodup_of_le (hle i) (h.nodup i)
  unique := fun ha ha' => h.unique (Multiset.mem_of_le (hle _) ha) (Multiset.mem_of_le (hle _) ha')
  allocated := fun ha => h.allocated (Multiset.mem_of_le (hle _) ha)

/-- Nothing is held at the beginning. -/
theorem empty (hempty : ∀ i, held i = 0) : Owned allocated held where
  nodup := by
    intro i
    rw [hempty]
    exact Multiset.nodup_zero
  unique := by
    intro a i _ ha
    rw [hempty] at ha
    exact absurd ha (Multiset.notMem_zero a)
  allocated := by
    intro a i ha
    rw [hempty] at ha
    exact absurd ha (Multiset.notMem_zero a)

/-- **A holder gets** what the holders, as they are left, no longer have. -/
theorem gather (h : Owned allocated held) {allocated' : Finset α} {rest : H → Multiset α}
    (hrest : ∀ i, rest i ≤ held i) {t : H} {g : Multiset α} (hnodup : g.Nodup)
    (hleft : ∀ a ∈ g, ∀ i, a ∉ rest i) (hknown : ∀ a ∈ g, a ∈ allocated')
    (hgrows : allocated ⊆ allocated') (hto : held' t ≤ rest t + g)
    (hother : ∀ i, i ≠ t → held' i ≤ rest i) : Owned allocated' held' := by
  have hkept : Owned allocated rest := h.mono hrest
  -- what a holder has afterwards it had before, or it is among what the target got
  have hcases : ∀ {a i}, a ∈ held' i → a ∈ rest i ∨ (i = t ∧ a ∈ g) := by
    intro a i ha
    by_cases hi : i = t
    · subst hi
      rcases Multiset.mem_add.mp (Multiset.mem_of_le hto ha) with hold | hnew
      · exact Or.inl hold
      · exact Or.inr ⟨rfl, hnew⟩
    · exact Or.inl (Multiset.mem_of_le (hother i hi) ha)
  refine ⟨?_, ?_, ?_⟩
  · intro i
    by_cases hi : i = t
    · subst hi
      refine Multiset.nodup_of_le hto (Multiset.nodup_add.mpr ⟨hkept.nodup i, hnodup, ?_⟩)
      exact Multiset.disjoint_left.mpr fun hold hnew => hleft _ hnew i hold
    · exact Multiset.nodup_of_le (hother i hi) (hkept.nodup i)
  · intro a i i' ha ha'
    rcases hcases ha with hold | ⟨rfl, hnew⟩
    · rcases hcases ha' with hold' | ⟨-, hnew'⟩
      · exact hkept.unique hold hold'
      · exact absurd hold (hleft a hnew' i)
    · rcases hcases ha' with hold' | ⟨rfl, -⟩
      · exact absurd hold' (hleft a hnew i')
      · rfl
  · intro a i ha
    rcases hcases ha with hold | ⟨-, hnew⟩
    · exact hgrows (hkept.allocated hold)
    · exact hknown a hnew

/-- **A holder gives**, and another one gets what it gave. -/
theorem transfer (h : Owned allocated held) {s t : H} (hne : s ≠ t) {g : Multiset α}
    (hfrom : held' s + g ≤ held s) (hto : held' t ≤ held t + g)
    (hother : ∀ i, i ≠ s → i ≠ t → held' i ≤ held i) : Owned allocated held' := by
  classical
  have hgiven : g ≤ held s := (Multiset.le_add_left g (held' s)).trans hfrom
  have hsource : ∀ a ∈ g, a ∉ held' s := by
    intro a ha hkept
    have hboth := Multiset.nodup_of_le hfrom (h.nodup s)
    exact Multiset.disjoint_left.mp (Multiset.nodup_add.mp hboth).2.2 hkept ha
  have hrest : ∀ i, (if i = t then held t else held' i) ≤ held i := by
    intro i
    split_ifs with hi
    · rw [hi]
    · by_cases his : i = s
      · rw [his]
        exact (Multiset.le_add_right (held' s) g).trans hfrom
      · exact hother i his hi
  refine h.gather hrest (Multiset.nodup_of_le hgiven (h.nodup s)) ?_
    (fun a ha => h.allocated (Multiset.mem_of_le hgiven ha)) (Finset.Subset.refl _) (t := t) ?_ ?_
  · intro a ha i hin
    have hheld : a ∈ held s := Multiset.mem_of_le hgiven ha
    obtain rfl := h.unique (Multiset.mem_of_le (hrest i) hin) hheld
    rw [if_neg hne] at hin
    exact hsource a ha hin
  · rw [if_pos rfl]
    exact hto
  · intro i hi
    rw [if_neg hi]

/-- **A thing is handed out** for the first time. -/
theorem fresh [DecidableEq α] (h : Owned allocated held) {a : α} (ha : a ∉ allocated) {t : H}
    (hto : held' t ≤ held t + {a}) (hother : ∀ i, i ≠ t → held' i ≤ held i) :
    Owned (insert a allocated) held' := by
  refine h.gather (fun i => le_refl (held i)) (Multiset.nodup_singleton a) ?_ ?_
    (Finset.subset_insert a allocated) hto hother
  · intro a' ha' i hin
    rw [Multiset.mem_singleton.mp ha'] at hin
    exact ha (h.allocated hin)
  · intro a' ha'
    rw [Multiset.mem_singleton.mp ha']
    exact Finset.mem_insert_self a allocated

end Owned

end Ownership
