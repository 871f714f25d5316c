/-
# Sekkeizu.Semantics.Totals — sums over the entries of a finite map.

`total f m` adds up a weight of every entry. The weight of an absent key is zero, so a map operation at
one key changes the total by the difference of two weights at that key, whether the key was there or not:
the rules are stated with both weights on the side where they are added, which needs no subtraction and
holds in every commutative monoid (numbers of things, multisets of things).
-/
import Sekkeizu.Semantics.Tables
import Mathlib.Algebra.BigOperators.Group.Finset.Basic
import Mathlib.Algebra.Order.BigOperators.Group.Finset

namespace Finmap

variable {κ ν M : Type*} [DecidableEq κ] [AddCommMonoid M]

/-- The weight of the entry at a key; zero when there is none. -/
def weight (f : κ → ν → M) (m : Finmap fun _ : κ => ν) (k : κ) : M := (lookup k m).elim 0 (f k)

/-- The sum of the weights of all entries. -/
def total (f : κ → ν → M) (m : Finmap fun _ : κ => ν) : M := ∑ k ∈ m.keys, weight f m k

theorem weight_of_lookup {f : κ → ν → M} {m : Finmap fun _ : κ => ν} {k : κ} {v : ν}
    (h : lookup k m = some v) : weight f m k = f k v := by
  rw [weight, h, Option.elim_some]

theorem weight_of_notMem {f : κ → ν → M} {m : Finmap fun _ : κ => ν} {k : κ} (h : k ∉ m) :
    weight f m k = 0 := by
  rw [weight, lookup_eq_none.mpr h, Option.elim_none]

/-- Keys that are absent may be summed over as well. -/
theorem total_eq_sum (f : κ → ν → M) {m : Finmap fun _ : κ => ν} {s : Finset κ} (h : m.keys ⊆ s) :
    total f m = ∑ k ∈ s, weight f m k := by
  apply Finset.sum_subset h
  intro k _ hk
  exact weight_of_notMem (mt mem_keys.mpr hk)

/-- The total is determined by the weights. -/
theorem total_congr {ω : Type*} {f : κ → ν → M} {g : κ → ω → M} {m : Finmap fun _ : κ => ν}
    {m' : Finmap fun _ : κ => ω} (h : ∀ k, weight g m' k = weight f m k) : total g m' = total f m := by
  have hm' : m'.keys ⊆ m'.keys ∪ m.keys := Finset.subset_union_left
  have hm : m.keys ⊆ m'.keys ∪ m.keys := Finset.subset_union_right
  rw [total_eq_sum g hm', total_eq_sum f hm]
  exact Finset.sum_congr rfl fun k _ => h k

/-- **Two maps that differ at one key.** -/
theorem total_add_weight (f : κ → ν → M) {m m' : Finmap fun _ : κ => ν} (k : κ)
    (h : ∀ j, j ≠ k → lookup j m' = lookup j m) :
    total f m' + weight f m k = total f m + weight f m' k := by
  -- a set of keys that covers both maps, and the key itself
  obtain ⟨s, hmem, hm, hm'⟩ : ∃ s : Finset κ, k ∈ s ∧ m.keys ⊆ s ∧ m'.keys ⊆ s := by
    refine ⟨{k} ∪ (m.keys ∪ m'.keys), by simp, ?_, ?_⟩
    · exact Finset.subset_union_left.trans Finset.subset_union_right
    · exact Finset.subset_union_right.trans Finset.subset_union_right
  have hrest : ∑ j ∈ s.erase k, weight f m' j = ∑ j ∈ s.erase k, weight f m j := by
    apply Finset.sum_congr rfl
    intro j hj
    rw [weight, weight, h j (Finset.ne_of_mem_erase hj)]
  rw [total_eq_sum f hm, total_eq_sum f hm', ← Finset.add_sum_erase _ _ hmem,
    ← Finset.add_sum_erase _ _ hmem, hrest, add_comm (weight f m' k), add_comm (weight f m k)]
  exact add_right_comm _ _ _

theorem total_insert (f : κ → ν → M) (k : κ) (v : ν) (m : Finmap fun _ : κ => ν) :
    total f (insert k v m) + weight f m k = total f m + f k v := by
  rw [total_add_weight f k fun j hj => lookup_insert_of_ne m hj, weight_of_lookup (lookup_insert m)]

section Numbers

variable {f : κ → ν → ℕ} {m m' : Finmap fun _ : κ => ν}

theorem total_le (h : ∀ k, weight f m' k ≤ weight f m k) : total f m' ≤ total f m := by
  rw [total_eq_sum f (m := m') (s := m'.keys ∪ m.keys) Finset.subset_union_left,
    total_eq_sum f (m := m) (s := m'.keys ∪ m.keys) Finset.subset_union_right]
  exact Finset.sum_le_sum fun k _ => h k

/-- No weight rises and one falls. -/
theorem total_lt (h : ∀ k, weight f m' k ≤ weight f m k) {k : κ} (hk : weight f m' k < weight f m k) :
    total f m' < total f m := by
  have hmem : k ∈ m'.keys ∪ m.keys := by
    apply Finset.mem_union_right
    by_contra hnot
    rw [weight_of_notMem (mt mem_keys.mpr hnot)] at hk
    exact Nat.not_lt_zero _ hk
  rw [total_eq_sum f (m := m') (s := m'.keys ∪ m.keys) Finset.subset_union_left,
    total_eq_sum f (m := m) (s := m'.keys ∪ m.keys) Finset.subset_union_right]
  exact Finset.sum_lt_sum (fun k _ => h k) ⟨k, hmem, hk⟩

theorem total_eq_zero_iff : total f m = 0 ↔ ∀ k v, lookup k m = some v → f k v = 0 := by
  rw [total, Finset.sum_eq_zero_iff]
  constructor
  · intro h k v hlookup
    rw [← weight_of_lookup (f := f) hlookup]
    exact h k (mem_keys.mpr (mem_of_lookup_eq_some hlookup))
  · intro h k hk
    obtain ⟨v, hv⟩ := mem_iff.mp (mem_keys.mp hk)
    rw [weight_of_lookup hv]
    exact h k v hv

end Numbers

end Finmap
