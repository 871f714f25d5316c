/-
# Sekkeizu.Semantics.Tables — in-place updates of finite maps.

`Finmap` is the specification of a hash table: `lookup`, `insert` and `erase`. Programs also update
the value behind a key through a reference. `modify` is that update (no effect when the key is
absent), `modifyAll` repeats it along a list of keys, and both are characterized by `lookup` alone,
so that a proof never looks at how entries are stored. `Enumerates` says that a list visits each key
of a map once: the iteration orders a hash table may choose.
-/
import Mathlib.Data.Finmap

namespace Finmap

variable {κ ν : Type*} [DecidableEq κ]

/-! ## Lookup after one operation, as a case distinction on the key -/

theorem lookup_insert_eq (k j : κ) (v : ν) (m : Finmap fun _ : κ => ν) :
    lookup j (insert k v m) = if j = k then some v else lookup j m := by
  by_cases h : j = k
  · subst h
    rw [if_pos rfl, lookup_insert]
  · rw [if_neg h, lookup_insert_of_ne m h]

theorem lookup_erase_eq (k j : κ) (m : Finmap fun _ : κ => ν) :
    lookup j (erase k m) = if j = k then none else lookup j m := by
  by_cases h : j = k
  · subst h
    rw [if_pos rfl, lookup_erase]
  · rw [if_neg h, lookup_erase_ne h]

theorem mem_iff_lookup_ne_none {k : κ} {m : Finmap fun _ : κ => ν} :
    k ∈ m ↔ lookup k m ≠ none := by
  rw [ne_eq, lookup_eq_none, not_not]

/-- `insert` that keeps an entry already there. -/
def emplace (k : κ) (v : ν) (m : Finmap fun _ : κ => ν) : Finmap fun _ : κ => ν :=
  if k ∈ m then m else insert k v m

theorem lookup_emplace (k j : κ) (v : ν) (m : Finmap fun _ : κ => ν) :
    lookup j (emplace k v m) = if j = k ∧ k ∉ m then some v else lookup j m := by
  unfold emplace
  by_cases hk : k ∈ m
  · simp [hk]
  · simp [hk, lookup_insert_eq]

/-- Emplacing before an insertion at the same key changes nothing. -/
theorem insert_emplace (k : κ) (v w : ν) (m : Finmap fun _ : κ => ν) :
    insert k w (emplace k v m) = insert k w m := by
  apply ext_lookup
  intro j
  rw [lookup_insert_eq, lookup_insert_eq, lookup_emplace]
  split_ifs with hjk hk
  · rfl
  · exact absurd hk.1 hjk
  · rfl

theorem erase_of_notMem {k : κ} {m : Finmap fun _ : κ => ν} (h : k ∉ m) : erase k m = m := by
  apply ext_lookup
  intro j
  rw [lookup_erase_eq]
  split_ifs with hjk
  · rw [hjk, lookup_eq_none.mpr h]
  · rfl

/-- Emplacing one value for every key of a list. -/
theorem lookup_foldl_emplace (ks : List κ) (j : κ) (v : ν) (m : Finmap fun _ : κ => ν) :
    lookup j (ks.foldl (fun m k => emplace k v m) m) =
      if j ∈ ks ∧ j ∉ m then some v else lookup j m := by
  induction ks generalizing m with
  | nil => simp
  | cons k ks ih =>
      rw [List.foldl_cons, ih, lookup_emplace]
      simp only [mem_iff_lookup_ne_none, lookup_emplace, List.mem_cons, not_not]
      by_cases hjk : j = k
      · subst hjk
        cases lookup j m <;> simp
      · simp [hjk]

/-! ## Updating through a reference -/

/-- Replace the value behind `k` by its image under `f`; nothing happens when `k` is absent. -/
def modify (f : ν → ν) (k : κ) (m : Finmap fun _ : κ => ν) : Finmap fun _ : κ => ν :=
  match lookup k m with
  | none => m
  | some v => insert k (f v) m

theorem lookup_modify (f : ν → ν) (k j : κ) (m : Finmap fun _ : κ => ν) :
    lookup j (modify f k m) = if j = k then (lookup j m).map f else lookup j m := by
  unfold modify
  cases hk : lookup k m with
  | none =>
      by_cases h : j = k
      · subst h
        simp [hk]
      · simp [h]
  | some v =>
      by_cases h : j = k
      · subst h
        simp [hk]
      · simp [lookup_insert_of_ne m h, h]

@[simp] theorem mem_modify {f : ν → ν} {k j : κ} {m : Finmap fun _ : κ => ν} :
    j ∈ modify f k m ↔ j ∈ m := by
  rw [mem_iff_lookup_ne_none, mem_iff_lookup_ne_none, lookup_modify]
  split
  · simp
  · rfl

/-- `modify` at every key of a list, from left to right. -/
def modifyAll (f : ν → ν) (ks : List κ) (m : Finmap fun _ : κ => ν) : Finmap fun _ : κ => ν :=
  ks.foldl (fun m k => modify f k m) m

@[simp] theorem modifyAll_nil (f : ν → ν) (m : Finmap fun _ : κ => ν) : modifyAll f [] m = m := rfl

@[simp] theorem modifyAll_cons (f : ν → ν) (k : κ) (ks : List κ) (m : Finmap fun _ : κ => ν) :
    modifyAll f (k :: ks) m = modifyAll f ks (modify f k m) := rfl

/-- An idempotent update along a list reaches exactly the listed keys. -/
theorem lookup_modifyAll {f : ν → ν} (hf : ∀ v, f (f v) = f v) (ks : List κ) (j : κ)
    (m : Finmap fun _ : κ => ν) :
    lookup j (modifyAll f ks m) = if j ∈ ks then (lookup j m).map f else lookup j m := by
  induction ks generalizing m with
  | nil => simp
  | cons k ks ih =>
      rw [modifyAll_cons, ih, lookup_modify]
      by_cases hjk : j = k
      · subst hjk
        cases lookup j m <;> simp [hf]
      · simp [hjk]

@[simp] theorem mem_modifyAll {f : ν → ν} {ks : List κ} {j : κ} {m : Finmap fun _ : κ => ν} :
    j ∈ modifyAll f ks m ↔ j ∈ m := by
  induction ks generalizing m with
  | nil => rfl
  | cons k ks ih => rw [modifyAll_cons, ih, mem_modify]

/-! ## Updating every entry -/

/-- Replace every value by its image; the loop `for (auto& [key, value] : map)` whose body touches
nothing but its own entry. -/
def mapVals {ω : Type*} (f : κ → ν → ω) (m : Finmap fun _ : κ => ν) : Finmap fun _ : κ => ω where
  entries := m.entries.map (Sigma.map id f)
  nodupKeys := by
    obtain ⟨entries, hnodup⟩ := m
    induction entries using Quotient.inductionOn with
    | _ l => exact List.NodupKeys.map₂ f l hnodup

@[simp] theorem lookup_mapVals {ω : Type*} (f : κ → ν → ω) (k : κ) (m : Finmap fun _ : κ => ν) :
    lookup k (mapVals f m) = (lookup k m).map (f k) := by
  induction m using Finmap.induction_on with
  | _ m => exact List.dlookup_map₂ k

@[simp] theorem mem_mapVals {ω : Type*} {f : κ → ν → ω} {k : κ} {m : Finmap fun _ : κ => ν} :
    k ∈ mapVals f m ↔ k ∈ m := by
  rw [mem_iff_lookup_ne_none, mem_iff_lookup_ne_none, lookup_mapVals]
  simp

@[simp] theorem keys_mapVals {ω : Type*} (f : κ → ν → ω) (m : Finmap fun _ : κ => ν) :
    (mapVals f m).keys = m.keys := by
  ext k
  rw [mem_keys, mem_keys, mem_mapVals]

section MapAll

variable {ω : Type*} (f : ν → ω) (k : κ) (v : ν) (m : Finmap fun _ : κ => ν)

theorem mapVals_insert :
    mapVals (fun _ => f) (insert k v m) = insert k (f v) (mapVals (fun _ => f) m) := by
  apply ext_lookup
  intro j
  rw [lookup_mapVals, lookup_insert_eq, lookup_insert_eq, lookup_mapVals]
  split_ifs <;> rfl

theorem mapVals_erase : mapVals (fun _ => f) (erase k m) = erase k (mapVals (fun _ => f) m) := by
  apply ext_lookup
  intro j
  rw [lookup_mapVals, lookup_erase_eq, lookup_erase_eq, lookup_mapVals]
  split_ifs <;> rfl

theorem mapVals_emplace :
    mapVals (fun _ => f) (emplace k v m) = emplace k (f v) (mapVals (fun _ => f) m) := by
  unfold emplace
  simp only [mem_mapVals]
  split_ifs
  · rfl
  · exact mapVals_insert f k v m

theorem mapVals_foldl_emplace (ks : List κ) :
    mapVals (fun _ => f) (ks.foldl (fun m k => emplace k v m) m) =
      ks.foldl (fun m k => emplace k (f v) m) (mapVals (fun _ => f) m) := by
  induction ks generalizing m with
  | nil => rfl
  | cons k ks ih => rw [List.foldl_cons, List.foldl_cons, ih, mapVals_emplace]

end MapAll

/-! ## Iteration orders -/

/-- The list visits every key of the map, each once. -/
def Enumerates (order : List κ) (m : Finmap fun _ : κ => ν) : Prop :=
  order.Nodup ∧ order.toFinset = m.keys

instance (order : List κ) (m : Finmap fun _ : κ => ν) : Decidable (Enumerates order m) :=
  inferInstanceAs (Decidable (_ ∧ _))

theorem Enumerates.nodup {order : List κ} {m : Finmap fun _ : κ => ν} (h : Enumerates order m) :
    order.Nodup := h.1

theorem Enumerates.mem_iff {order : List κ} {m : Finmap fun _ : κ => ν} (h : Enumerates order m)
    {k : κ} : k ∈ order ↔ k ∈ m := by
  rw [← List.mem_toFinset, h.2, mem_keys]

/-- An iteration order is one for every map with these keys. -/
theorem Enumerates.congr {ω : Type*} {order : List κ} {m : Finmap fun _ : κ => ν}
    {m' : Finmap fun _ : κ => ω} (h : Enumerates order m) (hmem : ∀ k, k ∈ m' ↔ k ∈ m) :
    Enumerates order m' := by
  refine ⟨h.nodup, Finset.ext fun k => ?_⟩
  rw [List.mem_toFinset, mem_keys, h.mem_iff, hmem]

end Finmap
