/-
# Sekkeizu.Semantics.Intervals — a log cut at the events that open and close it.

Two kinds of events number the parts of a log: the `k`-th interval lies between the `k`-th opening
event and the `k`-th closing one. Consecutive intervals may overlap, because an opening event is free to
come before the closing event of the interval before. What a log yields (`out`) is `Covered` when every
event that yields something happens while exactly one interval is open; then nothing is yielded twice or
outside the intervals, and the whole yield is that of the intervals one after the other
(`Covered.flatMap_eq`).

Nothing here names a particular system.
-/
import Mathlib.Data.List.Nodup
import Mathlib.Data.List.Pairwise
import Mathlib.Tactic.Common

namespace Intervals

variable {ε β : Type*} (starts ends : ε → Bool)

/-- The events of the `k`-th interval, after `opened` opening and `closed` closing events. -/
def intervalFrom (k : Nat) : (opened closed : Nat) → List ε → List ε
  | _, _, [] => []
  | opened, closed, ev :: l =>
    (if k < opened ∧ closed ≤ k then [ev] else []) ++
      intervalFrom k (opened + (starts ev).toNat) (closed + (ends ev).toNat) l

/-- The events after the `k`-th opening event, up to the `k`-th closing event. -/
def interval (k : Nat) (l : List ε) : List ε := intervalFrom starts ends k 0 0 l

variable {starts ends}

theorem intervalFrom_append (k opened closed : Nat) (l m : List ε) :
    intervalFrom starts ends k opened closed (l ++ m) =
      intervalFrom starts ends k opened closed l ++
        intervalFrom starts ends k (opened + l.countP starts) (closed + l.countP ends) m := by
  induction l generalizing opened closed with
  | nil => rfl
  | cons ev l ih =>
      have hcount : ∀ (p : ε → Bool) (n : Nat),
          n + (p ev).toNat + l.countP p = n + (ev :: l).countP p := by
        intro p n
        rw [List.countP_cons]
        cases p ev with
        | false => rfl
        | true => exact Nat.add_right_comm n 1 (l.countP p)
      rw [List.cons_append, intervalFrom, ih, intervalFrom, hcount, hcount, List.append_assoc]

theorem interval_append (k : Nat) (l m : List ε) :
    interval starts ends k (l ++ m) =
      interval starts ends k l ++
        intervalFrom starts ends k (l.countP starts) (l.countP ends) m := by
  rw [interval, intervalFrom_append, Nat.zero_add, Nat.zero_add, interval]

theorem interval_concat (k : Nat) (l : List ε) (ev : ε) :
    interval starts ends k (l ++ [ev]) =
      interval starts ends k l ++
        if k < l.countP starts ∧ l.countP ends ≤ k then [ev] else [] := by
  rw [interval_append, intervalFrom, intervalFrom, List.append_nil]

theorem mem_of_mem_intervalFrom {k opened closed : Nat} {l : List ε} {ev : ε}
    (h : ev ∈ intervalFrom starts ends k opened closed l) : ev ∈ l := by
  induction l generalizing opened closed with
  | nil => exact h
  | cons ev' l ih =>
      rw [intervalFrom, List.mem_append] at h
      rcases h with hhead | htail
      · split_ifs at hhead
        · exact List.mem_cons.mpr (Or.inl (List.mem_singleton.mp hhead))
        · exact absurd hhead List.not_mem_nil
      · exact List.mem_cons_of_mem ev' (ih htail)

/-! ## What the intervals yield -/

variable {out : ε → List β}

/-- Events that yield nothing add nothing to any interval. -/
theorem interval_flatMap_silent (k : Nat) (l : List ε) {m : List ε}
    (hsilent : ∀ ev ∈ m, out ev = []) :
    (interval starts ends k (l ++ m)).flatMap out = (interval starts ends k l).flatMap out := by
  rw [interval_append, List.flatMap_append, List.append_right_eq_self, List.flatMap_eq_nil_iff]
  exact fun ev hev => hsilent ev (mem_of_mem_intervalFrom hev)

/-- While one interval is open, an event belongs to that one. -/
theorem interval_flatMap_inside (k : Nat) {l : List ε}
    (hopen : l.countP starts = l.countP ends + 1) (ev : ε) :
    (interval starts ends k (l ++ [ev])).flatMap out =
      (interval starts ends k l).flatMap out ++ if k = l.countP ends then out ev else [] := by
  have hiff : (k < l.countP starts ∧ l.countP ends ≤ k) ↔ k = l.countP ends := by omega
  rw [interval_concat, List.flatMap_append]
  simp only [hiff]
  split_ifs
  · rw [List.flatMap_singleton]
  · rw [List.flatMap_nil]

variable (starts ends out)

/-- **Every event that yields something happens while exactly one interval is open.** -/
inductive Covered : List ε → Prop
  | nil : Covered []
  | silent {l m : List ε} (h : Covered l) (hsilent : ∀ ev ∈ m, out ev = []) : Covered (l ++ m)
  | inside {l : List ε} (h : Covered l) (hopen : l.countP starts = l.countP ends + 1) (ev : ε) :
      Covered (l ++ [ev])

variable {starts ends out} {l : List ε}

/-- An interval after the open one has yielded nothing. -/
theorem Covered.later_eq_nil (h : Covered starts ends out l) {k : Nat} (hk : l.countP ends < k) :
    (interval starts ends k l).flatMap out = [] := by
  induction h with
  | nil => rfl
  | @silent l m _ hsilent ih =>
      rw [List.countP_append] at hk
      rw [interval_flatMap_silent k l hsilent]
      exact ih (by omega)
  | @inside l _ hopen ev ih =>
      rw [List.countP_append] at hk
      rw [interval_flatMap_inside k hopen, if_neg (by omega), List.append_nil]
      exact ih (by omega)

theorem range_flatMap_of_later {f : Nat → List β} {s n : Nat} (hn : s ≤ n)
    (hlater : ∀ k, s ≤ k → f k = []) : (List.range n).flatMap f = (List.range s).flatMap f := by
  obtain ⟨d, rfl⟩ := Nat.exists_eq_add_of_le hn
  rw [List.range_add, List.flatMap_append, List.append_right_eq_self, List.flatMap_eq_nil_iff]
  intro k hk
  obtain ⟨j, -, rfl⟩ := List.mem_map.mp hk
  exact hlater (s + j) (Nat.le_add_right s j)

/-- **The yield of the log is the yield of its intervals, in order.** -/
theorem Covered.flatMap_eq (h : Covered starts ends out l) {n : Nat} (hn : l.countP ends < n) :
    l.flatMap out = (List.range n).flatMap fun k => (interval starts ends k l).flatMap out := by
  induction h generalizing n with
  | nil => exact (List.flatMap_eq_nil_iff.mpr fun _ _ => rfl).symm
  | @silent l m _ hsilent ih =>
      rw [List.countP_append] at hn
      rw [List.flatMap_append, List.flatMap_eq_nil_iff.mpr hsilent, List.append_nil,
        ih (show l.countP ends < n by omega)]
      simp only [interval_flatMap_silent _ l hsilent]
  | @inside l h hopen ev ih =>
      -- the new event goes to the last interval that has anything
      rw [List.countP_append] at hn
      have hlater : ∀ k, l.countP ends + 1 ≤ k →
          (interval starts ends k (l ++ [ev])).flatMap out = [] := by
        intro k hk
        rw [interval_flatMap_inside k hopen, h.later_eq_nil hk, if_neg (by omega), List.append_nil]
      rw [range_flatMap_of_later (show l.countP ends + 1 ≤ n by omega) hlater, List.range_succ,
        List.flatMap_append, List.flatMap_append, List.flatMap_singleton, List.flatMap_singleton,
        interval_flatMap_inside _ hopen, if_pos rfl, ← List.append_assoc,
        ih (Nat.lt_succ_self _), List.range_succ, List.flatMap_append, List.flatMap_singleton]
      congr 2
      apply List.flatMap_congr
      intro k hk
      rw [interval_flatMap_inside k hopen, if_neg (Nat.ne_of_lt (List.mem_range.mp hk)),
        List.append_nil]

/-- Values that occur once in the whole yield belong to one interval. -/
theorem Covered.interval_unique (h : Covered starts ends out l) (hnodup : (l.flatMap out).Nodup)
    {k j : Nat} {b : β} (hk : b ∈ (interval starts ends k l).flatMap out)
    (hj : b ∈ (interval starts ends j l).flatMap out) : k = j := by
  have hbound : ∀ {i}, b ∈ (interval starts ends i l).flatMap out → i < l.countP ends + 1 := by
    intro i hi
    by_contra hlater
    rw [h.later_eq_nil (by omega)] at hi
    exact absurd hi List.not_mem_nil
  rw [h.flatMap_eq (Nat.lt_succ_self _), List.nodup_flatMap] at hnodup
  by_contra hne
  have : Std.Symm (Function.onFun List.Disjoint fun k => (interval starts ends k l).flatMap out) :=
    ⟨fun _ _ hd _ hleft hright => hd hright hleft⟩
  have hdisjoint := hnodup.2.forall (List.mem_range.mpr (hbound hk)) (List.mem_range.mpr (hbound hj))
    hne
  exact hdisjoint hk hj

end Intervals
