/-
# Sekkeizu.Semantics.Selections — changing the elements a test selects, all of them or the first.

A store that keeps its items in a list offers each change in two forms: to the first item a test selects,
or to every item it selects. The two forms agree exactly when the items selected after the first
(`laterMatches`) would not be changed: for a removal, when there are none.

The last part is about programs that are lists of steps: two interpreters give the same state after every
initial part of a program exactly when they agree on each step, in the states of one of them.
-/
import Mathlib.Data.List.Induction
import Mathlib.Tactic.Common

namespace Selection

variable {α σ : Type*}

/-! ## One match or all matches -/

section Matches

variable (p : α → Bool) (f : α → α)

/-- Update every selected item. -/
def updateAll (l : List α) : List α := l.map fun a => if p a then f a else a

/-- Update the first selected item. -/
def updateOne (l : List α) : List α := l.replaceF fun a => if p a then some (f a) else none

/-- Remove every selected item. -/
def removeAll (l : List α) : List α := l.filter fun a => !p a

/-- Remove the first selected item. -/
def removeOne (l : List α) : List α := l.eraseP p

/-- The selected items after the first one. -/
def laterMatches (l : List α) : List α := (l.filter p).tail

variable {p f}

theorem updateAll_eq_self_iff {l : List α} :
    updateAll p f l = l ↔ ∀ a ∈ l.filter p, f a = a := by
  induction l with
  | nil => simp [updateAll]
  | cons a l ih =>
      rw [updateAll] at ih ⊢
      cases hp : p a with
      | true => simp [hp, ih, List.filter_cons_of_pos]
      | false => simp [hp, ih, List.filter_cons_of_neg]

theorem removeAll_eq_self_iff {l : List α} : removeAll p l = l ↔ l.filter p = [] := by
  rw [removeAll, List.filter_eq_self, List.filter_eq_nil_iff]
  simp only [Bool.not_eq_true', Bool.not_eq_true]

/-- **Updating one is updating all** when the later matches are not changed by it. -/
theorem updateAll_eq_updateOne_iff {l : List α} :
    updateAll p f l = updateOne p f l ↔ ∀ a ∈ laterMatches p l, f a = a := by
  induction l with
  | nil => simp [updateAll, updateOne, laterMatches]
  | cons a l ih =>
      cases hp : p a with
      | true =>
          -- the first match: both update it, and only `updateAll` goes on
          have hhead : updateAll p f (a :: l) = f a :: updateAll p f l := by simp [updateAll, hp]
          have hone : updateOne p f (a :: l) = f a :: l := by simp [updateOne, hp]
          rw [hhead, hone, List.cons_inj_right, updateAll_eq_self_iff, laterMatches,
            List.filter_cons_of_pos hp, List.tail_cons]
      | false =>
          have hhead : updateAll p f (a :: l) = a :: updateAll p f l := by simp [updateAll, hp]
          have hone : updateOne p f (a :: l) = a :: updateOne p f l := by simp [updateOne, hp]
          rw [hhead, hone, List.cons_inj_right, ih, laterMatches, laterMatches,
            List.filter_cons_of_neg (by simp [hp])]

/-- **Removing one is removing all** when there is at most one match. -/
theorem removeAll_eq_removeOne_iff {l : List α} :
    removeAll p l = removeOne p l ↔ laterMatches p l = [] := by
  induction l with
  | nil => simp [removeAll, removeOne, laterMatches]
  | cons a l ih =>
      cases hp : p a with
      | true =>
          have hhead : removeAll p (a :: l) = removeAll p l := by simp [removeAll, hp]
          have hone : removeOne p (a :: l) = l := by simp [removeOne, hp]
          rw [hhead, hone, removeAll_eq_self_iff, laterMatches, List.filter_cons_of_pos hp,
            List.tail_cons]
      | false =>
          have hhead : removeAll p (a :: l) = a :: removeAll p l := by simp [removeAll, hp]
          have hone : removeOne p (a :: l) = a :: removeOne p l := by simp [removeOne, hp]
          rw [hhead, hone, List.cons_inj_right, ih, laterMatches, laterMatches,
            List.filter_cons_of_neg (by simp [hp])]

end Matches

/-! ## Two interpreters of one program -/

/-- **Agreement on every initial part is agreement on every step.** -/
theorem foldl_agree_iff {f g : σ → α → σ} {s : σ} {l : List α} :
    (∀ p, p <+: l → p.foldl f s = p.foldl g s) ↔
      ∀ before a after, l = before ++ a :: after →
        f (before.foldl g s) a = g (before.foldl g s) a := by
  constructor
  · rintro h before a after rfl
    have hbefore := h before (List.prefix_append _ _)
    have hone := h (before ++ [a]) ⟨after, by simp⟩
    simpa only [List.foldl_append, List.foldl_cons, List.foldl_nil, hbefore] using hone
  · intro h p hp
    induction p using List.reverseRecOn with
    | nil => rfl
    | append_singleton p a ih =>
        obtain ⟨after, rfl⟩ := hp
        have hbefore := ih ⟨a :: after, by simp⟩
        rw [List.foldl_append, List.foldl_append, hbefore]
        exact h p a after (by simp)

end Selection
