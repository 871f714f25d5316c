/-
# Sekkeizu.Semantics.Lists — one position of a list, and lists laid out in order.

A pool of submitted jobs is a list; running one of them removes it by position. `split_of_getElem?`
exposes the two sides of that position, so that facts about the pool are facts about `++`. A row of cells is
a list too, and storing to one of them changes that position only.
-/
import Mathlib.Data.List.Basic
import Mathlib.Tactic.Common

namespace List

variable {α : Type*}

/-- The two sides of a position, before and after its element is removed. -/
theorem split_of_getElem? {l : List α} {k : Nat} {a : α} (h : l[k]? = some a) :
    ∃ l₁ l₂, l = l₁ ++ a :: l₂ ∧ l₁.length = k ∧ l.eraseIdx k = l₁ ++ l₂ := by
  induction l generalizing k with
  | nil => simp at h
  | cons b l ih =>
      cases k with
      | zero =>
          obtain rfl : b = a := by simpa using h
          exact ⟨[], l, rfl, rfl, rfl⟩
      | succ k =>
          obtain ⟨l₁, l₂, rfl, hlen, herase⟩ := ih (by simpa using h)
          exact ⟨b :: l₁, l₂, rfl, by simp [hlen], by simp [herase]⟩

/-- In a strictly increasing list every element of a left part is below every element to its right. -/
theorem Pairwise.lt_of_append {l₁ l₂ : List Nat} (h : (l₁ ++ l₂).Pairwise (· < ·)) {a b : Nat}
    (ha : a ∈ l₁) (hb : b ∈ l₂) : a < b :=
  (List.pairwise_append.mp h).2.2 a ha b hb

/-- What is written at a position of the list can be read back. -/
theorem set_inj_of_lt {l : List α} {k : Nat} (hk : k < l.length) {a b : α} :
    l.set k a = l.set k b ↔ a = b := by
  constructor
  · intro h
    have hread : (l.set k a)[k]? = (l.set k b)[k]? := congrArg (·[k]?) h
    rw [List.getElem?_set_self hk, List.getElem?_set_self hk] at hread
    exact Option.some.inj hread
  · rintro rfl
    rfl

end List
