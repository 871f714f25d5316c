/-
# Sekkeizu.Semantics.Scanner — the longest part of a list, from its head, that a partial automaton
reads.

A scan that walks a queue with a few flags and stops at the first element it may not take is a
partial automaton: the flags are its mode, and an element it refuses has no successor mode.
`consumed` is what such a scan takes and `finalMode` the mode it stops in. The point of the module is
the specification (`consumed_maximal`): nothing but the FIRST refusal decides where the scan stops. Where
the lists the automaton reads have a description of their own, the scan takes the longest part of the
list that fits the description (`isLongestPrefix_consumed`).
-/
import Mathlib.Data.List.Basic
import Mathlib.Tactic.Common

namespace Scanner

variable {μ α : Type*} (δ : μ → α → Option μ)

/-- What the automaton reads from the head of the list, up to the first element it refuses. -/
def consumed : μ → List α → List α
  | _, [] => []
  | m, a :: l =>
    match δ m a with
    | none => []
    | some m' => a :: consumed m' l

/-- The mode in which the automaton stops. -/
def finalMode : μ → List α → μ
  | m, [] => m
  | m, a :: l =>
    match δ m a with
    | none => m
    | some m' => finalMode m' l

/-- The automaton reads the whole list. -/
def Accepts : μ → List α → Prop
  | _, [] => True
  | m, a :: l => ∃ m', δ m a = some m' ∧ Accepts m' l

/-- `p` is the longest part of `l`, from its head, that has the property. -/
def IsLongestPrefix (P : List α → Prop) (l p : List α) : Prop :=
  p <+: l ∧ P p ∧ ∀ p', p' <+: l → P p' → p' <+: p

variable {δ}

@[simp] theorem consumed_nil (m : μ) : consumed δ m [] = [] := rfl

@[simp] theorem finalMode_nil (m : μ) : finalMode δ m [] = m := rfl

theorem consumed_refused {m : μ} {a : α} {l : List α} (h : δ m a = none) :
    consumed δ m (a :: l) = [] := by
  simp only [consumed, h]

theorem consumed_taken {m m' : μ} {a : α} {l : List α} (h : δ m a = some m') :
    consumed δ m (a :: l) = a :: consumed δ m' l := by
  simp only [consumed, h]

theorem finalMode_refused {m : μ} {a : α} {l : List α} (h : δ m a = none) :
    finalMode δ m (a :: l) = m := by
  simp only [finalMode, h]

theorem finalMode_taken {m m' : μ} {a : α} {l : List α} (h : δ m a = some m') :
    finalMode δ m (a :: l) = finalMode δ m' l := by
  simp only [finalMode, h]

/-- The scan takes elements from the head, in order, without a gap. -/
theorem consumed_isPrefix (m : μ) (l : List α) : consumed δ m l <+: l := by
  induction l generalizing m with
  | nil => exact List.prefix_rfl
  | cons a l ih =>
      cases h : δ m a with
      | none =>
          rw [consumed_refused h]
          exact ⟨a :: l, rfl⟩
      | some m' =>
          rw [consumed_taken h]
          exact List.cons_prefix_cons.mpr ⟨rfl, ih m'⟩

theorem consumed_eq_take (m : μ) (l : List α) :
    consumed δ m l = l.take (consumed δ m l).length :=
  List.prefix_iff_eq_take.mp (consumed_isPrefix m l)

theorem consumed_length_le (m : μ) (l : List α) : (consumed δ m l).length ≤ l.length :=
  (consumed_isPrefix m l).length_le

theorem accepts_consumed (m : μ) (l : List α) : Accepts δ m (consumed δ m l) := by
  induction l generalizing m with
  | nil => trivial
  | cons a l ih =>
      cases h : δ m a with
      | none =>
          rw [consumed_refused h]
          trivial
      | some m' =>
          rw [consumed_taken h]
          exact ⟨m', h, ih m'⟩

/-- **Maximality.** Every initial part of the list the automaton reads is among what it consumed. -/
theorem consumed_maximal {m : μ} {l p : List α} (hp : p <+: l) (hacc : Accepts δ m p) :
    p <+: consumed δ m l := by
  induction p generalizing m l with
  | nil => exact ⟨_, rfl⟩
  | cons a p ih =>
      obtain ⟨m', hstep, htail⟩ := hacc
      obtain ⟨rest, rfl⟩ := hp
      rw [List.cons_append, consumed_taken hstep]
      exact List.cons_prefix_cons.mpr ⟨rfl, ih ⟨rest, rfl⟩ htail⟩

/-- **The scan is what its automaton reads**: where that has a description, the longest part that fits
it. -/
theorem isLongestPrefix_consumed {P : List α → Prop} {m : μ} {l : List α}
    (hP : ∀ p, p <+: l → (Accepts δ m p ↔ P p)) : IsLongestPrefix P l (consumed δ m l) := by
  have hpart : consumed δ m l <+: l := consumed_isPrefix m l
  refine ⟨hpart, (hP _ hpart).mp (accepts_consumed m l), ?_⟩
  intro p hp hPp
  exact consumed_maximal hp ((hP p hp).mpr hPp)

/-- The scan stops in the mode in which it has read what it took. -/
theorem finalMode_consumed (m : μ) (l : List α) : finalMode δ m (consumed δ m l) = finalMode δ m l := by
  induction l generalizing m with
  | nil => rfl
  | cons a l ih =>
      cases h : δ m a with
      | none => rw [consumed_refused h, finalMode_nil, finalMode_refused h]
      | some m' => rw [consumed_taken h, finalMode_taken h, finalMode_taken h, ih]

/-- A part that leaves the mode alone is passed over. -/
theorem consumed_append_of_stays {m : μ} {l₁ : List α} (h : ∀ a ∈ l₁, δ m a = some m)
    (l₂ : List α) : consumed δ m (l₁ ++ l₂) = l₁ ++ consumed δ m l₂ := by
  induction l₁ with
  | nil => rfl
  | cons a l₁ ih =>
      have htail := ih fun b hb => h b (List.mem_cons_of_mem a hb)
      rw [List.cons_append, consumed_taken (h a List.mem_cons_self), htail, List.cons_append]

/-- What every taken element satisfies. -/
theorem forall_mem_consumed {P : α → Prop} (hP : ∀ {m m' a}, δ m a = some m' → P a)
    (m : μ) (l : List α) : ∀ a ∈ consumed δ m l, P a := by
  induction l generalizing m with
  | nil =>
      intro a ha
      exact absurd ha List.not_mem_nil
  | cons b l ih =>
      cases h : δ m b with
      | none =>
          rw [consumed_refused h]
          intro a ha
          exact absurd ha List.not_mem_nil
      | some m' =>
          rw [consumed_taken h]
          intro a ha
          rcases List.mem_cons.mp ha with rfl | ha
          · exact hP h
          · exact ih m' a ha

end Scanner
