/-
# Sekkeizu.Semantics.Overrides — operations that write some components and leave the others.

A state is read component by component, and an operation is an override when what it does to each is settled
beforehand: the component gets a fixed value or keeps the one it has (`Overrides`). Overrides compose, the
later one winning. What an override forgets is exactly the components it writes (`Overrides.eq_iff`), and one
that comes again undoes what was written in between, but has no need of its first time (`Overrides.absorbs`):
of a log of overrides only the last time of each counts (`replay_dedup`).

Nothing here names a particular system.
-/
import Sekkeizu.Semantics.Serial
import Mathlib.Data.List.Dedup

namespace PartialSystem

variable {σ ι α ω : Type*} {get : σ → ι → α}

/-- **Every component gets the value written for it, or keeps its own.** -/
def Overrides (get : σ → ι → α) (f : σ → σ) (written : ι → Option α) : Prop :=
  ∀ s i, get (f s) i = (written i).getD (get s i)

theorem overrides_id : Overrides get id fun _ => none := fun _ _ => rfl

/-- The later one wins. -/
theorem Overrides.comp {f g : σ → σ} {written written' : ι → Option α} (hf : Overrides get f written)
    (hg : Overrides get g written') : Overrides get (g ∘ f) fun i => (written' i).or (written i) := by
  intro s i
  rw [Function.comp_apply, hg, hf]
  cases hi : written' i <;> simp [hi]

/-- A component of a replayed log: the last value written for it. -/
theorem overrides_replay {effect : ω → σ → σ} {written : ω → ι → Option α} {log : List ω}
    (h : ∀ o ∈ log, Overrides get (effect o) (written o)) :
    Overrides get (replay effect · log) fun i => log.reverse.findSome? fun o => written o i := by
  induction log with
  | nil => exact overrides_id
  | cons o log ih =>
      rw [List.forall_mem_cons] at h
      have hcomp := h.1.comp (ih h.2)
      have hwritten : (fun i => (o :: log).reverse.findSome? fun a => written a i) =
          fun i => (log.reverse.findSome? fun a => written a i).or (written o i) := by
        funext i
        rw [List.reverse_cons, List.findSome?_append]
        simp
      rw [hwritten]
      exact hcomp

section Extensional

variable {f : σ → σ} {written : ι → Option α} (hext : ∀ s t, (∀ i, get s i = get t i) → s = t)
include hext

/-- **What is forgotten** is what is written. -/
theorem Overrides.eq_iff (h : Overrides get f written) {s t : σ} :
    f s = f t ↔ ∀ i, written i = none → get s i = get t i := by
  constructor
  · intro heq i hkept
    have hi : get (f s) i = get (f t) i := by rw [heq]
    rwa [h, h, hkept] at hi
  · intro hkept
    apply hext
    intro i
    rw [h, h]
    cases hi : written i with
    | none => exact hkept i hi
    | some x => rfl

/-- **Coming again**, an override has no need of its first time. -/
theorem Overrides.absorbs (h : Overrides get f written) {g : σ → σ} {written' : ι → Option α}
    (hg : Overrides get g written') (s : σ) : f (g (f s)) = f (g s) := by
  rw [h.eq_iff hext]
  intro i hkept
  rw [hg, hg, h, hkept]
  rfl

/-- **Of a log of overrides only the last time of each counts.** -/
theorem replay_dedup [DecidableEq ω] {effect : ω → σ → σ} {written : ω → ι → Option α} {log : List ω}
    (h : ∀ o ∈ log, Overrides get (effect o) (written o)) (s : σ) :
    replay effect s log.dedup = replay effect s log := by
  induction log generalizing s with
  | nil => rfl
  | cons o log ih =>
      rw [List.forall_mem_cons] at h
      by_cases hmem : o ∈ log
      · -- the operation comes again after `earlier`
        obtain ⟨earlier, later, rfl⟩ := List.append_of_mem hmem
        rw [List.dedup_cons_of_mem hmem, ih h.2, replay_cons]
        have hearlier : Overrides get (replay effect · earlier)
            fun i => earlier.reverse.findSome? fun a => written a i :=
          overrides_replay fun a ha => h.2 a (List.mem_append_left _ ha)
        rw [replay_append, replay_append, replay_cons, replay_cons, h.1.absorbs hext hearlier]
      · rw [List.dedup_cons_of_notMem hmem, replay_cons, replay_cons, ih h.2]

end Extensional

end PartialSystem
