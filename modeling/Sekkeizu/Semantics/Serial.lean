/-
# Sekkeizu.Semantics.Serial — a state as the outcome of operations performed one after another.

Several parties change one state. A serial account of the state is a list of the operations performed, each
once, that leads from the start to it, and that keeps an order required between them: whatever must come
before an operation is in the list before it (`Respects`). `Serial.extend` is the step rule.

A serial account need not be unique, but the state is: two accounts of the same operations that respect the
same order lead to the same state, if operations that the order leaves free commute (`Serial.unique`). States
are compared up to any equivalence that the operations respect.

Nothing here names a particular system.
-/
import Mathlib.Data.List.Basic
import Mathlib.Data.List.Perm.Basic
import Mathlib.Data.List.Induction
import Mathlib.Data.List.Nodup
import Mathlib.Tactic.Common

namespace PartialSystem

variable {ω σ : Type*}

/-- The state after these operations. -/
def replay (effect : ω → σ → σ) (start : σ) (log : List ω) : σ :=
  log.foldl (fun s o => effect o s) start

/-- Whatever must come before an operation of the list is in the list before it. -/
def Respects (before : ω → ω → Prop) (log : List ω) : Prop :=
  ∀ earlier o later, log = earlier ++ o :: later → ∀ p, before p o → p ∈ earlier

/-- **A serial account of a state.** -/
structure Serial (effect : ω → σ → σ) (before : ω → ω → Prop) (performed : ω → Prop) (start : σ)
    (log : List ω) (s : σ) : Prop where
  state_eq : s = replay effect start log
  nodup : log.Nodup
  mem_iff : ∀ o, o ∈ log ↔ performed o
  respects : Respects before log

/-! ## Replaying -/

@[simp] theorem replay_nil (effect : ω → σ → σ) (start : σ) : replay effect start [] = start := rfl

@[simp] theorem replay_cons (effect : ω → σ → σ) (start : σ) (o : ω) (log : List ω) :
    replay effect start (o :: log) = replay effect (effect o start) log := rfl

theorem replay_append (effect : ω → σ → σ) (start : σ) (log ops : List ω) :
    replay effect start (log ++ ops) = replay effect (replay effect start log) ops :=
  List.foldl_append

theorem replay_congr {effect effect' : ω → σ → σ} {log : List ω}
    (h : ∀ o ∈ log, effect' o = effect o) (start : σ) :
    replay effect' start log = replay effect start log := by
  induction log generalizing start with
  | nil => rfl
  | cons o log ih =>
      rw [List.forall_mem_cons] at h
      rw [replay_cons, replay_cons, h.1]
      exact ih h.2 _

section Equivalence

variable {effect : ω → σ → σ} {r : σ → σ → Prop}

/-- Equivalent states stay equivalent under operations that respect the equivalence. -/
theorem replay_rel {log : List ω} (hrespects : ∀ o ∈ log, ∀ s t, r s t → r (effect o s) (effect o t))
    {s t : σ} (h : r s t) : r (replay effect s log) (replay effect t log) := by
  induction log generalizing s t with
  | nil => exact h
  | cons o log ih =>
      rw [List.forall_mem_cons] at hrespects
      exact ih hrespects.2 (hrespects.1 s t h)

/-- An operation that commutes with all of a list can be performed after it. -/
theorem replay_comm (hr : Equivalence r) {a : ω} {log : List ω}
    (hrespects : ∀ o ∈ log, ∀ s t, r s t → r (effect o s) (effect o t))
    (hcomm : ∀ b ∈ log, ∀ s, r (effect a (effect b s)) (effect b (effect a s))) (start : σ) :
    r (replay effect (effect a start) log) (effect a (replay effect start log)) := by
  induction log generalizing start with
  | nil => exact hr.refl _
  | cons b log ih =>
      rw [List.forall_mem_cons] at hrespects hcomm
      -- `a` and `b` change places, and then `a` moves on
      have hswap := replay_rel hrespects.2 (hr.symm (hcomm.1 start))
      exact hr.trans hswap (ih hrespects.2 hcomm.2 _)

end Equivalence

/-! ## Keeping an order -/

theorem respects_nil (before : ω → ω → Prop) : Respects before [] := by
  intro earlier o later h
  simp at h

/-- An order that asks no more of the operations of the list. -/
theorem Respects.mono {before before' : ω → ω → Prop} {log : List ω} (h : Respects before log)
    (hle : ∀ o ∈ log, ∀ p, before' p o → before p o) : Respects before' log := by
  intro earlier o later heq p hp
  refine h earlier o later heq p (hle o ?_ p hp)
  rw [heq]
  exact List.mem_append_right _ List.mem_cons_self

/-- Operations are added behind the list when what must come before each of them is in the list, or is
added before it. -/
theorem Respects.append {before : ω → ω → Prop} {log ops : List ω} (h : Respects before log)
    (hops : ∀ earlier o later, ops = earlier ++ o :: later → ∀ p, before p o → p ∈ log ++ earlier) :
    Respects before (log ++ ops) := by
  intro earlier o later heq p hp
  rcases List.append_eq_append_iff.mp heq with ⟨rest, rfl, hrest⟩ | ⟨rest, rfl, hrest⟩
  · exact hops rest o later hrest p hp
  · cases rest with
    | nil =>
        have hmem := hops [] o later (by simpa using hrest.symm) p hp
        simpa using hmem
    | cons o' rest =>
        obtain ⟨rfl, rfl⟩ := List.cons_eq_cons.mp hrest
        exact h earlier o rest rfl p hp

/-- Of two operations in the list, the later one did not have to come before the earlier one. -/
theorem Respects.pairwise {before : ω → ω → Prop} {log : List ω} (h : Respects before log)
    (hnodup : log.Nodup) : log.Pairwise fun a b => ¬ before b a := by
  induction log using List.reverseRecOn with
  | nil => exact List.Pairwise.nil
  | append_singleton log o ih =>
      have hinit : Respects before log := fun earlier a later heq p hp =>
        h earlier a (later ++ [o]) (by simp [heq]) p hp
      have hlast : o ∉ log := by
        rw [List.nodup_append] at hnodup
        exact fun hmem => hnodup.2.2 o hmem o (List.mem_singleton_self o) rfl
      refine List.pairwise_append.mpr
        ⟨ih hinit (hnodup.sublist (List.sublist_append_left _ _)), List.pairwise_singleton _ _, ?_⟩
      intro a ha b hb hba
      obtain rfl := List.mem_singleton.mp hb
      obtain ⟨earlier, later, rfl⟩ := List.append_of_mem ha
      have hmem := hinit earlier a later rfl b hba
      exact hlast (List.mem_append_left _ hmem)

/-! ## Accounts -/

namespace Serial

variable {effect effect' : ω → σ → σ} {before before' : ω → ω → Prop}
variable {performed performed' : ω → Prop} {start s s' : σ} {log log' : List ω}

theorem empty (hnone : ∀ o, ¬ performed o) : Serial effect before performed start [] start where
  state_eq := rfl
  nodup := List.nodup_nil
  mem_iff := fun o => iff_of_false List.not_mem_nil (hnone o)
  respects := respects_nil before

/-- **The step rule**: further operations are performed, in an order that is kept, and what was performed
before keeps its effect and gets no new predecessors. -/
theorem extend (h : Serial effect before performed start log s) {ops : List ω}
    (hops : ops.Nodup) (hnew : ∀ o ∈ ops, ¬ performed o)
    (hperformed : ∀ o, performed' o ↔ performed o ∨ o ∈ ops)
    (heffect : ∀ o, performed o → effect' o = effect o)
    (hbefore : ∀ o, performed o → ∀ p, before' p o → before p o)
    (horder : ∀ earlier o later, ops = earlier ++ o :: later → ∀ p, before' p o →
      performed p ∨ p ∈ earlier) :
    Serial effect' before' performed' start (log ++ ops) (replay effect' s ops) where
  state_eq := by
    rw [replay_append, replay_congr (fun o ho => heffect o ((h.mem_iff o).mp ho)), ← h.state_eq]
  nodup := by
    refine List.nodup_append.mpr ⟨h.nodup, hops, ?_⟩
    rintro o ho _ ho' rfl
    exact hnew o ho' ((h.mem_iff o).mp ho)
  mem_iff := by
    intro o
    rw [List.mem_append, h.mem_iff, hperformed]
  respects := by
    refine (h.respects.mono fun o ho => hbefore o ((h.mem_iff o).mp ho)).append ?_
    intro earlier o later heq p hp
    rw [List.mem_append, h.mem_iff]
    exact horder earlier o later heq p hp

section Uniqueness

variable {r : σ → σ → Prop}

/-- Two lists of the same operations that leave no pair in the wrong order lead to equivalent states, when
operations of free order commute. -/
theorem replay_rel_of_perm (hr : Equivalence r) {l l' : List ω} (hperm : l.Perm l')
    (hl : l.Pairwise fun a b => ¬ before b a) (hl' : l'.Pairwise fun a b => ¬ before b a)
    (hrespects : ∀ o ∈ l, ∀ s t, r s t → r (effect o s) (effect o t))
    (hcomm : ∀ a ∈ l, ∀ b ∈ l, a ≠ b → ¬ before a b → ¬ before b a →
      ∀ s, r (effect a (effect b s)) (effect b (effect a s))) (hnodup : l.Nodup) (start : σ) :
    r (replay effect start l) (replay effect start l') := by
  induction l generalizing l' start with
  | nil =>
      rw [hperm.nil_eq]
      exact hr.refl _
  | cons a l ih =>
      obtain ⟨ha, hl⟩ := List.pairwise_cons.mp hl
      obtain ⟨hnot, hnodup⟩ := List.nodup_cons.mp hnodup
      -- `a` can be moved to the front of the other list, past operations it commutes with
      obtain ⟨front, back, rfl⟩ := List.append_of_mem (hperm.mem_iff.mp List.mem_cons_self)
      have hrest : l.Perm (front ++ back) := (hperm.trans List.perm_middle).cons_inv
      have hfront : ∀ b ∈ front, b ∈ l := fun b hb =>
        hrest.mem_iff.mpr (List.mem_append_left _ hb)
      have hback : ∀ b ∈ back, b ∈ l := fun b hb =>
        hrest.mem_iff.mpr (List.mem_append_right _ hb)
      have hfree : ∀ b ∈ front, ∀ s, r (effect a (effect b s)) (effect b (effect a s)) := by
        intro b hb
        have hne : a ≠ b := by
          rintro rfl
          exact hnot (hfront _ hb)
        have hab := (List.pairwise_append.mp hl').2.2 b hb a List.mem_cons_self
        exact hcomm a List.mem_cons_self b (List.mem_cons_of_mem _ (hfront b hb)) hne hab
          (ha b (hfront b hb))
      have hmoved := replay_comm hr
        (fun b hb => hrespects b (List.mem_cons_of_mem _ (hfront b hb))) hfree start
      have hsub : (front ++ back).Sublist (front ++ a :: back) :=
        (List.sublist_cons_self a back).append_left front
      have htail : r (replay effect (effect a start) l) (replay effect (effect a start) (front ++ back)) :=
        ih hrest hl (hl'.sublist hsub) (fun b hb => hrespects b (List.mem_cons_of_mem _ hb))
          (fun b hb c hc => hcomm b (List.mem_cons_of_mem _ hb) c (List.mem_cons_of_mem _ hc)) hnodup _
      rw [replay_append] at htail
      rw [replay_cons, replay_append, replay_cons]
      exact hr.trans htail
        (replay_rel (fun b hb => hrespects b (List.mem_cons_of_mem _ (hback b hb))) hmoved)

/-- **The state is unique** when operations of free order commute. -/
theorem unique (hr : Equivalence r) (h : Serial effect before performed start log s)
    (h' : Serial effect before performed start log' s')
    (hrespects : ∀ o, performed o → ∀ s t, r s t → r (effect o s) (effect o t))
    (hcomm : ∀ a b, performed a → performed b → a ≠ b → ¬ before a b → ¬ before b a →
      ∀ s, r (effect a (effect b s)) (effect b (effect a s))) : r s s' := by
  have hperm : log.Perm log' := by
    rw [List.perm_ext_iff_of_nodup h.nodup h'.nodup]
    intro o
    rw [h.mem_iff, h'.mem_iff]
  rw [h.state_eq, h'.state_eq]
  exact replay_rel_of_perm hr hperm (h.respects.pairwise h.nodup) (h'.respects.pairwise h'.nodup)
    (fun o ho => hrespects o ((h.mem_iff o).mp ho))
    (fun a ha b hb => hcomm a b ((h.mem_iff a).mp ha) ((h.mem_iff b).mp hb)) h.nodup start

end Uniqueness

end Serial

end PartialSystem
