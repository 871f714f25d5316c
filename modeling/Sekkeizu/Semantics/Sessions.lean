/-
# Sekkeizu.Semantics.Sessions — logs made of sessions.

A log over three marks is in order when it is an initial part of `(opens uses* closes)*`. Being in order
is decided by one bit, whether a session is open (`isOpen`): `InOrder` says so for either value of the bit, and the
three rules say which mark may come next.

Nothing here names a particular system.
-/
import Mathlib.Data.List.Basic
import Mathlib.Tactic.Common

namespace Sessions

inductive Mark where
  | opens
  | uses
  | closes
  deriving DecidableEq, Repr

/-- Whether a session is open at the end of a log. -/
def isOpen (l : List Mark) : Bool :=
  l.foldl (fun o mark => match mark with
    | .opens => true
    | .uses => o
    | .closes => false) false

@[simp] theorem isOpen_opens (l : List Mark) : isOpen (l ++ [.opens]) = true := by
  rw [isOpen, List.foldl_append]
  rfl

@[simp] theorem isOpen_uses (l : List Mark) : isOpen (l ++ [.uses]) = isOpen l := by
  rw [isOpen, List.foldl_append]
  rfl

@[simp] theorem isOpen_closes (l : List Mark) : isOpen (l ++ [.closes]) = false := by
  rw [isOpen, List.foldl_append]
  rfl

/-- A complete session with this many uses. -/
def session (uses : Nat) : List Mark :=
  .opens :: (List.replicate uses .uses ++ [.closes])

/-- **A log in order**, with a session open at its end or not. -/
def InOrder : (isOpen : Bool) → List Mark → Prop
  | false, l => ∃ ks : List Nat, l = ks.flatMap session
  | true, l => ∃ (ks : List Nat) (k : Nat),
      l = ks.flatMap session ++ .opens :: List.replicate k .uses

theorem inOrder_nil : InOrder false [] := ⟨[], rfl⟩

variable {l : List Mark}

theorem InOrder.opens (h : InOrder false l) : InOrder true (l ++ [.opens]) := by
  obtain ⟨ks, rfl⟩ := h
  exact ⟨ks, 0, rfl⟩

theorem InOrder.uses (h : InOrder true l) : InOrder true (l ++ [.uses]) := by
  obtain ⟨ks, k, rfl⟩ := h
  refine ⟨ks, k + 1, ?_⟩
  rw [List.append_assoc, List.cons_append, List.replicate_succ']

theorem InOrder.closes (h : InOrder true l) : InOrder false (l ++ [.closes]) := by
  obtain ⟨ks, k, rfl⟩ := h
  refine ⟨ks ++ [k], ?_⟩
  rw [List.flatMap_append, List.flatMap_singleton, session, List.append_assoc, List.cons_append]

/-- A log in order is an initial part of complete sessions. -/
theorem InOrder.isPrefix {isOpen : Bool} (h : InOrder isOpen l) :
    ∃ ks : List Nat, l <+: ks.flatMap session := by
  cases isOpen with
  | false =>
      obtain ⟨ks, rfl⟩ := h
      exact ⟨ks, List.prefix_rfl⟩
  | true =>
      obtain ⟨ks, hks⟩ := h.closes
      exact ⟨ks, hks ▸ List.prefix_append _ _⟩

end Sessions
