/-
# Sekkeizu.Semantics.Lives — the lives of a member that comes and goes.

A member of a changing family may be made more than once under one name. Its log is a list of events with a
mark at each beginning, and `lives` cuts it there: one list of events for each life, the last one first.

Nothing here names a particular system.
-/
import Mathlib.Data.List.Basic
import Mathlib.Tactic.Common

namespace PartialSystem

variable {ε : Type*}

/-- One more mark or event. What comes before the first beginning belongs to no life. -/
def addToLives (lives : List (List ε)) : Option ε → List (List ε)
  | none => [] :: lives
  | some ev =>
    match lives with
    | [] => []
    | life :: past => (life ++ [ev]) :: past

/-- The lives in a log where `none` marks a beginning, the last life first. -/
def lives (log : List (Option ε)) : List (List ε) :=
  log.foldl addToLives []

@[simp] theorem lives_nil : lives ([] : List (Option ε)) = [] := rfl

/-- A beginning starts a life without events. -/
theorem lives_begin (log : List (Option ε)) : lives (log ++ [none]) = [] :: lives log := by
  rw [lives, List.foldl_append]
  rfl

/-- Events belong to the last life. -/
theorem lives_events {log : List (Option ε)} {life : List ε} {past : List (List ε)}
    (h : lives log = life :: past) (evs : List ε) :
    lives (log ++ evs.map some) = (life ++ evs) :: past := by
  induction evs generalizing log life with
  | nil => simpa using h
  | cons ev evs ih =>
      have hone : lives (log ++ [some ev]) = (life ++ [ev]) :: past := by
        rw [lives, List.foldl_append, ← lives, h]
        rfl
      have hrest := ih hone
      simpa only [List.append_assoc, List.singleton_append, List.map_cons] using hrest

end PartialSystem
