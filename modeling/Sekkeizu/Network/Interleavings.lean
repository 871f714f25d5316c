/-
# Sekkeizu.Network.Interleavings — the plugin in every interleaving of its parties.

By `simulation` a run of the sections follows every run of `PluginLocks` (`sections_are_atomic`), so what
holds in every run of the sections holds wherever the parties stand between their locks: the maps of a
thread know the same endpoints (`maps_agree`), and a client gets no buffer that was not submitted for it,
and none twice (`nothing_invented`).

The two runs agree on what is asked of the plugin, and on what it calls, each by itself. The order between
a request and a callback is not carried over: `new_client` may disconnect its client before the section
that creates it has taken effect.
-/
import Sekkeizu.Network.Atomicity
import Sekkeizu.Network.Conservation
import Mathlib.Algebra.BigOperators.Group.Finset.Piecewise
import Mathlib.Algebra.Order.BigOperators.Group.Finset
import Mathlib.Data.Fintype.Basic

namespace Sekkeizu

open PartialSystem
open Account (total total_coe total_sum total_filterMap total_eq_zero total_append)

variable {threads : Nat} {endpoint buffer : Type*} [DecidableEq endpoint]

/-! ## What a client is owed -/

/-- The buffer submitted for this endpoint. -/
def Observation.takenFrom (e : endpoint) : Observation threads endpoint buffer → List buffer
  | .submitted _ e' b => if e' = e then [b] else []
  | _ => []

/-- The buffers this endpoint's client got. -/
def Observation.handedTo (e : endpoint) : Observation threads endpoint buffer → List buffer
  | .clientInputs e' data => if e' = e then data else []
  | _ => []

/-- Buffers are asked about, and handed over in callbacks. -/
theorem Observation.takenFrom_eq_nil {e : endpoint} {o : Observation threads endpoint buffer}
    (h : o.side ≠ .requests) : o.takenFrom e = [] := by
  cases o with
  | submitted i e' b => exact absurd rfl h
  | _ => rfl

theorem Observation.handedTo_eq_nil {e : endpoint} {o : Observation threads endpoint buffer}
    (h : o.side ≠ .callbacks) : o.handedTo e = [] := by
  cases o with
  | clientInputs e' data => exact absurd rfl h
  | _ => rfl

/-- The threads share a vector out. -/
theorem sum_fromThread (data : List (Fin threads × buffer)) :
    ∑ i, (fromThread i data : Multiset buffer) = (data.map Prod.snd : List buffer) := by
  induction data with
  | nil => exact Finset.sum_eq_zero fun i _ => rfl
  | cons p data ih =>
      have hcons : ∀ i, (fromThread i (p :: data) : Multiset buffer) =
          (if p.1 = i then {p.2} else 0) + (fromThread i data : Multiset buffer) := by
        intro i
        by_cases hi : p.1 = i
        · simp [fromThread, hi]
        · simp [fromThread, hi]
      calc ∑ i, (fromThread i (p :: data) : Multiset buffer)
          = ∑ i, ((if p.1 = i then {p.2} else 0) + (fromThread i data : Multiset buffer)) :=
            Finset.sum_congr rfl fun i _ => hcons i
        _ = {p.2} + ∑ i, (fromThread i data : Multiset buffer) := by
            rw [Finset.sum_add_distrib, Finset.sum_ite_eq, if_pos (Finset.mem_univ p.1)]
        _ = ((p :: data).map Prod.snd : List buffer) := by
            rw [ih]
            rfl

/-- What a client got, thread by thread. -/
theorem sum_handed (e : endpoint) (ev : PluginEvent threads endpoint buffer) :
    ∑ i, (ev.handed i e : Multiset buffer) =
      ev.observation.elim 0 fun o => (o.handedTo e : Multiset buffer) := by
  cases ev with
  | clientInputs e' data =>
      show ∑ i, ((if e' = e then fromThread i data else [] : List buffer) : Multiset buffer) =
        ((if e' = e then data.map Prod.snd else [] : List buffer) : Multiset buffer)
      split_ifs with he
      · exact sum_fromThread data
      · exact Finset.sum_eq_zero fun i _ => rfl
  | _ => exact Finset.sum_eq_zero fun i _ => rfl

/-- What was submitted for a client, thread by thread. -/
theorem sum_taken (e : endpoint) (ev : PluginEvent threads endpoint buffer) :
    ∑ i, (ev.taken i e : Multiset buffer) =
      ev.observation.elim 0 fun o => (o.takenFrom e : Multiset buffer) := by
  cases ev with
  | submitted i' e' b =>
      show ∑ i, ((if i' = i ∧ e' = e then [b] else [] : List buffer) : Multiset buffer) =
        ((if e' = e then [b] else [] : List buffer) : Multiset buffer)
      by_cases he : e' = e
      · have hone : ∀ i, ((if i' = i ∧ e' = e then [b] else [] : List buffer) : Multiset buffer) =
            if i' = i then {b} else 0 := by
          intro i
          by_cases hi : i' = i
          · simp [hi, he]
          · simp [hi]
        rw [Finset.sum_congr rfl fun i _ => hone i, Finset.sum_ite_eq, if_pos (Finset.mem_univ i'),
          if_pos he]
        rfl
      · rw [if_neg he]
        apply Finset.sum_eq_zero
        intro i _
        rw [if_neg fun h => he h.2]
        rfl
  | _ => exact Finset.sum_eq_zero fun i _ => rfl

namespace CoreloopNetworkPlugin

/-- **No client gets more than was submitted for it**, in a run of the sections. -/
theorem handed_le_taken
    {visited : List (Config (CoreloopNetworkPlugin threads endpoint buffer)
      (PluginEvent threads endpoint buffer) × PluginAction threads endpoint buffer)}
    {x : Config (CoreloopNetworkPlugin threads endpoint buffer) (PluginEvent threads endpoint buffer)}
    (hrun : Run step CoreloopNetworkPlugin.start visited x) (e : endpoint) :
    total (fun o : Observation threads endpoint buffer => (o.handedTo e : Multiset buffer))
        (x.history.filterMap PluginEvent.observation) ≤
      total (fun o => (o.takenFrom e : Multiset buffer)) (x.history.filterMap PluginEvent.observation) := by
  have hthread : ∀ i, total (account i e).expense x.history ≤ total (account i e).income x.history := by
    intro i
    rw [Account.books Sections (fun h hstep => h.step hstep) (fun h hstep => balances h i e hstep) hrun
      sections_new (settled_start i e), add_assoc, add_left_comm]
    exact le_self_add
  have hsum := Finset.sum_le_sum fun i (_ : i ∈ Finset.univ) => hthread i
  rw [← total_sum, ← total_sum] at hsum
  rw [total_filterMap, total_filterMap]
  simpa only [account, sum_handed, sum_taken] using hsum

end CoreloopNetworkPlugin

namespace Stands

variable {point : TickPoint threads endpoint} {new : Finset endpoint} {unfinished : Multiset endpoint}
variable {data : Finmap fun _ : endpoint => List buffer} {stage : TickStage endpoint}
variable {data' : Finmap fun _ : endpoint => List (Fin threads × buffer)}
variable {owed : List (Observation threads endpoint buffer)}

/-- No buffer is owed. -/
theorem handedTo_owed (h : Stands point new unfinished data stage data' owed) {e : endpoint}
    {o : Observation threads endpoint buffer} (ho : o ∈ owed) : o.handedTo e = [] := by
  cases h with
  | between hstage => exact absurd ho List.not_mem_nil
  | clients created hpoint hnodup hnew hnot =>
      obtain ⟨e', -, rfl⟩ := List.mem_map.mp ho
      rfl
  | inputs todo left hpoint hleft hkeys => exact absurd ho List.not_mem_nil
  | answered e' =>
      obtain rfl := List.mem_singleton.mp ho
      rfl

/-- `tick` is giving the local mutexes back in both, or in neither. -/
theorem eq_unlockAll (h : Stands point new unfinished data stage data' owed) {j : Nat} {e : endpoint}
    {rest : List endpoint} (hstage : stage = .disconnecting (.unlock j) e rest) :
    point = .unlockAll j e rest := by
  cases h with
  | between hpoint =>
      rw [hstage] at hpoint
      unfold TickPoint.stage at hpoint
      split at hpoint <;> simp at hpoint ⊢
      exact hpoint
  | clients created hpoint hnodup hnew hnot => simp at hstage
  | inputs todo left hpoint hleft hkeys => simp at hstage
  | answered e' => simp at hstage

end Stands

namespace PluginLocks

variable {visited : List (Config (PluginLocks threads endpoint buffer) Empty ×
  LocksAction threads endpoint buffer)}
variable {x : Config (PluginLocks threads endpoint buffer) Empty}

/-! ## The runs -/

/-- A run of the sections follows. -/
theorem followed (hrun : Run PluginLocks.step PluginLocks.start visited x) :
    ∃ steps v owed, Run CoreloopNetworkPlugin.step CoreloopNetworkPlugin.start steps v ∧
      v.state.Sections ∧ RefinesOrAborted owed x.state v.state ∧
      Agree Observation.side (observed shows visited)
        (v.history.filterMap PluginEvent.observation ++ owed) :=
  simulation.run hrun (u := CoreloopNetworkPlugin.start) accounted_new CoreloopNetworkPlugin.sections_new
    (Or.inl refines_new)

/-- **The maps of a thread**, wherever the parties stand: both know the same endpoints, and these are
registered unless `tick` is giving the mutexes back after their disconnect. -/
theorem maps_agree (hrun : Run PluginLocks.step PluginLocks.start visited x)
    (hrunning : x.state.aborted = false) (i : Fin threads) (e : endpoint) :
    (e ∈ x.state.pendingInputs i ↔ e ∈ x.state.localEndpoints i) ∧
      (e ∈ x.state.localEndpoints i →
        e ∈ x.state.endpoints ∨ ∃ (j : Nat) (rest : List endpoint),
          x.state.tick = .unlockAll j e rest ∧ j ≤ i) := by
  obtain ⟨steps, v, owed, -, hsections, hrefines, -⟩ := followed hrun
  have hrefines : Refines owed x.state v.state :=
    hrefines.resolve_right fun hdown => by simp [hrunning] at hdown
  rw [← hrefines.pendingInputs, ← hrefines.localEndpoints, ← hrefines.endpoints]
  refine ⟨hsections.mem_iff i e, ?_⟩
  intro hknown
  apply (hsections.registered hknown).imp_right
  intro hclearing
  obtain ⟨j, rest, hstage, hj⟩ := TickStage.exists_of_clearing hclearing
  exact ⟨j, rest, hrefines.stands.eq_unlockAll hstage, hj⟩

/-- A packet is stored, its client is created, and `client_inputs` gets it. -/
def oneInput : List (LocksAction 1 Nat Nat) :=
  [.handleNetworkPacket (Fin.last 0) 7 100, .party (.packet 0) .goesOn, .party (.packet 0) .goesOn,
    .party (.packet 0) .goesOn, .party (.packet 0) .goesOn, .tick, .party .tick .goesOn,
    .party .tick .goesOn, .party .tick (.picks 7), .party .tick .goesOn, .party .tick .goesOn,
    .party .tick .goesOn, .party .tick .goesOn, .party .tick .goesOn, .party .tick .goesOn,
    .party .tick (.picks 7), .party (.input 0) .goesOn]

/-- **Nothing is invented**: of the buffers that were submitted for a client, `client_inputs` gets each at
most once, and gets no other, however the parties interleave and whatever is disconnected. -/
theorem nothing_invented (hrun : Run PluginLocks.step PluginLocks.start visited x) (e : endpoint) :
    ((observed shows visited).flatMap (Observation.handedTo e) : Multiset buffer) ≤
      (observed shows visited).flatMap (Observation.takenFrom e) := by
  obtain ⟨steps, v, owed, hsteps, -, hrefines, hagree⟩ := followed hrun
  have hhanded : total (fun o => (o.handedTo e : Multiset buffer)) (observed shows visited) =
      total (fun o => (o.handedTo e : Multiset buffer))
        (v.history.filterMap PluginEvent.observation ++ owed) :=
    hagree.sum_map fun o ho => congrArg _ (Observation.handedTo_eq_nil ho)
  have htaken : total (fun o => (o.takenFrom e : Multiset buffer)) (observed shows visited) =
      total (fun o => (o.takenFrom e : Multiset buffer))
        (v.history.filterMap PluginEvent.observation ++ owed) :=
    hagree.sum_map fun o ho => congrArg _ (Observation.takenFrom_eq_nil ho)
  have howed : total (fun o => (o.handedTo e : Multiset buffer)) owed = 0 := by
    apply total_eq_zero
    intro o ho
    rcases hrefines with hrefines | ⟨-, -, rfl⟩
    · exact congrArg _ (hrefines.stands.handedTo_owed ho)
    · exact absurd ho List.not_mem_nil
  rw [← total_coe, ← total_coe, hhanded, htaken, total_append, total_append, howed, add_zero]
  exact (CoreloopNetworkPlugin.handed_le_taken hsteps e).trans le_self_add

/-- The client gets the one buffer that came for it. -/
theorem nothing_invented_one_input :
    ∃ (visited : List (Config (PluginLocks 1 Nat Nat) Empty × LocksAction 1 Nat Nat))
      (x : Config (PluginLocks 1 Nat Nat) Empty),
      visited.map Prod.snd = oneInput ∧ Run PluginLocks.step PluginLocks.start visited x ∧
      (observed shows visited).flatMap (Observation.handedTo 7) = [100] ∧
      ((observed shows visited).flatMap (Observation.handedTo 7) : Multiset Nat) ≤
        (observed shows visited).flatMap (Observation.takenFrom 7) := by
  obtain ⟨x, hx⟩ := Option.isSome_iff_exists.mp
    (show (exec PluginLocks.step start oneInput).isSome = true by decide)
  exact ⟨_, x, actions_trace hx, run_trace hx, by decide, nothing_invented (run_trace hx) 7⟩

end PluginLocks

end Sekkeizu
