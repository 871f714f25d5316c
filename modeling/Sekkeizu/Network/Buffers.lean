/-
# Sekkeizu.Network.Buffers — where the buffers of one thread for one client are.

A buffer stored by a packet task waits in `_pending_inputs[i][e]`, then in `_endpoint_data[e]`, until
`client_inputs` gets it. `BufferMove` lists what a unit can do to these two places, for one thread and one
client: nothing (which includes moving buffers from the first to the second), store a buffer, hand the
vector over, or release the thread's mutex at the end of the client's disconnect, which clears the first
place. The second place is never cleared of anything: the vectors are empty outside the stages that fill
and serve them.
-/
import Sekkeizu.Network.Sections


namespace Sekkeizu

open PartialSystem

variable {threads : Nat} {endpoint buffer : Type*} [DecidableEq endpoint]

/-- The buffers of a vector that came from this thread. -/
def fromThread (i : Fin threads) (data : List (Fin threads × buffer)) : List buffer :=
  data.filterMap fun p => if p.1 = i then some p.2 else none

/-- The buffer a packet task of this thread stored for the client. -/
def PluginEvent.stored (i : Fin threads) (e : endpoint) :
    PluginEvent threads endpoint buffer → List buffer
  | .received i' e' b => if i' = i ∧ e' = e then [b] else []
  | _ => []

/-- The buffers of this thread that `client_inputs` got for the client. -/
def PluginEvent.handed (i : Fin threads) (e : endpoint) :
    PluginEvent threads endpoint buffer → List buffer
  | .clientInputs e' data => if e' = e then fromThread i data else []
  | _ => []

/-- The event ends the disconnect of the client for this thread. -/
def PluginEvent.releases (i : Fin threads) (e : endpoint) :
    PluginEvent threads endpoint buffer → Bool
  | .released i' e' => i' = i ∧ e' = e
  | _ => false

namespace CoreloopNetworkPlugin

/-- The part of `_endpoint_data[e]` that came from this thread; empty when there is no vector. -/
def dataOf (x : CoreloopNetworkPlugin threads endpoint buffer) (i : Fin threads) (e : endpoint) :
    List buffer :=
  fromThread i ((x.endpointData.lookup e).getD [])

/-- **What a unit does** to the buffers one thread has for one client. -/
inductive BufferMove (x y : CoreloopNetworkPlugin threads endpoint buffer)
    (a : PluginAction threads endpoint buffer) (evs : List (PluginEvent threads endpoint buffer))
    (i : Fin threads) (e : endpoint) : Prop
  | same (hsilent : ∀ ev ∈ evs, ev.stored i e = [] ∧ ev.handed i e = [] ∧ ev.releases i e = false)
      (hheld : y.dataOf i e ++ y.pendingOf i e = x.dataOf i e ++ x.pendingOf i e)
  | stored (b : buffer) (fresh : Bool) (hevs : evs = [.received i e b])
      (hmutex : x.localMutex i = .packet e b (.store fresh)) (hdata : y.dataOf i e = x.dataOf i e)
      (hpending : y.pendingOf i e = x.pendingOf i e ++ [b])
  | handed (data : List (Fin threads × buffer)) (hevs : evs = [.clientInputs e data])
      (hlookup : x.endpointData.lookup e = some data) (hdata : y.dataOf i e = [])
      (hpending : y.pendingOf i e = x.pendingOf i e)
  | released (rest : List endpoint) (haction : a = .tick) (hevs : evs = [.released i e])
      (hstage : x.stage = .disconnecting (.unlock i) e rest) (hdata : y.dataOf i e = x.dataOf i e)
      (hpending : y.pendingOf i e = [])

section Places

variable {x y : CoreloopNetworkPlugin threads endpoint buffer}
variable {a : PluginAction threads endpoint buffer}
variable {evs : List (PluginEvent threads endpoint buffer)}

theorem fromThread_append (i : Fin threads) (d₁ d₂ : List (Fin threads × buffer)) :
    fromThread i (d₁ ++ d₂) = fromThread i d₁ ++ fromThread i d₂ := List.filterMap_append

/-- Buffers tagged with a thread come from that thread. -/
theorem fromThread_tagged (i j : Fin threads) (bs : List buffer) :
    fromThread i (bs.map fun b => (j, b)) = if j = i then bs else [] := by
  rw [fromThread, List.filterMap_map]
  by_cases hij : j = i
  · simp [hij]
  · simp [hij]

theorem pendingOf_eq_nil {i : Fin threads} {e : endpoint} (h : e ∉ x.pendingInputs i) :
    x.pendingOf i e = [] := by
  rw [pendingOf, Finmap.lookup_eq_none.mpr h, Option.getD_none]

theorem dataOf_eq_nil {e : endpoint} (h : e ∉ x.endpointData) (i : Fin threads) :
    x.dataOf i e = [] := by
  rw [dataOf, Finmap.lookup_eq_none.mpr h, Option.getD_none]
  rfl

theorem dataOf_of_lookup {e : endpoint} {data : List (Fin threads × buffer)}
    (h : x.endpointData.lookup e = some data) (i : Fin threads) :
    x.dataOf i e = fromThread i data := by
  rw [dataOf, h, Option.getD_some]

@[simp] theorem pendingOf_new (i : Fin threads) (e : endpoint) :
    (new : CoreloopNetworkPlugin threads endpoint buffer).pendingOf i e = [] :=
  pendingOf_eq_nil Finmap.notMem_empty

@[simp] theorem dataOf_new (i : Fin threads) (e : endpoint) :
    (new : CoreloopNetworkPlugin threads endpoint buffer).dataOf i e = [] :=
  dataOf_eq_nil Finmap.notMem_empty i

/-- Collecting moves what is pending for a client behind what the client has. -/
theorem held_collect (idx i : Fin threads) (e : endpoint) :
    (x.collect idx).dataOf i e ++ (x.collect idx).pendingOf i e =
      x.dataOf i e ++ x.pendingOf i e := by
  have hpending : (x.collect idx).pendingOf i e =
      if i = idx ∧ e ∈ x.endpointData then [] else x.pendingOf i e := by
    -- only the thread that is collected, and only what has a vector to go to
    rw [pendingOf, CoreloopNetworkPlugin.collect]
    dsimp only
    by_cases hidx : i = idx
    · subst hidx
      rw [Function.update_self, Finmap.lookup_mapVals, pendingOf]
      cases (x.pendingInputs i).lookup e with
      | none => split_ifs <;> rfl
      | some buffers => by_cases hdata : e ∈ x.endpointData <;> simp [hdata]
    · rw [Function.update_of_ne hidx, if_neg fun h => hidx h.1, pendingOf]
  by_cases hdata : e ∈ x.endpointData
  · obtain ⟨data, hlookup⟩ := Finmap.mem_iff.mp hdata
    have hafter : (x.collect idx).endpointData.lookup e =
        some (data ++ (x.pendingOf idx e).map fun b => (idx, b)) := by
      rw [CoreloopNetworkPlugin.collect]
      dsimp only
      rw [Finmap.lookup_mapVals, hlookup, Option.map_some]
    rw [hpending, dataOf_of_lookup hafter, dataOf_of_lookup hlookup, fromThread_append,
      fromThread_tagged]
    by_cases hidx : i = idx
    · subst hidx
      rw [if_pos rfl, if_pos ⟨rfl, hdata⟩, List.append_nil]
    · rw [if_neg (Ne.symm hidx), if_neg fun h => hidx h.1, List.append_nil]
  · have hafter : e ∉ (x.collect idx).endpointData := mt Finmap.mem_mapVals.mp hdata
    rw [hpending, dataOf_eq_nil hafter, dataOf_eq_nil hdata, if_neg fun h => hdata h.2]

theorem dataOf_newClients (order : List endpoint) (i : Fin threads) (e : endpoint) :
    fromThread i (((order.foldl (fun data e => data.emplace e []) x.endpointData).lookup e).getD []) =
      x.dataOf i e := by
  rw [Finmap.lookup_foldl_emplace, dataOf]
  split_ifs with hnew
  · rw [Finmap.lookup_eq_none.mpr hnew.2]
    rfl
  · rfl

theorem bufferMove_newClients (order : List endpoint) (i : Fin threads) (e : endpoint) :
    ∀ ev ∈ (order.map .newClient : List (PluginEvent threads endpoint buffer)),
      ev.stored i e = [] ∧ ev.handed i e = [] ∧ ev.releases i e = false := by
  intro ev hev
  obtain ⟨e', -, rfl⟩ := List.mem_map.mp hev
  exact ⟨rfl, rfl, rfl⟩

theorem Acts.bufferMove (hf : Acts x a y evs) (h : Sections x) (i : Fin threads) (e : endpoint) :
    BufferMove x y a evs i e := by
  have hnone : ∀ ev ∈ ([] : List (PluginEvent threads endpoint buffer)),
      ev.stored i e = [] ∧ ev.handed i e = [] ∧ ev.releases i e = false :=
    fun ev hev => absurd hev List.not_mem_nil
  cases hf with
  | storeLocal j e' b fresh hmutex =>
      by_cases hmine : j = i ∧ e' = e
      · obtain ⟨rfl, rfl⟩ := hmine
        refine .stored b fresh rfl hmutex rfl ?_
        rw [pendingOf]
        dsimp only
        rw [Function.update_self, Finmap.lookup_insert, Option.getD_some]
      · apply BufferMove.same
        · intro ev hev
          rw [List.mem_singleton.mp hev]
          exact ⟨if_neg hmine, rfl, rfl⟩
        · apply congrArg (x.dataOf i e ++ ·)
          rw [pendingOf]
          dsimp only
          by_cases hij : i = j
          · subst hij
            have hne : e ≠ e' := fun heq => hmine ⟨rfl, heq.symm⟩
            rw [Function.update_self, Finmap.lookup_insert_of_ne _ hne, pendingOf]
          · rw [Function.update_of_ne hij, pendingOf]
  | newClients order hstage hnodup horder =>
      refine .same (bufferMove_newClients order i e) ?_
      exact congrArg (· ++ x.pendingOf i e) (dataOf_newClients order i e)
  | clientInputs e' todo data hstage hmem hdata =>
      by_cases heq : e' = e
      · subst heq
        refine .handed data rfl hdata ?_ rfl
        rw [dataOf]
        dsimp only
        rw [Finmap.lookup_insert]
        rfl
      · apply BufferMove.same
        · intro ev hev
          rw [List.mem_singleton.mp hev]
          exact ⟨rfl, if_neg heq, rfl⟩
        · apply congrArg (· ++ x.pendingOf i e)
          rw [dataOf, dataOf]
          dsimp only
          rw [Finmap.lookup_insert_of_ne _ (Ne.symm heq)]
  | collect idx hstage hfree => exact .same hnone (held_collect idx i e)
  | eraseData e' rest hstage =>
      refine .same hnone (congrArg (· ++ x.pendingOf i e) ?_)
      rw [dataOf, dataOf]
      dsimp only
      rw [Finmap.lookup_erase_eq]
      split_ifs with heq
      · cases hlookup : x.endpointData.lookup e with
        | none => rfl
        | some data =>
            -- the vector that is erased is empty
            rw [h.cleared hlookup (by rw [hstage]; exact id)]
            rfl
      · rfl
  | unlock j e' rest hstage =>
      by_cases hmine : j = i ∧ e' = e
      · obtain ⟨rfl, rfl⟩ := hmine
        refine .released rest rfl rfl hstage rfl ?_
        rw [pendingOf]
        dsimp only
        rw [Function.update_self, Finmap.lookup_erase]
        rfl
      · apply BufferMove.same
        · intro ev hev
          rw [List.mem_singleton.mp hev]
          exact ⟨rfl, rfl, decide_eq_false hmine⟩
        · apply congrArg (x.dataOf i e ++ ·)
          rw [pendingOf, pendingOf]
          dsimp only
          by_cases hij : i = j
          · subst hij
            have hne : e ≠ e' := fun heq => hmine ⟨rfl, heq.symm⟩
            rw [Function.update_self, Finmap.lookup_erase_ne hne]
          · rw [Function.update_of_ne hij]
  | lockLocal => exact .same hnone rfl
  | foundShared => exact .same hnone rfl
  | pass => exact .same hnone rfl
  | lock => exact .same hnone rfl
  | eraseShared => exact .same hnone rfl
  | _ =>
      apply BufferMove.same
      · intro ev hev
        rw [List.mem_singleton.mp hev]
        exact ⟨rfl, rfl, rfl⟩
      · rfl

end Places

end CoreloopNetworkPlugin

end Sekkeizu
