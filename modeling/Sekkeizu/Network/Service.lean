/-
# Sekkeizu.Network.Service — what one tick serves.

A tick goes once through its stages while packets, `disconnect` calls and the tasks it waits for go on in
between. What was there when it began it serves: by its `post_network_tick` every endpoint that was new has its
client, and every buffer that was stored has been handed to `client_inputs`, in order and before any that came
later; by its end every disconnect that was requested is processed (`tick_serves`). Nothing is asked of the
disconnects: a second one for a session fails the assertion of `tick`, and then the tick does not end.

For the buffers, `toServe` is what the tick has still to hand over of one thread and client: first all that is
held, then what has been collected or is yet to be, then the vector of a client that has not been served. A
unit hands over from the front of it and lets nothing drop out (`toServe_step`).
-/
import Sekkeizu.Network.Buffers
import Sekkeizu.Network.Representation


namespace Sekkeizu

open PartialSystem

variable {threads : Nat} {endpoint buffer : Type*}

/-- A disconnect of the endpoint has erased its vector and not yet its registration. -/
def TickStage.Leaving (e : endpoint) : TickStage endpoint → Prop
  | .disconnecting (.lock _) e' _ | .disconnecting .eraseShared e' _ => e' = e
  | _ => False

/-- The tick is past `post_network_tick`. -/
def TickStage.Closing : TickStage endpoint → Prop
  | .disconnects | .disconnecting .. => True
  | _ => False

namespace CoreloopNetworkPlugin

variable {x y : CoreloopNetworkPlugin threads endpoint buffer}
variable {a : PluginAction threads endpoint buffer}
variable {evs : List (PluginEvent threads endpoint buffer)}

/-- The client will be there when its thread is collected. -/
def Expects (x : CoreloopNetworkPlugin threads endpoint buffer) (e : endpoint) : Prop :=
  match x.stage with
  | .idle => e ∈ x.endpoints
  | .accumulate _ => e ∈ x.endpointData
  | .inputs _ | .post => True
  | _ => False

theorem expects_same (hstage : y.stage = x.stage) {e : endpoint} (hin : e ∈ x.endpoints → e ∈ y.endpoints)
    (hdata : e ∈ x.endpointData → e ∈ y.endpointData) (h : x.Expects e) : y.Expects e := by
  unfold Expects at h ⊢
  rw [hstage]
  cases hx : x.stage with
  | idle =>
      rw [hx] at h
      exact hin h
  | accumulate idx =>
      rw [hx] at h
      exact hdata h
  | inputs todo => trivial
  | post => trivial
  | _ =>
      rw [hx] at h
      exact h.elim

variable [DecidableEq endpoint]

/-- The buffers this tick, or the next one if none is under way, has still to hand over. -/
def toServe (x : CoreloopNetworkPlugin threads endpoint buffer) (i : Fin threads) (e : endpoint) :
    List buffer :=
  match x.stage with
  | .idle => x.dataOf i e ++ x.pendingOf i e
  | .accumulate idx => x.dataOf i e ++ if i < idx then [] else x.pendingOf i e
  | .inputs todo => if e ∈ todo then x.dataOf i e else []
  | _ => []

/-! ## Stages whose next unit the tests decide -/

/-- The test of `_pending_inputs[idx]`, and the section. -/
theorem step_accumulate {idx : Nat} (hstage : x.stage = .accumulate idx)
    (h : step x .tick = some (y, evs)) :
    evs = [] ∧
      ((∃ hidx : idx < threads, ((x.pendingInputs ⟨idx, hidx⟩).keys = ∅ ∧
          y = { x with stage := .accumulate (idx + 1) }) ∨
        y = { x.collect ⟨idx, hidx⟩ with stage := .accumulate (idx + 1) }) ∨
      (threads ≤ idx ∧ y = { x with stage := .inputs x.endpointData.keys })) := by
  simp only [step, tick, hstage] at h
  split_ifs at h with hidx hempty hfree
  · obtain ⟨rfl, rfl⟩ := Prod.mk.inj (Option.some.inj h)
    exact ⟨rfl, Or.inl ⟨hidx, Or.inl ⟨hempty, rfl⟩⟩⟩
  · obtain ⟨rfl, rfl⟩ := Prod.mk.inj (Option.some.inj h)
    exact ⟨rfl, Or.inl ⟨hidx, Or.inr rfl⟩⟩
  · obtain ⟨rfl, rfl⟩ := Prod.mk.inj (Option.some.inj h)
    exact ⟨rfl, Or.inr ⟨Nat.le_of_not_lt hidx, rfl⟩⟩

/-- The test of `_pending_disconnects`. -/
theorem step_disconnects (hstage : x.stage = .disconnects) (h : step x .tick = some (y, evs)) :
    evs = [] ∧
      ((x.pendingDisconnects = [] ∧ y = { x with stage := .idle }) ∨
        ∃ e rest, x.pendingDisconnects = e :: rest ∧
          y = { x with stage := .disconnecting .eraseData e rest }) := by
  simp only [step, tick, hstage] at h
  cases hrequests : x.pendingDisconnects with
  | nil =>
      simp only [hrequests] at h
      obtain ⟨rfl, rfl⟩ := Prod.mk.inj (Option.some.inj h)
      exact ⟨rfl, Or.inl ⟨rfl, by rw [← hrequests]⟩⟩
  | cons e rest =>
      simp only [hrequests] at h
      obtain ⟨rfl, rfl⟩ := Prod.mk.inj (Option.some.inj h)
      exact ⟨rfl, Or.inr ⟨e, rest, rfl, by rw [← hrequests]⟩⟩

/-! ## Buffers -/

theorem pendingOf_collect_self {i : Fin threads} {e : endpoint} (he : e ∈ x.endpointData) :
    (x.collect i).pendingOf i e = [] := by
  rw [pendingOf, CoreloopNetworkPlugin.collect]
  dsimp only
  rw [Function.update_self, Finmap.lookup_mapVals]
  cases (x.pendingInputs i).lookup e with
  | none => rfl
  | some buffers => simp [he]

theorem pendingOf_collect_of_ne {i idx : Fin threads} (hne : i ≠ idx) (e : endpoint) :
    (x.collect idx).pendingOf i e = x.pendingOf i e := by
  rw [pendingOf, CoreloopNetworkPlugin.collect]
  dsimp only
  rw [Function.update_of_ne hne, pendingOf]

theorem dataOf_collect_self {i : Fin threads} {e : endpoint} (he : e ∈ x.endpointData) :
    (x.collect i).dataOf i e = x.dataOf i e ++ x.pendingOf i e := by
  have hheld := x.held_collect i i e
  rwa [pendingOf_collect_self he, List.append_nil] at hheld

theorem dataOf_collect_of_ne {i idx : Fin threads} (hne : i ≠ idx) (e : endpoint) :
    (x.collect idx).dataOf i e = x.dataOf i e := by
  have hheld := x.held_collect idx i e
  rw [pendingOf_collect_of_ne hne] at hheld
  exact List.append_cancel_right hheld

theorem pendingOf_eq_nil_of_keys {i : Fin threads} (h : (x.pendingInputs i).keys = ∅) (e : endpoint) :
    x.pendingOf i e = [] := by
  apply pendingOf_eq_nil
  intro hmem
  rw [← Finmap.mem_keys, h] at hmem
  exact absurd hmem (Finset.notMem_empty e)

/-- Collecting a thread, or finding nothing to collect, or coming to the end of the threads. -/
theorem toServe_accumulate {idx : Nat} (hstage : x.stage = .accumulate idx)
    (h : step x .tick = some (y, evs)) {i : Fin threads} {e : endpoint} (he : e ∈ x.endpointData) :
    evs = [] ∧ y.toServe i e = x.toServe i e ∧ y.Expects e := by
  obtain ⟨hevs, ⟨hidx, ⟨hempty, rfl⟩ | rfl⟩ | ⟨hidx, rfl⟩⟩ := step_accumulate hstage h
  · refine ⟨hevs, ?_, he⟩
    simp only [toServe, hstage]
    by_cases hi : (i : Nat) = idx
    · obtain rfl : i = ⟨idx, hidx⟩ := Fin.ext hi
      rw [pendingOf_eq_nil_of_keys hempty]
      simp [dataOf]
    · have hlt : (i : Nat) < idx + 1 ↔ (i : Nat) < idx := by omega
      simp only [hlt]
      rfl
  · refine ⟨hevs, ?_, ?_⟩
    · simp only [toServe, hstage]
      by_cases hi : (i : Nat) = idx
      · obtain rfl : i = ⟨idx, hidx⟩ := Fin.ext hi
        rw [if_pos (Nat.lt_succ_self idx), if_neg (Nat.lt_irrefl idx), List.append_nil]
        exact dataOf_collect_self he
      · have hne : i ≠ ⟨idx, hidx⟩ := fun heq => hi (congrArg Fin.val heq)
        have hlt : (i : Nat) < idx + 1 ↔ (i : Nat) < idx := by omega
        have hdata := dataOf_collect_of_ne (x := x) hne e
        have hpending := pendingOf_collect_of_ne (x := x) hne e
        simp only [hlt]
        exact congrArg₂ _ hdata (by rw [← hpending]; rfl)
    · exact Finmap.mem_mapVals.mpr he
  · refine ⟨hevs, ?_, trivial⟩
    have hi : (i : Nat) < idx := Nat.lt_of_lt_of_le i.isLt hidx
    simp only [toServe, hstage, if_pos hi, if_pos (Finmap.mem_keys.mpr he), List.append_nil]
    rfl

/-- A unit that leaves the stage and both places of the client alone. -/
theorem toServe_same (hstage : y.stage = x.stage) {i : Fin threads} {e : endpoint}
    (hdata : y.dataOf i e = x.dataOf i e) (hpending : y.pendingOf i e = x.pendingOf i e) :
    y.toServe i e = x.toServe i e := by
  simp only [toServe, hstage, hdata, hpending]

/-- A packet task stores behind what is there. -/
theorem toServe_storeLocal {j : Fin threads} {e' : endpoint} {b : buffer}
    (hdata : y.endpointData = x.endpointData) (hstage : y.stage = x.stage)
    (hpending : y.pendingInputs = Function.update x.pendingInputs j
      ((x.pendingInputs j).insert e' (x.pendingOf j e' ++ [b]))) (i : Fin threads) (e : endpoint) :
    x.toServe i e <+: y.toServe i e := by
  have hsame : y.dataOf i e = x.dataOf i e := by rw [dataOf, dataOf, hdata]
  have hgrown : x.pendingOf i e <+: y.pendingOf i e := by
    rw [pendingOf, pendingOf, hpending]
    by_cases hij : i = j
    · subst hij
      rw [Function.update_self, Finmap.lookup_insert_eq]
      split_ifs with heq
      · subst heq
        exact List.prefix_append _ _
      · exact List.prefix_rfl
    · rw [Function.update_of_ne hij]
  unfold toServe
  rw [hstage, hsame]
  cases x.stage with
  | idle => exact List.prefix_append_right_inj _ |>.mpr hgrown
  | accumulate idx =>
      by_cases hi : (i : Nat) < idx
      · simp only [if_pos hi]
        exact List.prefix_rfl
      · simp only [if_neg hi]
        exact List.prefix_append_right_inj _ |>.mpr hgrown
  | _ => exact List.prefix_rfl

/-- One `client_inputs` task. -/
theorem toServe_clientInputs {e' : endpoint} {todo : Finset endpoint} {data : List (Fin threads × buffer)}
    (hstage : x.stage = .inputs todo) (hmem : e' ∈ todo) (hlookup : x.endpointData.lookup e' = some data)
    (i : Fin threads) (e : endpoint) :
    x.toServe i e = PluginEvent.handed i e (.clientInputs e' data : PluginEvent threads endpoint buffer) ++
      toServe { x with endpointData := x.endpointData.insert e' [], stage := .inputs (todo.erase e') } i e := by
  by_cases heq : e' = e
  · subst heq
    simp [toServe, hstage, hmem, PluginEvent.handed, dataOf_of_lookup hlookup]
  · have hne : e ≠ e' := Ne.symm heq
    simp [toServe, hstage, PluginEvent.handed, heq, hne, dataOf, Finmap.lookup_insert_of_ne]

/-! ## Who has a client -/

/-- **What serving rests on**, however often an endpoint is disconnected: the sections, and a registered
endpoint without a client is new or about to be erased. -/
structure Clients (x : CoreloopNetworkPlugin threads endpoint buffer) : Prop extends Sections x where
  client : ∀ e ∈ x.endpoints, e ∈ x.endpointData ∨ e ∈ x.newEndpoints ∨ x.stage.Leaving e

theorem clients_new : (new : CoreloopNetworkPlugin threads endpoint buffer).Clients where
  toSections := sections_new
  client e he := absurd he (Finset.notMem_empty e)

theorem mem_newClients {order : List endpoint} {e : endpoint}
    (h : e ∈ x.endpointData ∨ e ∈ order) :
    e ∈ order.foldl (fun data e => data.emplace e []) x.endpointData := by
  rw [Finmap.mem_iff_lookup_ne_none, Finmap.lookup_foldl_emplace]
  split_ifs with hfresh
  · simp
  · rw [← Finmap.mem_iff_lookup_ne_none]
    exact h.elim id fun horder => not_not.mp fun hout => hfresh ⟨horder, hout⟩

theorem Clients.step (h : Clients x) (hstep : CoreloopNetworkPlugin.step x a = some (y, evs)) :
    Clients y := by
  refine ⟨h.toSections.step hstep, fun e he => ?_⟩
  have hf := acts_of_step h.toLocals hstep
  cases hf with
  | submit | lockLocal | foundShared | storeLocal | disconnect => exact h.client e he
  | registerShared j e' b hmutex hout =>
      rcases Finset.mem_insert.mp he with rfl | hold
      · exact Or.inr (Or.inl (Finset.mem_insert_self e _))
      · exact (h.client e hold).imp id (Or.imp (Finset.mem_insert_of_mem ·) id)
  | newClients order hstage hnodup horder =>
      refine Or.inl (mem_newClients ?_)
      have hclient := h.client e he
      rw [hstage] at hclient
      exact hclient.imp id fun hnew => (horder e).mpr (hnew.resolve_right id)
  | clientInputs e' todo data hstage hmem hdata =>
      have hclient := h.client e he
      rw [hstage] at hclient
      exact hclient.imp (fun hin => Finmap.mem_insert.mpr (Or.inr hin)) (Or.imp id False.elim)
  | pass stage hpasses =>
      refine (h.client e he).imp id (Or.imp id fun hleaving => ?_)
      generalize hbefore : x.stage = before at hpasses
      rw [hbefore] at hleaving
      cases hpasses with
      | locked i e' rest hi => exact hleaving
      | absent e' rest habsent =>
          obtain rfl : e' = e := hleaving
          exact absurd he habsent
      | _ => exact hleaving.elim
  | collect idx hstage hfree =>
      have hclient := h.client e he
      rw [hstage] at hclient
      exact hclient.imp (fun hin => Finmap.mem_mapVals.mpr hin) (Or.imp id False.elim)
  | post hstage =>
      have hclient := h.client e he
      rw [hstage] at hclient
      exact hclient.imp id (Or.imp id False.elim)
  | eraseData e' rest hstage =>
      by_cases heq : e' = e
      · exact Or.inr (Or.inr heq)
      · have hclient := h.client e he
        rw [hstage] at hclient
        exact hclient.imp (fun hin => Finmap.mem_erase.mpr ⟨Ne.symm heq, hin⟩) (Or.imp id False.elim)
  | lock i e' rest hstage hfree =>
      have hclient := h.client e he
      rw [hstage] at hclient
      exact hclient
  | eraseShared e' rest hstage hin =>
      obtain ⟨hne, hold⟩ := Finset.mem_erase.mp he
      have hclient := h.client e hold
      rw [hstage] at hclient
      exact hclient.imp id (Or.imp id fun hleaving => hne hleaving.symm)
  | unlock i e' rest hstage =>
      have hclient := h.client e he
      rw [hstage] at hclient
      exact hclient.imp id (Or.imp id False.elim)
  | callback e' rest hstage =>
      have hclient := h.client e he
      rw [hstage] at hclient
      exact hclient.imp id (Or.imp id False.elim)

/-! ## Handing over -/

/-- **One unit** hands over from the front of what is to be served and lets nothing drop out, until
`post_network_tick`. -/
theorem Clients.toServe_step (h : Clients x) {i : Fin threads} {e : endpoint}
    (hexpects : x.Expects e) (hstep : CoreloopNetworkPlugin.step x a = some (y, evs)) :
    x.toServe i e <+: evs.flatMap (PluginEvent.handed i e) ++ y.toServe i e ∧
      ((y.Expects e ∧ .postNetworkTick ∉ evs) ∨ y.toServe i e = []) := by
  have hquiet : ∀ {z : CoreloopNetworkPlugin threads endpoint buffer},
      z.toServe i e = x.toServe i e → x.toServe i e <+: [] ++ z.toServe i e := by
    intro z hz
    rw [List.nil_append, hz]
  have hf := acts_of_step h.toLocals hstep
  cases hf with
  | submit | lockLocal | foundShared | disconnect =>
      exact ⟨hquiet (toServe_same rfl rfl rfl), Or.inl ⟨expects_same rfl id id hexpects, by simp⟩⟩
  | registerShared j e' b hmutex hout =>
      refine ⟨hquiet (toServe_same rfl rfl rfl), Or.inl ⟨?_, by simp⟩⟩
      refine expects_same ?_ ?_ ?_ hexpects
      · rfl
      · exact fun hin => Finset.mem_insert_of_mem hin
      · exact id
  | storeLocal j e' b fresh hmutex =>
      have hsilent : ([.received j e' b] : List (PluginEvent threads endpoint buffer)).flatMap
          (PluginEvent.handed i e) = [] := rfl
      rw [hsilent, List.nil_append]
      refine ⟨?_, Or.inl ⟨expects_same rfl id id hexpects, by simp⟩⟩
      apply toServe_storeLocal <;> rfl
  | newClients order hstage hnodup horder =>
      have hclient : e ∈ order.foldl (fun data e => data.emplace e []) x.endpointData := by
        rw [Expects, hstage] at hexpects
        have hhas := h.client e hexpects
        rw [hstage] at hhas
        exact mem_newClients (hhas.imp id fun hnew => (horder e).mpr (hnew.resolve_right id))
      refine ⟨?_, Or.inl ⟨hclient, by simp⟩⟩
      have hsilent : (order.map .newClient : List (PluginEvent threads endpoint buffer)).flatMap
          (PluginEvent.handed i e) = [] := by
        rw [List.flatMap_eq_nil_iff]
        exact fun ev hev => (bufferMove_newClients order i e ev hev).2.1
      rw [hsilent]
      refine hquiet ?_
      simp only [toServe, hstage, Nat.not_lt_zero, if_false]
      exact congrArg (· ++ x.pendingOf i e) (dataOf_newClients order i e)
  | clientInputs e' todo data hstage hmem hdata =>
      rw [toServe_clientInputs hstage hmem hdata i e]
      exact ⟨by simp, Or.inl ⟨trivial, by simp⟩⟩
  | pass stage hpasses =>
      generalize hbefore : x.stage = before at hpasses
      rw [Expects, hbefore] at hexpects
      cases hpasses with
      | skip idx | collected idx =>
          obtain ⟨hevs, hserve, hafter⟩ := toServe_accumulate hbefore hstep hexpects
          exact ⟨hquiet hserve, Or.inl ⟨hafter, List.not_mem_nil⟩⟩
      | served => exact ⟨hquiet (by simp [toServe, hbefore]), Or.inl ⟨trivial, List.not_mem_nil⟩⟩
      | _ => exact hexpects.elim
  | collect idx hstage hfree =>
      rw [Expects, hstage] at hexpects
      obtain ⟨hevs, hserve, hafter⟩ := toServe_accumulate hstage hstep hexpects
      exact ⟨hquiet hserve, Or.inl ⟨hafter, List.not_mem_nil⟩⟩
  | post hstage => exact ⟨by simp [toServe, hstage], Or.inr rfl⟩
  | eraseData e' rest hstage | lock j e' rest hstage hfree | eraseShared e' rest hstage hin
  | unlock j e' rest hstage | callback e' rest hstage =>
      rw [Expects, hstage] at hexpects
      exact hexpects.elim

/-! ## New clients -/

/-- A new endpoint waits for the next tick, which begins with its client. -/
theorem Clients.newClient_step (h : Clients x) {e : endpoint} (hidle : x.stage = .idle)
    (hnew : e ∈ x.newEndpoints) (hstep : CoreloopNetworkPlugin.step x a = some (y, evs)) :
    (y.stage = .idle ∧ e ∈ y.newEndpoints ∧ .postNetworkTick ∉ evs) ∨ .newClient e ∈ evs := by
  have hf := acts_of_step h.toLocals hstep
  cases hf with
  | submit | lockLocal | foundShared | storeLocal | disconnect => exact Or.inl ⟨hidle, hnew, by simp⟩
  | registerShared => exact Or.inl ⟨hidle, Finset.mem_insert_of_mem hnew, by simp⟩
  | newClients order hstage hnodup horder =>
      exact Or.inr (List.mem_map.mpr ⟨e, (horder e).mpr hnew, rfl⟩)
  | pass stage hpasses =>
      rw [hidle] at hpasses
      exact nomatch hpasses
  | clientInputs e' todo data hstage | collect idx hstage | post hstage | eraseData e' rest hstage
  | lock j e' rest hstage | eraseShared e' rest hstage | unlock j e' rest hstage
  | callback e' rest hstage =>
      rw [hidle] at hstage
      exact absurd hstage (by simp)

/-! ## Disconnects -/

/-- A tick does not end while a disconnect is still to be processed, unless it fails the assertion. -/
theorem Clients.closing_step (h : Clients x) {e : endpoint} (hclosing : x.stage.Closing)
    (hrunning : y.stage ≠ .aborted) (hmem : e ∈ y.requests)
    (hstep : CoreloopNetworkPlugin.step x a = some (y, evs)) : y.stage.Closing := by
  have hf := acts_of_step h.toLocals hstep
  cases hf with
  | submit | lockLocal | foundShared | registerShared | storeLocal | disconnect => exact hclosing
  | newClients order hstage | clientInputs e' todo data hstage | collect idx hstage | post hstage =>
      rw [hstage] at hclosing
      exact hclosing.elim
  | pass stage hpasses =>
      generalize hbefore : x.stage = before at hpasses
      rw [hbefore] at hclosing
      cases hpasses with
      | quiet =>
          obtain ⟨-, ⟨hnone, -⟩ | ⟨e', rest, -, hy⟩⟩ := step_disconnects hbefore hstep
          · rw [requests, hnone] at hmem
            exact absurd hmem List.not_mem_nil
          · rw [hy]
            trivial
      | absent => exact absurd rfl hrunning
      | enter | locked | unlocked => trivial
      | _ => exact hclosing.elim
  | callback e' rest hstage =>
      cases rest with
      | nil => exact absurd hmem List.not_mem_nil
      | cons e'' rest => trivial
  | _ => trivial

/-- A requested disconnect stays requested until its callback, and after `post_network_tick` it keeps the tick
from ending. -/
theorem Clients.disconnect_step (h : Clients x) {e : endpoint}
    {since : List (PluginEvent threads endpoint buffer)} (hmem : e ∈ x.requests)
    (hclosing : .postNetworkTick ∈ since → x.stage.Closing) (hrunning : y.stage ≠ .aborted)
    (hstep : CoreloopNetworkPlugin.step x a = some (y, evs)) :
    (e ∈ y.requests ∧ (.postNetworkTick ∈ since ++ evs → y.stage.Closing)) ∨ .onDisconnected e ∈ evs := by
  have hf := acts_of_step h.toLocals hstep
  have hkept : e ∈ y.requests ∨ .onDisconnected e ∈ evs := by
    cases hf.requestMove hrunning with
    | stay hrequests hsilent => exact Or.inl (hrequests ▸ hmem)
    | ask e' haction hevs hrequests => exact Or.inl (hrequests ▸ List.mem_append_left _ hmem)
    | answer e' hevs hrequests =>
        rw [hrequests, List.mem_cons] at hmem
        rw [hevs]
        exact hmem.symm.imp id fun heq => List.mem_singleton.mpr (congrArg _ heq)
  refine hkept.imp (fun hstill => ⟨hstill, fun hpost => ?_⟩) id
  rcases List.mem_append.mp hpost with hbefore | hnow
  · exact h.closing_step (hclosing hbefore) hrunning hstill hstep
  · -- the unit is `post_network_tick` itself
    cases hf with
    | post hstage => trivial
    | newClients order =>
        obtain ⟨e', -, heq⟩ := List.mem_map.mp hnow
        exact absurd heq (by simp)
    | _ => simp at hnow

/-- Nothing happens after a failed assertion. -/
theorem running_of_step (hstep : step x a = some (y, evs)) : x.stage ≠ .aborted := by
  intro haborted
  simp [step, haborted] at hstep

end CoreloopNetworkPlugin

open CoreloopNetworkPlugin

/-! ## The whole tick -/

section Tick

variable [DecidableEq endpoint]
variable {later : List (Config (CoreloopNetworkPlugin threads endpoint buffer)
  (PluginEvent threads endpoint buffer) × PluginAction threads endpoint buffer)}
variable {x y z : Config (CoreloopNetworkPlugin threads endpoint buffer) (PluginEvent threads endpoint buffer)}
variable {since : List (PluginEvent threads endpoint buffer)}

theorem CoreloopNetworkPlugin.Clients.next {a : PluginAction threads endpoint buffer} (h : Clients y.state)
    (hnext : CoreloopNetworkPlugin.step.next y a = some z) : Clients z.state := by
  obtain ⟨s, evs, hstep, rfl⟩ := Step.next_eq_some.mp hnext
  exact h.step hstep

/-- Whoever is new when a tick begins has its `new_client` by `post_network_tick`. -/
theorem CoreloopNetworkPlugin.Clients.newClient_served (h : Clients x.state)
    (hidle : x.state.stage = .idle) (hlater : Run CoreloopNetworkPlugin.step x later z)
    (hsince : z.history = x.history ++ since)
    (hpost : .postNetworkTick ∈ since) {e : endpoint} (hnew : e ∈ x.state.newEndpoints) :
    .newClient e ∈ since := by
  have hserved : (z.state.stage = .idle ∧ e ∈ z.state.newEndpoints ∧ .postNetworkTick ∉ since) ∨
      .newClient e ∈ since := by
    refine hlater.due_or_met (fun y => Clients y.state) (fun _ _ => True) (fun h _ hnext => h.next hnext)
      (fun since s => s.stage = .idle ∧ e ∈ s.newEndpoints ∧ .postNetworkTick ∉ since)
      (fun since => .newClient e ∈ since) (fun _ _ hmem => List.mem_append_left _ hmem) ?_
      (fun _ _ => trivial) h ⟨hidle, hnew, List.not_mem_nil⟩ hsince
    rintro y a s evs since h hstep ⟨hidle, hnew, hbefore⟩
    refine (h.newClient_step hidle hnew hstep).imp ?_ (List.mem_append_right _ ·)
    rintro ⟨hidle, hnew, hsilent⟩
    exact ⟨hidle, hnew, fun hmem => (List.mem_append.mp hmem).elim hbefore hsilent⟩
  exact hserved.resolve_left fun hdue => hdue.2.2 hpost

/-- Between ticks the vectors of the clients are empty. -/
theorem CoreloopNetworkPlugin.Clients.toServe_idle (h : Clients x.state) (hidle : x.state.stage = .idle)
    (i : Fin threads) (e : endpoint) : x.state.toServe i e = x.state.pendingOf i e := by
  have hdata : x.state.dataOf i e = [] := by
    cases hlookup : x.state.endpointData.lookup e with
    | none => exact dataOf_eq_nil (Finmap.lookup_eq_none.mp hlookup) i
    | some data =>
        rw [dataOf_of_lookup hlookup, h.cleared hlookup (by rw [hidle]; exact id)]
        rfl
  simp [toServe, hidle, hdata]

/-- Between ticks nothing is stored for an endpoint that is not registered. -/
theorem CoreloopNetworkPlugin.Clients.pendingOf_eq_nil_of_idle (h : Clients x.state)
    (hidle : x.state.stage = .idle) (i : Fin threads) {e : endpoint} (he : e ∉ x.state.endpoints) :
    x.state.pendingOf i e = [] := by
  have hlocal : e ∉ x.state.localEndpoints i := fun hmem =>
    he ((h.registered hmem).resolve_right (by rw [hidle]; exact id))
  exact pendingOf_eq_nil (mt (h.mem_iff i e).mp hlocal)

/-- What a thread has stored when a tick begins is handed over by `post_network_tick`. -/
theorem CoreloopNetworkPlugin.Clients.inputs_served (h : Clients x.state) (hidle : x.state.stage = .idle)
    (hlater : Run CoreloopNetworkPlugin.step x later z) (hsince : z.history = x.history ++ since)
    (hpost : .postNetworkTick ∈ since) (i : Fin threads) (e : endpoint) :
    x.state.pendingOf i e <+: since.flatMap (PluginEvent.handed i e) := by
  by_cases hregistered : e ∈ x.state.endpoints
  · have hserved : (.postNetworkTick ∉ since ∧ z.state.Expects e ∧
        x.state.pendingOf i e <+: since.flatMap (PluginEvent.handed i e) ++ z.state.toServe i e) ∨
        (x.state.pendingOf i e <+: since.flatMap (PluginEvent.handed i e)) := by
      refine hlater.due_or_met (fun y => Clients y.state) (fun _ _ => True) (fun h _ hnext => h.next hnext)
        (fun since s => .postNetworkTick ∉ since ∧ s.Expects e ∧
          x.state.pendingOf i e <+: since.flatMap (PluginEvent.handed i e) ++ s.toServe i e)
        (fun since => x.state.pendingOf i e <+: since.flatMap (PluginEvent.handed i e)) ?_ ?_
        (fun _ _ => trivial) h ⟨List.not_mem_nil, ?_, ?_⟩ hsince
      · intro since evs hmet
        rw [List.flatMap_append]
        exact hmet.trans (List.prefix_append _ _)
      · rintro y a s evs since h hstep ⟨hbefore, hexpects, hprefix⟩
        obtain ⟨hserve, hafter⟩ := h.toServe_step hexpects hstep
        have hprefix : x.state.pendingOf i e <+:
            (since ++ evs).flatMap (PluginEvent.handed i e) ++ s.toServe i e := by
          rw [List.flatMap_append, List.append_assoc]
          exact hprefix.trans ((List.prefix_append_right_inj _).mpr hserve)
        refine hafter.imp (fun hstill => ⟨?_, hstill.1, hprefix⟩) fun hnone => ?_
        · exact fun hmem => (List.mem_append.mp hmem).elim hbefore hstill.2
        · rwa [hnone, List.append_nil] at hprefix
      · rw [Expects, hidle]
        exact hregistered
      · rw [h.toServe_idle hidle]
        exact List.prefix_rfl
    exact hserved.resolve_left fun hdue => hdue.1 hpost
  · rw [h.pendingOf_eq_nil_of_idle hidle i hregistered]
    exact List.nil_prefix

/-- A disconnect that is requested when a tick begins is answered by its end. -/
theorem CoreloopNetworkPlugin.Clients.disconnect_served (h : Clients x.state)
    (hidle : x.state.stage = .idle) (hlater : Run CoreloopNetworkPlugin.step x later z)
    (hsince : z.history = x.history ++ since)
    (hpost : .postNetworkTick ∈ since) (hdone : z.state.stage = .idle) {e : endpoint}
    (hrequest : e ∈ x.state.pendingDisconnects) : .onDisconnected e ∈ since := by
  have hserved : (z.state.stage = .aborted ∨
      e ∈ z.state.requests ∧ (.postNetworkTick ∈ since → z.state.stage.Closing)) ∨
      .onDisconnected e ∈ since := by
    have hrequests : x.state.requests = x.state.pendingDisconnects :=
      requests_of_unlocked (by rw [disconnectLocked, hidle])
    refine hlater.due_or_met (fun y => Clients y.state) (fun _ _ => True) (fun h _ hnext => h.next hnext)
      (fun since s => s.stage = .aborted ∨
        e ∈ s.requests ∧ (.postNetworkTick ∈ since → s.stage.Closing))
      (fun since => .onDisconnected e ∈ since) (fun _ _ hmem => List.mem_append_left _ hmem) ?_
      (fun _ _ => trivial) h (Or.inr ⟨hrequests ▸ hrequest, fun hmem => absurd hmem List.not_mem_nil⟩) hsince
    intro y a s evs since h hstep hdue
    obtain ⟨hmem, hclosing⟩ := hdue.resolve_left (running_of_step hstep)
    by_cases haborted : s.stage = .aborted
    · exact Or.inl (Or.inl haborted)
    · exact (h.disconnect_step hmem hclosing haborted hstep).imp Or.inr (List.mem_append_right _ ·)
  apply hserved.resolve_left
  rw [hdone]
  rintro (haborted | ⟨-, hclosing⟩)
  · exact absurd haborted (by simp)
  · exact hclosing hpost

end Tick

/-- **One tick serves what was there**, in every run. Let the tick be idle. When `post_network_tick` comes
next, every endpoint that was new has had its `new_client`, and what every thread had stored for every client
has been handed to it, in order and before anything else from that thread; when the tick is idle again, every
disconnect that was requested has had its `on_disconnected`. -/
theorem tick_serves [DecidableEq endpoint]
    {visited later : List (Config (CoreloopNetworkPlugin threads endpoint buffer)
      (PluginEvent threads endpoint buffer) × PluginAction threads endpoint buffer)}
    {x z : Config (CoreloopNetworkPlugin threads endpoint buffer) (PluginEvent threads endpoint buffer)}
    (hrun : Run step CoreloopNetworkPlugin.start visited x) (hidle : x.state.stage = .idle)
    (hlater : Run step x later z) :
    ∃ since, z.history = x.history ++ since ∧
      (.postNetworkTick ∈ since →
        (∀ e ∈ x.state.newEndpoints, .newClient e ∈ since) ∧
        (∀ i e, x.state.pendingOf i e <+: since.flatMap (PluginEvent.handed i e)) ∧
        (z.state.stage = .idle → ∀ e ∈ x.state.pendingDisconnects, .onDisconnected e ∈ since)) := by
  have h : Clients x.state := hrun.invariant_state Clients (fun h hstep => h.step hstep) clients_new
  obtain ⟨since, hsince⟩ := hlater.exists_since
  refine ⟨since, hsince, ?_⟩
  intro hpost
  refine ⟨?_, ?_, ?_⟩
  · intro e hnew
    exact h.newClient_served hidle hlater hsince hpost hnew
  · intro i e
    exact h.inputs_served hidle hlater hsince hpost i e
  · intro hdone e hrequest
    exact h.disconnect_served hidle hlater hsince hpost hdone hrequest

/-- The event is a `post_network_tick`. -/
def PluginEvent.isPost : PluginEvent 1 Nat Nat → Bool
  | .postNetworkTick => true
  | _ => false

/-- A packet of an endpoint arrives at thread 0, and its task runs. -/
def packet (e b : Nat) : List (PluginAction 1 Nat Nat) :=
  [.handleNetworkPacket (Fin.last 0) e b, .lockLocal 0, .registerShared (Fin.last 0), .storeLocal (Fin.last 0)]

/-- A tick with client 8 alone, a request to disconnect it, and a packet of client 7. -/
def firstTick : List (PluginAction 1 Nat Nat) :=
  packet 8 200 ++ [.newClients [8], .tick, .tick, .clientInputs 8, .tick, .tick, .tick, .disconnect 8] ++
    packet 7 100

/-- The next tick. -/
def secondTick : List (PluginAction 1 Nat Nat) :=
  [.newClients [7], .tick, .tick, .clientInputs 8, .clientInputs 7] ++ List.replicate 10 .tick

/-- Client 8 has a disconnect requested and client 7 is new, with a buffer, when the second tick begins. -/
theorem tick_serves_two_clients :
    ∃ (x z : Config (CoreloopNetworkPlugin 1 Nat Nat) (PluginEvent 1 Nat Nat))
      (since : List (PluginEvent 1 Nat Nat)),
      (x.state.newEndpoints = {7} ∧ x.state.pendingOf 0 7 = [100] ∧ x.state.pendingDisconnects = [8]) ∧
      z.history = x.history ++ since ∧ .newClient 7 ∈ since ∧
      [100] <+: since.flatMap (PluginEvent.handed 0 7) ∧ .onDisconnected 8 ∈ since := by
  obtain ⟨x, hx⟩ := Option.isSome_iff_exists.mp (show (exec CoreloopNetworkPlugin.step
    CoreloopNetworkPlugin.start firstTick).isSome = true by decide)
  have hlater : ((exec CoreloopNetworkPlugin.step CoreloopNetworkPlugin.start firstTick).bind fun x =>
      exec CoreloopNetworkPlugin.step x secondTick).isSome = true := by decide
  rw [hx, Option.bind_some] at hlater
  obtain ⟨z, hz⟩ := Option.isSome_iff_exists.mp hlater
  have hwaiting : (some x).map (fun x => (x.state.newEndpoints, x.state.pendingOf 0 7,
      x.state.pendingDisconnects)) = some ({7}, [100], [8]) := by
    rw [← hx]
    decide
  obtain ⟨hnew, hpending, hrequests⟩ : x.state.newEndpoints = {7} ∧ x.state.pendingOf 0 7 = [100] ∧
      x.state.pendingDisconnects = [8] := by simpa using hwaiting
  have hidle : (some x).map (fun x => x.state.stage) = some .idle := by
    rw [← hx]
    rfl
  have hdone : ((some x).bind fun x => exec CoreloopNetworkPlugin.step x secondTick).map
      (fun z => z.state.stage) = some .idle := by
    rw [← hx]
    rfl
  -- one `post_network_tick` before, two in all
  have hbefore : (some x).map (fun x => x.history.countP PluginEvent.isPost) = some 1 := by
    rw [← hx]
    decide
  have hafter : ((some x).bind fun x => exec CoreloopNetworkPlugin.step x secondTick).map
      (fun z => z.history.countP PluginEvent.isPost) = some 2 := by
    rw [← hx]
    decide
  rw [Option.bind_some, hz] at hdone hafter
  obtain ⟨since, hsince, hserves⟩ := tick_serves (run_trace hx) (Option.some.inj hidle) (run_trace hz)
  have hcount : since.countP PluginEvent.isPost = 1 := by
    have hone : x.history.countP PluginEvent.isPost = 1 := Option.some.inj hbefore
    have htwo : z.history.countP PluginEvent.isPost = 2 := Option.some.inj hafter
    rw [hsince, List.countP_append, hone] at htwo
    omega
  obtain ⟨ev, hmem, hev⟩ : ∃ ev ∈ since, ev.isPost = true := by
    rw [← List.countP_pos_iff, hcount]
    exact Nat.one_pos
  have hpost : .postNetworkTick ∈ since := by
    cases ev with
    | postNetworkTick => exact hmem
    | _ => exact absurd hev (by simp [PluginEvent.isPost])
  obtain ⟨hclients, hhanded, hanswered⟩ := hserves hpost
  refine ⟨x, z, since, ⟨hnew, hpending, hrequests⟩, hsince, ?_, ?_, ?_⟩
  · exact hclients 7 (by rw [hnew]; decide)
  · rw [← hpending]
    exact hhanded 0 7
  · exact hanswered (Option.some.inj hdone) 8 (by rw [hrequests]; decide)

end Sekkeizu
