/-
# Sekkeizu.Network.Lifecycle — the callbacks an endpoint gets, in which order.

What the plugin knows of an endpoint is spread over `_new_endpoints`, `_endpoints`, `_endpoint_data`,
`_pending_disconnects` and the stage of the disconnect loop. `Status` is the table of the combinations
that occur, and it ties them to the callbacks: an endpoint is connected, in the sense of the callbacks,
exactly when it has a vector or its disconnect is under way. `Registry` is that table for every endpoint,
with the callbacks in order.

All of this rests on a disconnect being requested once for each session. The code asserts that a
disconnected endpoint is registered, and nothing keeps a second request for the same session out of
`_pending_disconnects` (`second_disconnect_fails_assertion`).
-/
import Sekkeizu.Network.Sections
import Sekkeizu.Semantics.Sessions


namespace Sekkeizu

open PartialSystem
open Sessions (Mark InOrder session isOpen)

variable {threads : Nat} {endpoint buffer : Type*}

/-- The disconnects that are still to be processed. -/
def CoreloopNetworkPlugin.requests (x : CoreloopNetworkPlugin threads endpoint buffer) :
    List endpoint :=
  match x.stage with
  | .disconnecting _ e rest => e :: rest
  | _ => x.pendingDisconnects

theorem CoreloopNetworkPlugin.requests_of_unlocked {x : CoreloopNetworkPlugin threads endpoint buffer}
    (hunlocked : x.disconnectLocked = false) : x.requests = x.pendingDisconnects := by
  unfold requests
  unfold disconnectLocked at hunlocked
  cases hstage : x.stage with
  | disconnecting => simp [hstage] at hunlocked
  | _ => rfl

variable [DecidableEq endpoint]

/-! ## The callbacks about one endpoint -/

/-- The callback about this endpoint that an event is. -/
def PluginEvent.callback (e : endpoint) : PluginEvent threads endpoint buffer → Option Mark
  | .newClient e' => if e' = e then some .opens else none
  | .clientInputs e' _ => if e' = e then some .uses else none
  | .onDisconnected e' => if e' = e then some .closes else none
  | _ => none

/-- The callbacks about an endpoint, in order. -/
def callbacks (e : endpoint) (history : List (PluginEvent threads endpoint buffer)) : List Mark :=
  history.filterMap (PluginEvent.callback e)

/-- The endpoint is connected: after its `new_client`, before its `on_disconnected`. -/
def connected (e : endpoint) (history : List (PluginEvent threads endpoint buffer)) : Bool :=
  isOpen (callbacks e history)

/-- What an event says about a disconnect of this endpoint: requested, or processed. -/
def PluginEvent.request (e : endpoint) : PluginEvent threads endpoint buffer → Option Bool
  | .disconnect e' => if e' = e then some true else none
  | .onDisconnected e' => if e' = e then some false else none
  | _ => none

/-- `disconnect` was called for the endpoint, and `on_disconnected` has not come since. -/
def asked (e : endpoint) (history : List (PluginEvent threads endpoint buffer)) : Bool :=
  (history.filterMap (PluginEvent.request e)).getLast?.getD false

section History

variable {e : endpoint} {h₁ h₂ : List (PluginEvent threads endpoint buffer)}

@[simp] theorem callbacks_append : callbacks e (h₁ ++ h₂) = callbacks e h₁ ++ callbacks e h₂ :=
  List.filterMap_append

theorem callbacks_clientInputs (e' : endpoint) (data : List (Fin threads × buffer)) :
    callbacks e [.clientInputs e' data] = if e' = e then [.uses] else [] := by
  rw [callbacks, List.filterMap_cons, List.filterMap_nil, PluginEvent.callback]
  split_ifs <;> rfl

theorem callbacks_onDisconnected (e' : endpoint) :
    callbacks e ([.onDisconnected e'] : List (PluginEvent threads endpoint buffer)) =
      if e' = e then [.closes] else [] := by
  rw [callbacks, List.filterMap_cons, List.filterMap_nil, PluginEvent.callback]
  split_ifs <;> rfl

theorem connected_of_silent (hsilent : callbacks e h₂ = []) :
    connected e (h₁ ++ h₂) = connected e h₁ := by
  rw [connected, callbacks_append, hsilent, List.append_nil, connected]

theorem asked_of_silent (hsilent : h₂.filterMap (PluginEvent.request e) = []) :
    asked e (h₁ ++ h₂) = asked e h₁ := by
  rw [asked, List.filterMap_append, hsilent, List.append_nil, asked]

theorem asked_of_last {asks : Bool} (hlast : h₂.filterMap (PluginEvent.request e) = [asks]) :
    asked e (h₁ ++ h₂) = asks := by
  rw [asked, List.filterMap_append, hlast, List.getLast?_concat, Option.getD_some]

/-- The section that creates the clients calls each of them once. -/
theorem callbacks_newClients {order : List endpoint} (hnodup : order.Nodup) :
    callbacks e (order.map .newClient : List (PluginEvent threads endpoint buffer)) =
      if e ∈ order then [.opens] else [] := by
  induction order with
  | nil => rfl
  | cons e' order ih =>
      obtain ⟨hout, hnodup⟩ := List.nodup_cons.mp hnodup
      rw [List.map_cons, callbacks, List.filterMap_cons]
      by_cases heq : e' = e
      · subst heq
        have hrest := ih hnodup
        rw [if_neg hout] at hrest
        simp only [PluginEvent.callback, if_true, List.mem_cons, true_or]
        exact congrArg (Mark.opens :: ·) hrest
      · have hne : e ≠ e' := Ne.symm heq
        simp only [PluginEvent.callback, if_neg heq, List.mem_cons, hne, false_or]
        exact ih hnodup

theorem requests_disconnect (e' : endpoint) :
    ([.disconnect e'] : List (PluginEvent threads endpoint buffer)).filterMap
      (PluginEvent.request e) = if e' = e then [true] else [] := by
  rw [List.filterMap_cons, List.filterMap_nil, PluginEvent.request]
  split_ifs <;> rfl

theorem requests_onDisconnected (e' : endpoint) :
    ([.onDisconnected e'] : List (PluginEvent threads endpoint buffer)).filterMap
      (PluginEvent.request e) = if e' = e then [false] else [] := by
  rw [List.filterMap_cons, List.filterMap_nil, PluginEvent.request]
  split_ifs <;> rfl

theorem request_newClients (order : List endpoint) :
    (order.map .newClient : List (PluginEvent threads endpoint buffer)).filterMap
      (PluginEvent.request e) = [] := by
  rw [List.filterMap_eq_nil_iff]
  intro ev hev
  obtain ⟨e', -, rfl⟩ := List.mem_map.mp hev
  rfl

end History

/-! ## The status of one endpoint -/

/-- The stage of an endpoint's own disconnect, when that is being processed. -/
def TickStage.progress (e : endpoint) : TickStage endpoint → Option DisconnectStage
  | .disconnecting stage e' _ => if e' = e then some stage else none
  | _ => none

/-- **The table**: what an endpoint can be, given the stage of its disconnect. It has a vector (`data`),
is in `_endpoints` and in `_new_endpoints`, is connected and has a disconnect requested. -/
def Status (progress : Option DisconnectStage) (data registered isNew isConnected requested : Prop) :
    Prop :=
  match progress with
  | none | some .eraseData =>
    (data ∧ registered ∧ ¬ isNew ∧ isConnected) ∨
      (¬ data ∧ (registered ↔ isNew) ∧ ¬ isConnected ∧ ¬ requested)
  | some (.lock _) | some .eraseShared => ¬ data ∧ registered ∧ ¬ isNew ∧ isConnected
  | some (.unlock _) | some .callback => ¬ data ∧ (registered ↔ isNew) ∧ isConnected

/-- The status of an endpoint in a configuration. -/
def HasStatus (x : Config (CoreloopNetworkPlugin threads endpoint buffer)
    (PluginEvent threads endpoint buffer)) (e : endpoint) : Prop :=
  Status (x.state.stage.progress e) (e ∈ x.state.endpointData) (e ∈ x.state.endpoints)
    (e ∈ x.state.newEndpoints) (connected e x.history = true) (e ∈ x.state.requests)

/-- `disconnect` is called only while the endpoint is connected. -/
def WhileConnected (x : Config (CoreloopNetworkPlugin threads endpoint buffer)
    (PluginEvent threads endpoint buffer)) (a : PluginAction threads endpoint buffer) : Prop :=
  match a with
  | .disconnect e => connected e x.history = true
  | _ => True

/-- `disconnect` is called only while the endpoint is connected, and not again in the same session. -/
def OncePerSession (x : Config (CoreloopNetworkPlugin threads endpoint buffer)
    (PluginEvent threads endpoint buffer)) (a : PluginAction threads endpoint buffer) : Prop :=
  match a with
  | .disconnect e => connected e x.history = true ∧ asked e x.history = false
  | _ => True

/-- **The registry**, in a run with one disconnect for each session. -/
structure Registry (x : Config (CoreloopNetworkPlugin threads endpoint buffer)
    (PluginEvent threads endpoint buffer)) : Prop where
  sections : x.state.Sections
  running : x.state.stage ≠ .aborted
  nodup : x.state.requests.Nodup
  status : ∀ e, HasStatus x e
  inOrder : ∀ e, InOrder (connected e x.history) (callbacks e x.history)
  pending : ∀ e, asked e x.history = true ↔ e ∈ x.state.requests

namespace Registry

open CoreloopNetworkPlugin

variable {x : Config (CoreloopNetworkPlugin threads endpoint buffer)
  (PluginEvent threads endpoint buffer)}
variable {y : CoreloopNetworkPlugin threads endpoint buffer}
variable {a : PluginAction threads endpoint buffer}
variable {evs : List (PluginEvent threads endpoint buffer)}

/-- A client with a vector is registered and connected. -/
theorem of_mem_data (h : Registry x) {e : endpoint} (he : e ∈ x.state.endpointData) :
    e ∈ x.state.endpoints ∧ e ∉ x.state.newEndpoints ∧ connected e x.history = true ∧
      (x.state.stage.progress e = none ∨ x.state.stage.progress e = some .eraseData) := by
  have hstatus := h.status e
  unfold HasStatus Status at hstatus
  cases hprogress : x.state.stage.progress e with
  | none =>
      rw [hprogress] at hstatus
      obtain ⟨-, hin, hnew, hconn⟩ := hstatus.resolve_right fun hgone => hgone.1 he
      exact ⟨hin, hnew, hconn, Or.inl rfl⟩
  | some stage =>
      rw [hprogress] at hstatus
      cases stage with
      | eraseData =>
          obtain ⟨-, hin, hnew, hconn⟩ := hstatus.resolve_right fun hgone => hgone.1 he
          exact ⟨hin, hnew, hconn, Or.inr rfl⟩
      | _ => exact absurd he hstatus.1

/-- A step without callbacks keeps the callbacks in order. -/
theorem inOrder_of_silent (h : Registry x) (e : endpoint) (hsilent : callbacks e evs = []) :
    InOrder (connected e (x.history ++ evs)) (callbacks e (x.history ++ evs)) := by
  rw [connected, callbacks_append, hsilent, List.append_nil]
  exact h.inOrder e

/-- The assertion of the disconnect loop. -/
theorem registered_of_eraseShared (h : Registry x) {e : endpoint} {rest : List endpoint}
    (hstage : x.state.stage = .disconnecting .eraseShared e rest) : e ∈ x.state.endpoints := by
  have hstatus := h.status e
  simp only [HasStatus, hstage, TickStage.progress, if_true, Status] at hstatus
  exact hstatus.2.1

/-- No step fails an assertion. -/
theorem running_step (h : Registry x) (hf : Acts x.state a y evs) : y.stage ≠ .aborted := by
  cases hf with
  | newClients => simp
  | clientInputs => simp
  | pass stage hpasses =>
      generalize hbefore : x.state.stage = before at hpasses
      cases hpasses with
      | absent e rest habsent => exact absurd (h.registered_of_eraseShared hbefore) habsent
      | _ => simp
  | collect => simp
  | post => simp
  | eraseData => simp
  | lock => simp
  | eraseShared => simp
  | unlock => simp
  | callback e rest hstage => cases rest <;> simp [TickStage.resume]
  | _ => exact h.running

end Registry

/-- What a step does to the requested disconnects. -/
inductive RequestMove (x y : CoreloopNetworkPlugin threads endpoint buffer)
    (a : PluginAction threads endpoint buffer) (evs : List (PluginEvent threads endpoint buffer)) :
    Prop
  | stay (hrequests : y.requests = x.requests)
      (hsilent : ∀ e, evs.filterMap (PluginEvent.request e) = [])
  | ask (e : endpoint) (haction : a = .disconnect e) (hevs : evs = [.disconnect e])
      (hrequests : y.requests = x.requests ++ [e])
  | answer (e : endpoint) (hevs : evs = [.onDisconnected e]) (hrequests : x.requests = e :: y.requests)

namespace CoreloopNetworkPlugin

theorem Acts.requestMove {x y : CoreloopNetworkPlugin threads endpoint buffer}
    {a : PluginAction threads endpoint buffer} {evs : List (PluginEvent threads endpoint buffer)}
    (hf : Acts x a y evs) (hrunning : y.stage ≠ .aborted) : RequestMove x y a evs := by
  cases hf with
  | disconnect e hunlocked =>
      refine .ask e rfl rfl ?_
      rw [requests_of_unlocked hunlocked]
      exact requests_of_unlocked hunlocked
  | newClients order hstage hnodup horder =>
      exact .stay (by simp [requests, hstage]) fun e => request_newClients order
  | clientInputs e todo data hstage hmem hdata =>
      exact .stay (by simp [requests, hstage]) fun _ => rfl
  | pass stage hpasses =>
      refine .stay ?_ fun _ => rfl
      generalize hbefore : x.stage = before at hpasses
      cases hpasses with
      | absent => exact absurd rfl hrunning
      | enter e rest hrequests => simp [requests, hbefore, hrequests]
      | _ => simp [requests, hbefore]
  | collect idx hstage hfree =>
      exact .stay (by simp [requests, hstage, CoreloopNetworkPlugin.collect]) fun _ => rfl
  | post hstage => exact .stay (by simp [requests, hstage]) fun _ => rfl
  | eraseData e rest hstage => exact .stay (by simp [requests, hstage]) fun _ => rfl
  | lock i e rest hstage hfree => exact .stay (by simp [requests, hstage]) fun _ => rfl
  | eraseShared e rest hstage hin => exact .stay (by simp [requests, hstage]) fun _ => rfl
  | unlock i e rest hstage => exact .stay (by simp [requests, hstage]) fun _ => rfl
  | callback e rest hstage =>
      refine .answer e rfl ?_
      cases rest <;> simp [requests, hstage, TickStage.resume]
  | _ => exact .stay rfl fun _ => rfl

end CoreloopNetworkPlugin

namespace Registry

open CoreloopNetworkPlugin

variable {x : Config (CoreloopNetworkPlugin threads endpoint buffer)
  (PluginEvent threads endpoint buffer)}
variable {y : CoreloopNetworkPlugin threads endpoint buffer}
variable {a : PluginAction threads endpoint buffer}
variable {evs : List (PluginEvent threads endpoint buffer)}

theorem nodup_step (h : Registry x) (hmove : RequestMove x.state y a evs)
    (honce : OncePerSession x a) : y.requests.Nodup := by
  cases hmove with
  | stay hrequests hsilent => exact hrequests ▸ h.nodup
  | ask e haction hevs hrequests =>
      subst haction
      rw [hrequests, List.nodup_append]
      refine ⟨h.nodup, List.nodup_singleton e, ?_⟩
      -- a request that is still to be processed would have been asked for already
      intro e₁ he₁ e₂ he₂ heq
      rw [List.mem_singleton.mp he₂] at heq
      have hasked := (h.pending e).mpr (heq ▸ he₁)
      exact absurd (honce.2.symm.trans hasked) Bool.false_ne_true
  | answer e hevs hrequests =>
      have := h.nodup
      rw [hrequests] at this
      exact (List.nodup_cons.mp this).2

/-- The history tells which disconnects are still to be processed. -/
theorem pending_step (h : Registry x) (hmove : RequestMove x.state y a evs) (e : endpoint) :
    asked e (x.history ++ evs) = true ↔ e ∈ y.requests := by
  have hbefore := h.pending e
  cases hmove with
  | stay hrequests hsilent =>
      rw [asked_of_silent (hsilent e), hrequests]
      exact hbefore
  | ask e' haction hevs hrequests =>
      rw [hrequests, hevs, List.mem_append, List.mem_singleton]
      by_cases heq : e' = e
      · rw [asked_of_last ((requests_disconnect e').trans (if_pos heq))]
        exact iff_of_true rfl (Or.inr heq.symm)
      · rw [asked_of_silent ((requests_disconnect e').trans (if_neg heq)), hbefore]
        exact (or_iff_left (Ne.symm heq)).symm
  | answer e' hevs hrequests =>
      have hnodup := h.nodup
      rw [hrequests, List.nodup_cons] at hnodup
      rw [hrequests, List.mem_cons] at hbefore
      rw [hevs]
      by_cases heq : e' = e
      · -- the answered request was the only one for this endpoint
        rw [asked_of_last ((requests_onDisconnected e').trans (if_pos heq))]
        exact iff_of_false Bool.false_ne_true (heq ▸ hnodup.1)
      · rw [asked_of_silent ((requests_onDisconnected e').trans (if_neg heq)), hbefore]
        exact or_iff_right (Ne.symm heq)

/-- The callbacks of a step come when they may. -/
theorem inOrder_step (h : Registry x) (hf : Acts x.state a y evs) (e : endpoint) :
    InOrder (connected e (x.history ++ evs)) (callbacks e (x.history ++ evs)) := by
  have hbefore := h.inOrder e
  have hstatus := h.status e
  cases hf with
  | newClients order hstage hnodup horder =>
      by_cases hin : e ∈ order
      · have hcalls : callbacks e (order.map .newClient : List (PluginEvent threads endpoint buffer)) =
            [.opens] := by
          rw [callbacks_newClients hnodup, if_pos hin]
        have hclosed : connected e x.history = false := by
          simp only [HasStatus, hstage, TickStage.progress, Status] at hstatus
          rcases hstatus with ⟨-, -, hnew, -⟩ | ⟨-, -, hconn, -⟩
          · exact absurd ((horder e).mp hin) hnew
          · simpa using hconn
        rw [connected, callbacks_append, hcalls, Sessions.isOpen_opens]
        exact (hclosed ▸ hbefore).opens
      · apply h.inOrder_of_silent e
        rw [callbacks_newClients hnodup, if_neg hin]
  | clientInputs e' todo data hstage hmem hdata =>
      by_cases heq : e' = e
      · subst heq
        -- an endpoint that has a vector is connected
        have hopen := (h.of_mem_data (Finmap.mem_of_lookup_eq_some hdata)).2.2.1
        rw [connected, callbacks_append, callbacks_clientInputs, if_pos rfl, Sessions.isOpen_uses]
        rw [connected] at hopen hbefore
        rw [hopen] at hbefore ⊢
        exact hbefore.uses
      · apply h.inOrder_of_silent e
        rw [callbacks_clientInputs, if_neg heq]
  | callback e' rest hstage =>
      by_cases heq : e' = e
      · subst heq
        simp only [HasStatus, hstage, TickStage.progress, if_true, Status] at hstatus
        rw [connected, callbacks_append, callbacks_onDisconnected, if_pos rfl, Sessions.isOpen_closes]
        exact (hstatus.2.2 ▸ hbefore).closes
      · apply h.inOrder_of_silent e
        rw [callbacks_onDisconnected, if_neg heq]
  | _ => exact h.inOrder_of_silent e rfl

end Registry

/-! ## The table is kept -/

/-- The table reads its entries as propositions. -/
theorem Status.congr {progress : Option DisconnectStage} {d r n c q d' r' n' c' q' : Prop}
    (h : Status progress d r n c q) (hd : d' ↔ d) (hr : r' ↔ r) (hn : n' ↔ n) (hc : c' ↔ c)
    (hq : q' ↔ q) : Status progress d' r' n' c' q' := by
  rw [propext hd, propext hr, propext hn, propext hc, propext hq]
  exact h

namespace Registry

open CoreloopNetworkPlugin

variable {x : Config (CoreloopNetworkPlugin threads endpoint buffer)
  (PluginEvent threads endpoint buffer)}
variable {y : CoreloopNetworkPlugin threads endpoint buffer}
variable {a : PluginAction threads endpoint buffer}
variable {evs : List (PluginEvent threads endpoint buffer)}

theorem status_registerShared (h : Registry x) {i : Fin threads} {e : endpoint} {b : buffer}
    (hout : e ∉ x.state.endpoints) (e' : endpoint) :
    HasStatus ⟨{ x.state with
      localMutex := Function.update x.state.localMutex i (.packet e b (.store true))
      endpoints := insert e x.state.endpoints
      newEndpoints := insert e x.state.newEndpoints }, x.history ++ [.registered e]⟩ e' := by
  have hstatus := h.status e'
  have hconn : connected e' (x.history ++ [(.registered e : PluginEvent threads endpoint buffer)]) =
      connected e' x.history := connected_of_silent rfl
  by_cases heq : e' = e
  · subst heq
    have hnew : e' ∈ insert e' x.state.newEndpoints := Finset.mem_insert_self ..
    have hin : e' ∈ insert e' x.state.endpoints := Finset.mem_insert_self ..
    show Status (x.state.stage.progress e') _ _ _ _ _
    dsimp only
    rw [hconn]
    revert hstatus
    unfold HasStatus Status
    -- only a row with `registered ↔ isNew` has an endpoint that is not registered
    split
    · rintro (⟨-, hbefore, -⟩ | ⟨hdata, -, hrest⟩)
      · exact absurd hbefore hout
      · exact Or.inr ⟨hdata, iff_of_true hin hnew, hrest⟩
    · rintro (⟨-, hbefore, -⟩ | ⟨hdata, -, hrest⟩)
      · exact absurd hbefore hout
      · exact Or.inr ⟨hdata, iff_of_true hin hnew, hrest⟩
    · rintro ⟨-, hbefore, -⟩
      exact absurd hbefore hout
    · rintro ⟨-, hbefore, -⟩
      exact absurd hbefore hout
    · rintro ⟨hdata, -, hopen⟩
      exact ⟨hdata, iff_of_true hin hnew, hopen⟩
    · rintro ⟨hdata, -, hopen⟩
      exact ⟨hdata, iff_of_true hin hnew, hopen⟩
  · refine hstatus.congr Iff.rfl ?_ ?_ (by rw [hconn]) Iff.rfl
    · exact Finset.mem_insert.trans (or_iff_right heq)
    · exact Finset.mem_insert.trans (or_iff_right heq)

theorem status_disconnect (h : Registry x) {e : endpoint} (hopen : connected e x.history = true)
    (hunlocked : x.state.disconnectLocked = false) (e' : endpoint) :
    HasStatus ⟨{ x.state with pendingDisconnects := x.state.pendingDisconnects ++ [e] },
      x.history ++ [.disconnect e]⟩ e' := by
  have hstatus := h.status e'
  have hconn : connected e' (x.history ++ [(.disconnect e : PluginEvent threads endpoint buffer)]) =
      connected e' x.history := connected_of_silent rfl
  have hprogress : x.state.stage.progress e' = none := by
    unfold disconnectLocked at hunlocked
    cases hstage : x.state.stage with
    | disconnecting => simp [hstage] at hunlocked
    | _ => rfl
  have hafter : CoreloopNetworkPlugin.requests { x.state with
      pendingDisconnects := x.state.pendingDisconnects ++ [e] } =
        x.state.pendingDisconnects ++ [e] := requests_of_unlocked hunlocked
  rw [HasStatus, hprogress, requests_of_unlocked hunlocked] at hstatus
  rw [HasStatus, hconn]
  dsimp only
  rw [hafter, hprogress]
  rcases hstatus with hserved | ⟨hdata, hreg, hclosed, hquiet⟩
  · exact Or.inl hserved
  · refine Or.inr ⟨hdata, hreg, hclosed, ?_⟩
    -- an endpoint without a vector is not connected, so it is not the one
    rw [List.mem_append, List.mem_singleton]
    rintro (hpending | rfl)
    · exact hquiet hpending
    · exact hclosed hopen

theorem status_newClients (h : Registry x) {order : List endpoint} (hstage : x.state.stage = .idle)
    (hnodup : order.Nodup) (horder : ∀ e, e ∈ order ↔ e ∈ x.state.newEndpoints) (e : endpoint) :
    HasStatus ⟨{ x.state with
      endpointData := order.foldl (fun data e => data.emplace e []) x.state.endpointData
      newEndpoints := ∅
      stage := .accumulate 0 }, x.history ++ order.map .newClient⟩ e := by
  have hstatus := h.status e
  have hmem : e ∈ order.foldl (fun data e => data.emplace e []) x.state.endpointData ↔
      e ∈ order ∨ e ∈ x.state.endpointData := by
    rw [Finmap.mem_iff_lookup_ne_none, Finmap.lookup_foldl_emplace]
    by_cases hdata : e ∈ x.state.endpointData
    · simp [hdata, Finmap.mem_iff_lookup_ne_none.mp hdata]
    · simp [hdata, Finmap.lookup_eq_none.mpr hdata]
  have hrequests : x.state.requests = x.state.pendingDisconnects := by rw [requests, hstage]
  rw [HasStatus, hstage, hrequests] at hstatus
  have hnone : e ∉ (∅ : Finset endpoint) := Finset.notMem_empty e
  by_cases hin : e ∈ order
  · have hcalls : callbacks e (order.map .newClient : List (PluginEvent threads endpoint buffer)) =
        [.opens] := by
      rw [callbacks_newClients hnodup, if_pos hin]
    have hopen : connected e (x.history ++ order.map .newClient) = true := by
      rw [connected, callbacks_append, hcalls, Sessions.isOpen_opens]
    rcases hstatus with ⟨-, -, hnew, -⟩ | ⟨-, hreg, -, -⟩
    · exact absurd ((horder e).mp hin) hnew
    · exact Or.inl ⟨hmem.mpr (Or.inl hin), hreg.mpr ((horder e).mp hin), hnone, hopen⟩
  · have hconn : connected e (x.history ++ order.map .newClient) = connected e x.history := by
      apply connected_of_silent
      rw [callbacks_newClients hnodup, if_neg hin]
    refine Status.congr hstatus (hmem.trans (or_iff_right hin)) Iff.rfl ?_ (by rw [hconn]) Iff.rfl
    exact iff_of_false hnone (mt (horder e).mpr hin)

theorem status_eraseData (h : Registry x) {e : endpoint} {rest : List endpoint}
    (hstage : x.state.stage = .disconnecting .eraseData e rest) (e' : endpoint) :
    HasStatus ⟨{ x.state with
      endpointData := x.state.endpointData.erase e
      stage := .disconnecting (.lock 0) e rest }, x.history ++ []⟩ e' := by
  have hstatus := h.status e'
  have hrequests : x.state.requests = e :: rest := by rw [requests, hstage]
  rw [HasStatus, hstage, hrequests] at hstatus
  rw [List.append_nil]
  by_cases heq : e = e'
  · subst heq
    simp only [TickStage.progress, if_true, Status, HasStatus] at hstatus ⊢
    -- it is the head of the requested disconnects, so it is not the row without a request
    obtain ⟨-, hserved⟩ := hstatus.resolve_right fun hgone => hgone.2.2.2 List.mem_cons_self
    exact ⟨fun hin => (Finmap.mem_erase.mp hin).1 rfl, hserved⟩
  · simp only [HasStatus, TickStage.progress, if_neg heq] at hstatus ⊢
    refine hstatus.congr ?_ Iff.rfl Iff.rfl Iff.rfl Iff.rfl
    exact Finmap.mem_erase.trans (and_iff_right (Ne.symm heq))

theorem status_eraseShared (h : Registry x) {e : endpoint} {rest : List endpoint}
    (hstage : x.state.stage = .disconnecting .eraseShared e rest) (e' : endpoint) :
    HasStatus ⟨{ x.state with
      endpoints := x.state.endpoints.erase e
      stage := .disconnecting (.unlock 0) e rest }, x.history ++ []⟩ e' := by
  have hstatus := h.status e'
  have hrequests : x.state.requests = e :: rest := by rw [requests, hstage]
  rw [HasStatus, hstage, hrequests] at hstatus
  rw [List.append_nil]
  by_cases heq : e = e'
  · subst heq
    simp only [TickStage.progress, if_true, Status, HasStatus] at hstatus ⊢
    obtain ⟨hdata, -, hnew, hopen⟩ := hstatus
    exact ⟨hdata, iff_of_false (Finset.notMem_erase e _) hnew, hopen⟩
  · simp only [HasStatus, TickStage.progress, if_neg heq] at hstatus ⊢
    refine hstatus.congr Iff.rfl ?_ Iff.rfl Iff.rfl Iff.rfl
    exact Finset.mem_erase.trans (and_iff_right (Ne.symm heq))

theorem status_callback (h : Registry x) {e : endpoint} {rest : List endpoint}
    (hstage : x.state.stage = .disconnecting .callback e rest) (e' : endpoint) :
    HasStatus ⟨{ x.state with
      pendingDisconnects := if rest = [] then [] else x.state.pendingDisconnects
      stage := .resume rest }, x.history ++ [.onDisconnected e]⟩ e' := by
  have hstatus := h.status e'
  have hrequests : x.state.requests = e :: rest := by rw [requests, hstage]
  have hnodup := h.nodup
  rw [hrequests, List.nodup_cons] at hnodup
  rw [HasStatus, hstage, hrequests] at hstatus
  by_cases heq : e = e'
  · subst heq
    simp only [TickStage.progress, if_true, Status] at hstatus
    obtain ⟨hdata, hreg, -⟩ := hstatus
    have hclosed : ¬ connected e (x.history ++ [.onDisconnected e]) = true := by
      rw [connected, callbacks_append, callbacks_onDisconnected, if_pos rfl, Sessions.isOpen_closes]
      exact Bool.false_ne_true
    cases rest with
    | nil => exact Or.inr ⟨hdata, hreg, hclosed, List.not_mem_nil⟩
    | cons e₁ rest =>
        -- the next disconnect of the loop is another endpoint's
        have hne : e₁ ≠ e := fun heq => hnodup.1 (heq ▸ List.mem_cons_self)
        simp only [HasStatus, TickStage.progress, TickStage.resume, if_neg hne]
        exact Or.inr ⟨hdata, hreg, hclosed, hnodup.1⟩
  · have hconn : connected e' (x.history ++ [(.onDisconnected e : PluginEvent threads endpoint buffer)]) =
        connected e' x.history := by
      apply connected_of_silent
      rw [callbacks_onDisconnected, if_neg heq]
    simp only [TickStage.progress, if_neg heq] at hstatus
    have hafter := hstatus.congr Iff.rfl Iff.rfl Iff.rfl (Bool.coe_iff_coe.mpr hconn)
      (List.mem_cons.trans (or_iff_right (Ne.symm heq))).symm
    cases rest with
    | nil => exact hafter
    | cons e₁ rest =>
        by_cases hfirst : e₁ = e'
        · simp only [HasStatus, TickStage.progress, TickStage.resume, if_pos hfirst]
          exact hafter
        · simp only [HasStatus, TickStage.progress, TickStage.resume, if_neg hfirst]
          exact hafter

/-- **Every unit keeps the table.** -/
theorem status_step (h : Registry x) (hf : Acts x.state a y evs) (honce : OncePerSession x a)
    (e : endpoint) : HasStatus ⟨y, x.history ++ evs⟩ e := by
  have hstatus := h.status e
  have hconn : connected e (x.history ++ ([] : List (PluginEvent threads endpoint buffer))) =
      connected e x.history := connected_of_silent rfl
  cases hf with
  | registerShared i e' b hmutex hout => exact h.status_registerShared hout e
  | disconnect e' hunlocked => exact h.status_disconnect honce.1 hunlocked e
  | newClients order hstage hnodup horder => exact h.status_newClients hstage hnodup horder e
  | clientInputs e' todo data hstage hmem hdata =>
      rw [HasStatus, hstage, requests, hstage] at hstatus
      refine Status.congr hstatus ?_ Iff.rfl Iff.rfl ?_ Iff.rfl
      · refine Finmap.mem_insert.trans (or_iff_right_of_imp ?_)
        rintro rfl
        exact Finmap.mem_of_lookup_eq_some hdata
      · by_cases heq : e' = e
        · subst heq
          rw [connected, callbacks_append, callbacks_clientInputs, if_pos rfl, Sessions.isOpen_uses,
            connected]
        · rw [connected_of_silent (by rw [callbacks_clientInputs, if_neg heq])]
  | pass stage hpasses =>
      unfold HasStatus requests at hstatus ⊢
      generalize hbefore : x.state.stage = before at hpasses hstatus
      rw [hconn]
      cases hpasses with
      | enter e' rest hrequests =>
          rw [hrequests] at hstatus
          simp only [TickStage.progress] at hstatus ⊢
          split_ifs
          all_goals exact hstatus
      | absent e' rest habsent => exact absurd (h.registered_of_eraseShared hbefore) habsent
      | locked j e' rest hj =>
          simp only [TickStage.progress] at hstatus ⊢
          split_ifs at hstatus ⊢
          all_goals exact hstatus
      | unlocked j e' rest hj =>
          simp only [TickStage.progress] at hstatus ⊢
          split_ifs at hstatus ⊢
          all_goals exact hstatus
      | _ => exact hstatus
  | collect idx hstage hfree =>
      rw [HasStatus, hstage, requests, hstage] at hstatus
      exact Status.congr hstatus Finmap.mem_mapVals Iff.rfl Iff.rfl (by rw [hconn]) Iff.rfl
  | post hstage =>
      rw [HasStatus, hstage, requests, hstage] at hstatus
      exact Status.congr hstatus Iff.rfl Iff.rfl Iff.rfl
        (by rw [connected_of_silent rfl]) Iff.rfl
  | eraseData e' rest hstage => exact h.status_eraseData hstage e
  | lock j e' rest hstage hfree =>
      rw [HasStatus, hstage, requests, hstage] at hstatus
      rw [HasStatus, hconn]
      simp only [TickStage.progress] at hstatus ⊢
      split_ifs at hstatus ⊢
      all_goals exact hstatus
  | eraseShared e' rest hstage hin => exact h.status_eraseShared hstage e
  | unlock j e' rest hstage =>
      rw [HasStatus, hstage, requests, hstage] at hstatus
      rw [HasStatus, connected_of_silent rfl]
      simp only [TickStage.progress] at hstatus ⊢
      split_ifs at hstatus ⊢
      all_goals exact hstatus
  | callback e' rest hstage => exact h.status_callback hstage e
  | _ => exact Status.congr hstatus Iff.rfl Iff.rfl Iff.rfl (by rw [connected_of_silent rfl]) Iff.rfl

/-- **Every step of a run with one disconnect for each session keeps the registry.** -/
theorem next {x' : Config (CoreloopNetworkPlugin threads endpoint buffer)
    (PluginEvent threads endpoint buffer)} (h : Registry x) (honce : OncePerSession x a)
    (hnext : step.next x a = some x') : Registry x' := by
  obtain ⟨y, evs, hstep, rfl⟩ := Step.next_eq_some.mp hnext
  have hf := acts_of_step h.sections.toLocals hstep
  have hrunning := h.running_step hf
  have hmove := hf.requestMove hrunning
  exact {
    sections := h.sections.step hstep
    running := hrunning
    nodup := h.nodup_step hmove honce
    status := h.status_step hf honce
    inOrder := h.inOrder_step hf
    pending := h.pending_step hmove }

theorem start : Registry (CoreloopNetworkPlugin.start :
    Config (CoreloopNetworkPlugin threads endpoint buffer) (PluginEvent threads endpoint buffer)) where
  sections := sections_new
  running := by simp [CoreloopNetworkPlugin.start, new]
  nodup := List.nodup_nil
  status e := Or.inr ⟨Finmap.notMem_empty, Iff.rfl, Bool.false_ne_true, List.not_mem_nil⟩
  inOrder _ := Sessions.inOrder_nil
  pending _ := iff_of_false Bool.false_ne_true List.not_mem_nil

/-- The registry holds in every run with one disconnect for each session. -/
theorem of_run {visited : List (Config (CoreloopNetworkPlugin threads endpoint buffer)
    (PluginEvent threads endpoint buffer) × PluginAction threads endpoint buffer)}
    (hrun : Run step CoreloopNetworkPlugin.start visited x)
    (honce : Throughout OncePerSession visited) : Registry x :=
  hrun.invariant Registry OncePerSession (fun h hguard hnext => h.next hguard hnext) honce .start

end Registry

/-! ## The life cycle -/

/-- An assertion has failed. -/
def TickStage.isAborted : TickStage endpoint → Bool
  | .aborted => true
  | _ => false

/-- **The life cycle of every client**: its callbacks are an initial part of sessions
`new_client client_inputs* on_disconnected`; a disconnect that was requested is still to be processed or
has had its `on_disconnected`; no assertion has failed. -/
structure LifeCycle (x : Config (CoreloopNetworkPlugin threads endpoint buffer)
    (PluginEvent threads endpoint buffer)) : Prop where
  inOrder : ∀ e, ∃ ks : List Nat, callbacks e x.history <+: ks.flatMap session
  answered : ∀ e, asked e x.history = true → e ∈ x.state.requests
  asserted : x.state.stage.isAborted = false

/-- With one disconnect for each session, every client has its life cycle. -/
theorem life_cycle_of_once_per_session
    {visited : List (Config (CoreloopNetworkPlugin threads endpoint buffer)
      (PluginEvent threads endpoint buffer) × PluginAction threads endpoint buffer)}
    {x : Config (CoreloopNetworkPlugin threads endpoint buffer)
      (PluginEvent threads endpoint buffer)}
    (hrun : Run CoreloopNetworkPlugin.step CoreloopNetworkPlugin.start visited x)
    (honce : Throughout OncePerSession visited) : LifeCycle x := by
  have hregistry := Registry.of_run hrun honce
  exact {
    inOrder := fun e => (hregistry.inOrder e).isPrefix
    answered := fun e => (hregistry.pending e).mp
    asserted := by
      have hrunning := hregistry.running
      cases hstage : x.state.stage with
      | aborted => exact absurd hstage hrunning
      | _ => rfl }

instance (x : Config (CoreloopNetworkPlugin threads endpoint buffer)
    (PluginEvent threads endpoint buffer)) (a : PluginAction threads endpoint buffer) :
    Decidable (WhileConnected x a) :=
  match a with
  | .disconnect _ => inferInstanceAs (Decidable (_ = true))
  | .handleNetworkPacket .. | .lockLocal _ | .registerShared _ | .storeLocal _ | .newClients _
  | .clientInputs _ | .tick => isTrue trivial

instance (x : Config (CoreloopNetworkPlugin threads endpoint buffer)
    (PluginEvent threads endpoint buffer)) (a : PluginAction threads endpoint buffer) :
    Decidable (OncePerSession x a) :=
  match a with
  | .disconnect _ => inferInstanceAs (Decidable (_ ∧ _))
  | .handleNetworkPacket .. | .lockLocal _ | .registerShared _ | .storeLocal _ | .newClients _
  | .clientInputs _ | .tick => isTrue trivial

/-- Two requests for one session: the first one erases the endpoint, the second one does not find it. -/
theorem second_disconnect_fails_assertion :
    ∃ (visited : List (Config (CoreloopNetworkPlugin 1 Nat Nat) (PluginEvent 1 Nat Nat) ×
        PluginAction 1 Nat Nat))
      (x : Config (CoreloopNetworkPlugin 1 Nat Nat) (PluginEvent 1 Nat Nat)),
      Run CoreloopNetworkPlugin.step CoreloopNetworkPlugin.start visited x ∧
        Throughout WhileConnected visited ∧ ¬ LifeCycle x := by
  let actions : List (PluginAction 1 Nat Nat) :=
    [.handleNetworkPacket 0 7 100, .lockLocal 0, .registerShared 0, .storeLocal 0, .newClients [7],
      .tick, .tick, .clientInputs 7, .disconnect 7, .disconnect 7] ++ List.replicate 14 .tick
  obtain ⟨x, hx⟩ := Option.isSome_iff_exists.mp (show (exec CoreloopNetworkPlugin.step
    CoreloopNetworkPlugin.start actions).isSome = true by decide)
  refine ⟨_, x, run_trace hx, by decide, fun hlife => ?_⟩
  have haborted : (some x).map (fun x => x.state.stage.isAborted) = some true := by
    rw [← hx]
    decide
  exact absurd (hlife.asserted.symm.trans (Option.some.inj haborted)) Bool.false_ne_true

/-- A session with one input, closed by its only disconnect. -/
theorem life_cycle_of_once_per_session_one_client :
    ∃ (visited : List (Config (CoreloopNetworkPlugin 1 Nat Nat) (PluginEvent 1 Nat Nat) ×
        PluginAction 1 Nat Nat))
      (x : Config (CoreloopNetworkPlugin 1 Nat Nat) (PluginEvent 1 Nat Nat)),
      Run CoreloopNetworkPlugin.step CoreloopNetworkPlugin.start visited x ∧
        callbacks 7 x.history = [.opens, .uses, .closes] ∧ LifeCycle x := by
  let actions : List (PluginAction 1 Nat Nat) :=
    [.handleNetworkPacket 0 7 100, .lockLocal 0, .registerShared 0, .storeLocal 0, .newClients [7],
      .tick, .tick, .clientInputs 7, .disconnect 7] ++ List.replicate 10 .tick
  obtain ⟨x, hx⟩ := Option.isSome_iff_exists.mp (show (exec CoreloopNetworkPlugin.step
    CoreloopNetworkPlugin.start actions).isSome = true by decide)
  have hcalls : (some x).map (fun x => callbacks 7 x.history) = some [.opens, .uses, .closes] := by
    rw [← hx]
    decide
  have hrun := run_trace hx
  exact ⟨_, x, hrun, Option.some.inj hcalls, life_cycle_of_once_per_session hrun (by decide)⟩

end Sekkeizu
