/-
# Sekkeizu.Network.Delivery — what a client gets in a session, and in which order.

For a network thread a session of an endpoint begins when a packet task inserts the endpoint into
`_endpoints` and ends when its disconnect releases the mutex of that thread. The mutexes are released one
after the other, so a thread that has its mutex back can open the next session before another thread has
ended this one: the sessions of one thread overlap. What saves the order is that a thread neither stores
nor serves in the overlap (`Delivering.one_open`), because `tick` still holds its mutex.

`Delivering` is the invariant: in a session that is over, what was handed over is an initial part of what
was stored; in the one that is not, what was stored is what was handed over, what the client has and what
the thread has pending, in this order.
-/
import Sekkeizu.Network.Lifecycle
import Sekkeizu.Network.Buffers
import Sekkeizu.Semantics.Intervals


namespace Sekkeizu

open PartialSystem
open Intervals (interval Covered interval_flatMap_silent interval_flatMap_inside)

variable {threads : Nat} {endpoint buffer : Type*} [DecidableEq endpoint]

/-! ## The sessions of one thread -/

/-- The event is the insertion of this endpoint into `_endpoints`. -/
def PluginEvent.registers (e : endpoint) : PluginEvent threads endpoint buffer → Bool
  | .registered e' => e' = e
  | _ => false

/-- How many sessions of the endpoint have begun. -/
def begun (e : endpoint) (history : List (PluginEvent threads endpoint buffer)) : Nat :=
  history.countP (PluginEvent.registers e)

/-- How many sessions of the endpoint have ended for the thread. -/
def ended (i : Fin threads) (e : endpoint) (history : List (PluginEvent threads endpoint buffer)) :
    Nat :=
  history.countP (PluginEvent.releases i e)

/-- What the thread stored for the endpoint in its `k`-th session. -/
def storedIn (i : Fin threads) (e : endpoint) (k : Nat)
    (history : List (PluginEvent threads endpoint buffer)) : List buffer :=
  (interval (PluginEvent.registers e) (PluginEvent.releases i e) k history).flatMap
    (PluginEvent.stored i e)

/-- What `client_inputs` got from the thread for the endpoint in its `k`-th session. -/
def handedIn (i : Fin threads) (e : endpoint) (k : Nat)
    (history : List (PluginEvent threads endpoint buffer)) : List buffer :=
  (interval (PluginEvent.registers e) (PluginEvent.releases i e) k history).flatMap
    (PluginEvent.handed i e)

instance (stage : TickStage endpoint) (i : Nat) (e : endpoint) : Decidable (stage.Clearing i e) :=
  match stage with
  | .disconnecting (.unlock j) e' _ => inferInstanceAs (Decidable (e' = e ∧ j ≤ i))
  | .disconnecting .eraseData .. | .disconnecting (.lock _) .. | .disconnecting .eraseShared ..
  | .disconnecting .callback .. | .idle | .accumulate _ | .inputs _ | .post | .disconnects
  | .aborted => isFalse id

namespace CoreloopNetworkPlugin

variable {x y : CoreloopNetworkPlugin threads endpoint buffer}
variable {a : PluginAction threads endpoint buffer}
variable {evs : List (PluginEvent threads endpoint buffer)}

/-- The sessions of a thread that are open: one for an endpoint that is registered, and one while its
erasure has not come to the thread. -/
def openSessions (x : CoreloopNetworkPlugin threads endpoint buffer) (i : Fin threads) (e : endpoint) :
    Nat :=
  (if e ∈ x.endpoints then 1 else 0) + if x.stage.Clearing i e then 1 else 0

theorem registers_newClients (order : List endpoint) (e : endpoint) :
    begun e (order.map .newClient : List (PluginEvent threads endpoint buffer)) = 0 := by
  rw [begun, List.countP_eq_zero]
  intro ev hev
  obtain ⟨e', -, rfl⟩ := List.mem_map.mp hev
  exact Bool.false_ne_true

theorem releases_newClients (order : List endpoint) (i : Fin threads) (e : endpoint) :
    ended i e (order.map .newClient : List (PluginEvent threads endpoint buffer)) = 0 := by
  rw [ended, List.countP_eq_zero]
  intro ev hev
  obtain ⟨e', -, rfl⟩ := List.mem_map.mp hev
  exact Bool.false_ne_true

/-- A unit opens and closes the sessions it says. -/
theorem Acts.openSessions_add (hf : Acts x a y evs) (i : Fin threads) (e : endpoint) :
    y.openSessions i e + ended i e evs = x.openSessions i e + begun e evs := by
  cases hf with
  | registerShared j e' b hmutex hout =>
      by_cases heq : e' = e
      · subst heq
        simp [openSessions, begun, ended, PluginEvent.registers, PluginEvent.releases, hout]
        omega
      · have hiff : e ∈ insert e' x.endpoints ↔ e ∈ x.endpoints :=
          Finset.mem_insert.trans (or_iff_right (Ne.symm heq))
        simp [openSessions, begun, ended, PluginEvent.registers, PluginEvent.releases, heq,
          hiff]
  | newClients order hstage hnodup horder =>
      rw [registers_newClients, releases_newClients]
      simp [openSessions, hstage, TickStage.Clearing]
  | clientInputs e' todo data hstage hmem hdata =>
      simp [openSessions, begun, ended, PluginEvent.registers, PluginEvent.releases, hstage,
        TickStage.Clearing]
  | pass stage hpasses =>
      generalize hbefore : x.stage = before at hpasses
      cases hpasses with
      | unlocked j e' rest hj =>
          have hout : ¬ j ≤ (i : Nat) := by omega
          simp [openSessions, begun, ended, hbefore, TickStage.Clearing, hout]
      | _ => simp [openSessions, begun, ended, hbefore, TickStage.Clearing]
  | collect idx hstage hfree =>
      simp [openSessions, begun, ended, hstage, TickStage.Clearing,
        CoreloopNetworkPlugin.collect]
  | post hstage =>
      simp [openSessions, begun, ended, PluginEvent.registers, PluginEvent.releases, hstage,
        TickStage.Clearing]
  | eraseData e' rest hstage =>
      simp [openSessions, begun, ended, hstage, TickStage.Clearing]
  | lock j e' rest hstage hfree =>
      simp [openSessions, begun, ended, hstage, TickStage.Clearing]
  | eraseShared e' rest hstage hin =>
      by_cases heq : e' = e
      · subst heq
        simp [openSessions, begun, ended, hstage, TickStage.Clearing, hin]
      · have hiff : e ∈ x.endpoints.erase e' ↔ e ∈ x.endpoints :=
          Finset.mem_erase.trans (and_iff_right (Ne.symm heq))
        simp [openSessions, begun, ended, hstage, TickStage.Clearing, hiff, heq]
  | unlock j e' rest hstage =>
      by_cases heq : e' = e
      · subst heq
        by_cases hij : j = i
        · subst hij
          simp [openSessions, begun, ended, PluginEvent.registers, PluginEvent.releases,
            hstage, TickStage.Clearing]
        · have hle : (j : Nat) + 1 ≤ i ↔ (j : Nat) ≤ i := by
            have hne : (j : Nat) ≠ i := fun h => hij (Fin.ext h)
            omega
          simp [openSessions, begun, ended, PluginEvent.registers, PluginEvent.releases,
            hstage, TickStage.Clearing, hij, hle]
      · simp [openSessions, begun, ended, PluginEvent.registers, PluginEvent.releases,
          hstage, TickStage.Clearing, heq]
  | callback e' rest hstage =>
      cases rest <;> simp [openSessions, begun, ended, PluginEvent.registers,
        PluginEvent.releases, hstage, TickStage.Clearing, TickStage.resume]
  | _ =>
      simp [openSessions, begun, ended, PluginEvent.registers, PluginEvent.releases]

end CoreloopNetworkPlugin

/-! ## The invariant -/

/-- **In-order delivery**, with the sessions counted. -/
structure Delivering (x : Config (CoreloopNetworkPlugin threads endpoint buffer)
    (PluginEvent threads endpoint buffer)) : Prop where
  registry : Registry x
  counted : ∀ i e, begun e x.history = ended i e x.history + x.state.openSessions i e
  storedCovered : ∀ i e, Covered (PluginEvent.registers e) (PluginEvent.releases i e)
    (PluginEvent.stored i e) x.history
  handedCovered : ∀ i e, Covered (PluginEvent.registers e) (PluginEvent.releases i e)
    (PluginEvent.handed i e) x.history
  earlier : ∀ i e k, k < ended i e x.history →
    handedIn i e k x.history <+: storedIn i e k x.history
  current : ∀ i e, storedIn i e (ended i e x.history) x.history =
    handedIn i e (ended i e x.history) x.history ++ (x.state.dataOf i e ++ x.state.pendingOf i e)

namespace Delivering

open CoreloopNetworkPlugin

variable {x : Config (CoreloopNetworkPlugin threads endpoint buffer)
  (PluginEvent threads endpoint buffer)}
variable {y : CoreloopNetworkPlugin threads endpoint buffer}
variable {a : PluginAction threads endpoint buffer}
variable {evs : List (PluginEvent threads endpoint buffer)}

/-- One session is open when the endpoint is registered and not being cleared for the thread. -/
theorem one_open (h : Delivering x) {i : Fin threads} {e : endpoint} (hin : e ∈ x.state.endpoints)
    (hclear : ¬ x.state.stage.Clearing i e) : begun e x.history = ended i e x.history + 1 := by
  rw [h.counted i e, openSessions, if_pos hin, if_neg hclear]

theorem one_open_of_storing (h : Delivering x) {i : Fin threads} {e : endpoint} {b : buffer}
    {fresh : Bool} (hmutex : x.state.localMutex i = .packet e b (.store fresh)) :
    begun e x.history = ended i e x.history + 1 := by
  apply h.one_open (h.registry.sections.storing hmutex)
  intro hclear
  -- while the erasure has not come to the thread, `tick` holds the mutex that the task holds
  have htick := h.registry.sections.holds (TickStage.holds_of_clearing hclear)
  exact absurd (hmutex.symm.trans htick) (by simp)

theorem one_open_of_serving (h : Delivering x) {e : endpoint} (hdata : e ∈ x.state.endpointData)
    (i : Fin threads) : begun e x.history = ended i e x.history + 1 := by
  obtain ⟨hin, -, -, hprogress⟩ := h.registry.of_mem_data hdata
  apply h.one_open hin
  intro hclear
  cases hstage : x.state.stage with
  | disconnecting stage e' rest =>
      rw [hstage] at hclear hprogress
      cases stage with
      | unlock j =>
          rw [TickStage.progress, if_pos hclear.1] at hprogress
          simp at hprogress
      | _ => exact hclear.elim
  | _ =>
      rw [hstage] at hclear
      exact hclear.elim

/-- The client has no vector when its disconnect releases the mutexes. -/
theorem dataOf_of_unlock (h : Delivering x) {j : Nat} {e : endpoint} {rest : List endpoint}
    (hstage : x.state.stage = .disconnecting (.unlock j) e rest) (i : Fin threads) :
    x.state.dataOf i e = [] := by
  have hstatus := h.registry.status e
  rw [HasStatus, hstage, TickStage.progress, if_pos rfl] at hstatus
  exact dataOf_eq_nil hstatus.1 i

/-! ## One step -/

/-- What the invariant says of one thread and one client. -/
def Tracks (y : CoreloopNetworkPlugin threads endpoint buffer)
    (history : List (PluginEvent threads endpoint buffer)) (i : Fin threads) (e : endpoint) : Prop :=
  (Covered (PluginEvent.registers e) (PluginEvent.releases i e) (PluginEvent.stored i e) history ∧
    Covered (PluginEvent.registers e) (PluginEvent.releases i e) (PluginEvent.handed i e) history) ∧
  (∀ k, k < ended i e history → handedIn i e k history <+: storedIn i e k history) ∧
  storedIn i e (ended i e history) history =
    handedIn i e (ended i e history) history ++ (y.dataOf i e ++ y.pendingOf i e)

theorem ended_append (i : Fin threads) (e : endpoint)
    (h₁ h₂ : List (PluginEvent threads endpoint buffer)) :
    ended i e (h₁ ++ h₂) = ended i e h₁ + ended i e h₂ := List.countP_append

theorem begun_append (e : endpoint) (h₁ h₂ : List (PluginEvent threads endpoint buffer)) :
    begun e (h₁ ++ h₂) = begun e h₁ + begun e h₂ := List.countP_append

theorem tracks_same (h : Delivering x) {i : Fin threads} {e : endpoint}
    (hsilent : ∀ ev ∈ evs, ev.stored i e = [] ∧ ev.handed i e = [] ∧ ev.releases i e = false)
    (hheld : y.dataOf i e ++ y.pendingOf i e = x.state.dataOf i e ++ x.state.pendingOf i e) :
    Tracks y (x.history ++ evs) i e := by
  have hended : ended i e (x.history ++ evs) = ended i e x.history := by
    have hzero : ended i e evs = 0 := by
      rw [ended, List.countP_eq_zero]
      intro ev hev
      rw [(hsilent ev hev).2.2]
      exact Bool.false_ne_true
    rw [ended_append, hzero, Nat.add_zero]
  have hstored : ∀ k, storedIn i e k (x.history ++ evs) = storedIn i e k x.history :=
    fun k => interval_flatMap_silent k _ fun ev hev => (hsilent ev hev).1
  have hhanded : ∀ k, handedIn i e k (x.history ++ evs) = handedIn i e k x.history :=
    fun k => interval_flatMap_silent k _ fun ev hev => (hsilent ev hev).2.1
  refine ⟨⟨(h.storedCovered i e).silent fun ev hev => (hsilent ev hev).1,
    (h.handedCovered i e).silent fun ev hev => (hsilent ev hev).2.1⟩, ?_, ?_⟩
  · intro k hk
    rw [hended] at hk
    rw [hstored, hhanded]
    exact h.earlier i e k hk
  · rw [hended, hstored, hhanded, hheld]
    exact h.current i e

theorem tracks_stored (h : Delivering x) {i : Fin threads} {e : endpoint} {b : buffer} {fresh : Bool}
    (hmutex : x.state.localMutex i = .packet e b (.store fresh))
    (hdata : y.dataOf i e = x.state.dataOf i e)
    (hpending : y.pendingOf i e = x.state.pendingOf i e ++ [b]) :
    Tracks y (x.history ++ [.received i e b]) i e := by
  have hopen := h.one_open_of_storing hmutex
  have hended : ended i e (x.history ++ [(.received i e b : PluginEvent threads endpoint buffer)]) =
      ended i e x.history := ended_append ..
  have hout : (PluginEvent.received i e b : PluginEvent threads endpoint buffer).stored i e = [b] := by
    simp [PluginEvent.stored]
  have hstored : ∀ k, storedIn i e k (x.history ++ [.received i e b]) =
      storedIn i e k x.history ++ if k = ended i e x.history then [b] else [] := by
    intro k
    rw [storedIn, interval_flatMap_inside k hopen, hout]
    rfl
  have hhanded : ∀ k, handedIn i e k (x.history ++ [.received i e b]) = handedIn i e k x.history := by
    intro k
    apply interval_flatMap_silent
    intro ev hev
    rw [List.mem_singleton.mp hev]
    rfl
  refine ⟨⟨(h.storedCovered i e).inside hopen _, (h.handedCovered i e).inside hopen _⟩, ?_, ?_⟩
  · intro k hk
    rw [hended] at hk
    rw [hstored, hhanded, if_neg (Nat.ne_of_lt hk), List.append_nil]
    exact h.earlier i e k hk
  · rw [hended, hstored, hhanded, if_pos rfl, h.current i e, hdata, hpending]
    simp only [List.append_assoc]

theorem tracks_handed (h : Delivering x) {i : Fin threads} {e : endpoint}
    {data : List (Fin threads × buffer)} (hlookup : x.state.endpointData.lookup e = some data)
    (hdata : y.dataOf i e = []) (hpending : y.pendingOf i e = x.state.pendingOf i e) :
    Tracks y (x.history ++ [.clientInputs e data]) i e := by
  have hopen := h.one_open_of_serving (Finmap.mem_of_lookup_eq_some hlookup) i
  have hended : ended i e (x.history ++ [(.clientInputs e data : PluginEvent threads endpoint buffer)]) =
      ended i e x.history := ended_append ..
  have hout : (PluginEvent.clientInputs e data : PluginEvent threads endpoint buffer).handed i e =
      x.state.dataOf i e := by
    rw [dataOf_of_lookup hlookup, PluginEvent.handed, if_pos rfl]
  have hhanded : ∀ k, handedIn i e k (x.history ++ [.clientInputs e data]) =
      handedIn i e k x.history ++ if k = ended i e x.history then x.state.dataOf i e else [] := by
    intro k
    rw [handedIn, interval_flatMap_inside k hopen, hout]
    rfl
  have hstored : ∀ k, storedIn i e k (x.history ++ [.clientInputs e data]) =
      storedIn i e k x.history := by
    intro k
    apply interval_flatMap_silent
    intro ev hev
    rw [List.mem_singleton.mp hev]
    rfl
  refine ⟨⟨(h.storedCovered i e).inside hopen _, (h.handedCovered i e).inside hopen _⟩, ?_, ?_⟩
  · intro k hk
    rw [hended] at hk
    rw [hstored, hhanded, if_neg (Nat.ne_of_lt hk), List.append_nil]
    exact h.earlier i e k hk
  · rw [hended, hstored, hhanded, if_pos rfl, h.current i e, hdata, hpending]
    simp only [List.append_assoc, List.nil_append]

theorem tracks_released (h : Delivering x) {i : Fin threads} {e : endpoint} {rest : List endpoint}
    (hstage : x.state.stage = .disconnecting (.unlock i) e rest)
    (hdata : y.dataOf i e = x.state.dataOf i e) (hpending : y.pendingOf i e = []) :
    Tracks y (x.history ++ [.released i e]) i e := by
  have hended : ended i e (x.history ++ [(.released i e : PluginEvent threads endpoint buffer)]) =
      ended i e x.history + 1 := by
    rw [ended_append]
    simp [ended, PluginEvent.releases]
  have hsilent : ∀ ev ∈ [(.released i e : PluginEvent threads endpoint buffer)],
      ev.stored i e = [] ∧ ev.handed i e = [] := by
    intro ev hev
    rw [List.mem_singleton.mp hev]
    exact ⟨rfl, rfl⟩
  have hstored : ∀ k, storedIn i e k (x.history ++ [.released i e]) = storedIn i e k x.history :=
    fun k => interval_flatMap_silent k _ fun ev hev => (hsilent ev hev).1
  have hhanded : ∀ k, handedIn i e k (x.history ++ [.released i e]) = handedIn i e k x.history :=
    fun k => interval_flatMap_silent k _ fun ev hev => (hsilent ev hev).2
  refine ⟨⟨(h.storedCovered i e).silent fun ev hev => (hsilent ev hev).1,
    (h.handedCovered i e).silent fun ev hev => (hsilent ev hev).2⟩, ?_, ?_⟩
  · intro k hk
    rw [hended] at hk
    rw [hstored, hhanded]
    -- the session that ends here leaves behind what is still pending
    rcases Nat.lt_succ_iff_lt_or_eq.mp hk with hearlier | rfl
    · exact h.earlier i e k hearlier
    · rw [h.current i e]
      exact List.prefix_append _ _
  · -- the next session of the thread has seen no event of its own yet
    have hnext : ended i e x.history < ended i e x.history + 1 := Nat.lt_succ_self _
    rw [hended, hstored, hhanded, hpending, hdata, h.dataOf_of_unlock hstage i,
      show storedIn i e (ended i e x.history + 1) x.history = [] from
        (h.storedCovered i e).later_eq_nil hnext,
      show handedIn i e (ended i e x.history + 1) x.history = [] from
        (h.handedCovered i e).later_eq_nil hnext]
    rfl

theorem tracks_step (h : Delivering x) (hf : Acts x.state a y evs) (i : Fin threads) (e : endpoint) :
    Tracks y (x.history ++ evs) i e := by
  cases hf.bufferMove h.registry.sections i e with
  | same hsilent hheld => exact h.tracks_same hsilent hheld
  | stored b fresh hevs hmutex hdata hpending =>
      rw [hevs]
      exact h.tracks_stored hmutex hdata hpending
  | handed data hevs hlookup hdata hpending =>
      rw [hevs]
      exact h.tracks_handed hlookup hdata hpending
  | released rest haction hevs hstage hdata hpending =>
      rw [hevs]
      exact h.tracks_released hstage hdata hpending

/-- **Every step of a run with one disconnect for each session keeps the order.** -/
theorem next {x' : Config (CoreloopNetworkPlugin threads endpoint buffer)
    (PluginEvent threads endpoint buffer)} (h : Delivering x) (honce : OncePerSession x a)
    (hnext : step.next x a = some x') : Delivering x' := by
  have hregistry := h.registry.next honce hnext
  obtain ⟨y, evs, hstep, rfl⟩ := Step.next_eq_some.mp hnext
  have hf := acts_of_step h.registry.sections.toLocals hstep
  have htracks := h.tracks_step hf
  refine ⟨hregistry, ?_, fun i e => (htracks i e).1.1, fun i e => (htracks i e).1.2,
    fun i e => (htracks i e).2.1, fun i e => (htracks i e).2.2⟩
  intro i e
  have hcount := hf.openSessions_add i e
  have hbefore := h.counted i e
  rw [begun_append, ended_append]
  show _ = _ + y.openSessions i e
  omega

theorem start : Delivering (CoreloopNetworkPlugin.start :
    Config (CoreloopNetworkPlugin threads endpoint buffer) (PluginEvent threads endpoint buffer)) where
  registry := .start
  counted _ _ := rfl
  storedCovered _ _ := .nil
  handedCovered _ _ := .nil
  earlier _ _ k hk := absurd hk (Nat.not_lt_zero k)
  current i e := by
    show [] = [] ++ (dataOf new i e ++ pendingOf new i e)
    rw [dataOf_new, pendingOf_new]
    rfl

/-- The order is kept in every run with one disconnect for each session. -/
theorem of_run {visited : List (Config (CoreloopNetworkPlugin threads endpoint buffer)
    (PluginEvent threads endpoint buffer) × PluginAction threads endpoint buffer)}
    (hrun : Run step CoreloopNetworkPlugin.start visited x)
    (honce : Throughout OncePerSession visited) : Delivering x :=
  hrun.invariant Delivering OncePerSession (fun h hguard hnext => h.next hguard hnext) honce .start

end Delivering

/-! ## Delivery -/

/-- **In-order, exactly-once delivery within a session.** In every session a client gets an initial part
of what the thread stored for it; in the session that has not ended for the thread the rest is in the two
places; what is stored and what is handed over belongs to one session each, so that a buffer of one session
is not handed over in another. -/
structure InOrderDelivery (x : Config (CoreloopNetworkPlugin threads endpoint buffer)
    (PluginEvent threads endpoint buffer)) : Prop where
  inOrder : ∀ i e k, handedIn i e k x.history <+: storedIn i e k x.history
  held : ∀ i e k, ended i e x.history = k →
    storedIn i e k x.history =
      handedIn i e k x.history ++ (x.state.dataOf i e ++ x.state.pendingOf i e)
  stored : ∀ i e, x.history.flatMap (PluginEvent.stored i e) =
    (List.range (ended i e x.history + 1)).flatMap fun k => storedIn i e k x.history
  handed : ∀ i e, x.history.flatMap (PluginEvent.handed i e) =
    (List.range (ended i e x.history + 1)).flatMap fun k => handedIn i e k x.history
  apart : ∀ i e, (x.history.flatMap (PluginEvent.stored i e)).Nodup →
    ∀ {k j b}, b ∈ storedIn i e k x.history → b ∈ handedIn i e j x.history → k = j

/-- With one disconnect for each session, every client gets its buffers in order. -/
theorem in_order_delivery
    {visited : List (Config (CoreloopNetworkPlugin threads endpoint buffer)
      (PluginEvent threads endpoint buffer) × PluginAction threads endpoint buffer)}
    {x : Config (CoreloopNetworkPlugin threads endpoint buffer)
      (PluginEvent threads endpoint buffer)}
    (hrun : Run CoreloopNetworkPlugin.step CoreloopNetworkPlugin.start visited x)
    (honce : Throughout OncePerSession visited) : InOrderDelivery x := by
  have h := Delivering.of_run hrun honce
  have hinitial : ∀ i e k, handedIn i e k x.history <+: storedIn i e k x.history := by
    intro i e k
    rcases Nat.lt_trichotomy k (ended i e x.history) with hearlier | rfl | hlater
    · exact h.earlier i e k hearlier
    · rw [h.current i e]
      exact List.prefix_append _ _
    · rw [show handedIn i e k x.history = [] from (h.handedCovered i e).later_eq_nil hlater]
      exact List.nil_prefix
  exact {
    inOrder := hinitial
    held := fun i e k hk => hk ▸ h.current i e
    stored := fun i e => (h.storedCovered i e).flatMap_eq (Nat.lt_succ_self _)
    handed := fun i e => (h.handedCovered i e).flatMap_eq (Nat.lt_succ_self _)
    apart := fun i e hnodup k j b hstored hhanded =>
      (h.storedCovered i e).interval_unique hnodup hstored ((hinitial i e j).subset hhanded) }

/-- Two sessions of one client; a packet that lands between its two ticks goes with the first session. -/
theorem in_order_delivery_two_sessions :
    ∃ (visited : List (Config (CoreloopNetworkPlugin 1 Nat Nat) (PluginEvent 1 Nat Nat) ×
        PluginAction 1 Nat Nat))
      (x : Config (CoreloopNetworkPlugin 1 Nat Nat) (PluginEvent 1 Nat Nat)),
      Run CoreloopNetworkPlugin.step CoreloopNetworkPlugin.start visited x ∧
        storedIn 0 7 0 x.history = [100, 101] ∧ handedIn 0 7 0 x.history = [100] ∧
        storedIn 0 7 1 x.history = [102] ∧ handedIn 0 7 1 x.history = [102] ∧
        InOrderDelivery x := by
  let packet (b : Nat) : List (PluginAction 1 Nat Nat) := [.handleNetworkPacket 0 7 b, .lockLocal 0]
  let actions : List (PluginAction 1 Nat Nat) :=
    packet 100 ++ [.registerShared 0, .storeLocal 0, .newClients [7], .tick] ++
      packet 101 ++ [.storeLocal 0, .tick, .clientInputs 7, .disconnect 7] ++
      List.replicate 10 .tick ++
      packet 102 ++ [.registerShared 0, .storeLocal 0, .newClients [7], .tick, .tick, .clientInputs 7]
  obtain ⟨x, hx⟩ := Option.isSome_iff_exists.mp (show (exec CoreloopNetworkPlugin.step
    CoreloopNetworkPlugin.start actions).isSome = true by decide)
  have hdelivered : (some x).map (fun x => (storedIn 0 7 0 x.history, handedIn 0 7 0 x.history,
      storedIn 0 7 1 x.history, handedIn 0 7 1 x.history)) =
        some ([100, 101], [100], [102], [102]) := by
    rw [← hx]
    decide
  simp only [Option.map_some, Option.some.injEq, Prod.mk.injEq] at hdelivered
  obtain ⟨hstored, hhanded, hstored', hhanded'⟩ := hdelivered
  have hrun := run_trace hx
  exact ⟨_, x, hrun, hstored, hhanded, hstored', hhanded', in_order_delivery hrun (by decide)⟩

end Sekkeizu
