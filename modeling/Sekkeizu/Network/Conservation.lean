/-
# Sekkeizu.Network.Conservation — which buffers the plugin loses.

Once `handle_network_packet` has a buffer, it is with its packet task, in `_pending_inputs` or in
`_endpoint_data`, until `client_inputs` gets it. The account of one thread and one client keeps the books
of these places. All units balance but one: the section that releases a local mutex erases what the thread
has pending for the disconnected client, and the plugin calls `release_network_buffer` nowhere. So a run
loses nothing exactly when nothing is pending there at any of these sections (`conserved_iff`). A packet
that is stored after the tick has drained its thread, and before a disconnect in the same tick, is lost
(`late_packet_is_lost`).
-/
import Sekkeizu.Network.Lifecycle
import Sekkeizu.Network.Buffers
import Sekkeizu.Semantics.Accounts
import Mathlib.Data.Multiset.OrderedMonoid


namespace Sekkeizu

open PartialSystem
open Account (total total_coe total_nil total_singleton total_eq_zero)

variable {threads : Nat} {endpoint buffer : Type*}

variable [DecidableEq endpoint]

/-- The buffer `handle_network_packet` got on this thread from the endpoint. -/
def PluginEvent.taken (i : Fin threads) (e : endpoint) :
    PluginEvent threads endpoint buffer → List buffer
  | .submitted i' e' b => if i' = i ∧ e' = e then [b] else []
  | _ => []

/-- The buffer for this endpoint of the task that holds the mutex. -/
def LocalMutex.holding (e : endpoint) : LocalMutex endpoint buffer → List buffer
  | .packet e' b _ => if e' = e then [b] else []
  | _ => []

namespace CoreloopNetworkPlugin

/-! ## The packet tasks -/

/-- The buffers of the tasks that have not started. -/
def queuedOf (x : CoreloopNetworkPlugin threads endpoint buffer) (i : Fin threads) (e : endpoint) :
    List buffer :=
  x.packets.flatMap fun p => if p.1 = i ∧ p.2.1 = e then [p.2.2] else []

/-- The buffer of the task that is running on the thread. -/
def runningOf (x : CoreloopNetworkPlugin threads endpoint buffer) (i : Fin threads) (e : endpoint) :
    List buffer :=
  (x.localMutex i).holding e

/-- The buffers that packet tasks hold. -/
def inTasks (x : CoreloopNetworkPlugin threads endpoint buffer) (i : Fin threads) (e : endpoint) :
    Multiset buffer :=
  x.queuedOf i e + x.runningOf i e

/-- The buffers that the containers hold. -/
def inContainers (x : CoreloopNetworkPlugin threads endpoint buffer) (i : Fin threads) (e : endpoint) :
    Multiset buffer :=
  x.dataOf i e + x.pendingOf i e

/-- What the section that releases a local mutex erases. -/
def erased (i : Fin threads) (e : endpoint) (x : CoreloopNetworkPlugin threads endpoint buffer)
    (a : PluginAction threads endpoint buffer) : Multiset buffer :=
  match a, x.stage with
  | .tick, .disconnecting (.unlock j) e' _ => if j = i ∧ e' = e then x.pendingOf i e else 0
  | _, _ => 0

/-- **The account** of one thread and one client. -/
def account (i : Fin threads) (e : endpoint) :
    Account (CoreloopNetworkPlugin threads endpoint buffer) (PluginAction threads endpoint buffer)
      (PluginEvent threads endpoint buffer) (Multiset buffer) where
  content x := x.inTasks i e + x.inContainers i e
  income ev := (ev.taken i e : Multiset buffer)
  expense ev := (ev.handed i e : Multiset buffer)
  leak x a := x.erased i e a

section Balance

variable {x y : CoreloopNetworkPlugin threads endpoint buffer}
variable {a : PluginAction threads endpoint buffer}
variable {evs : List (PluginEvent threads endpoint buffer)}

theorem holding_update (f : Fin threads → LocalMutex endpoint buffer) (i j : Fin threads)
    (e : endpoint) (m : LocalMutex endpoint buffer) :
    (Function.update f j m i).holding e = if i = j then m.holding e else (f i).holding e := by
  by_cases hij : i = j
  · subst hij
    rw [Function.update_self, if_pos rfl]
  · rw [Function.update_of_ne hij, if_neg hij]

/-- A mutex that changes hands without a buffer. -/
theorem holding_update_eq {f : Fin threads → LocalMutex endpoint buffer} {j : Fin threads}
    {m : LocalMutex endpoint buffer} {e : endpoint} (h : m.holding e = (f j).holding e)
    (i : Fin threads) : (Function.update f j m i).holding e = (f i).holding e := by
  rw [holding_update]
  split_ifs with hij
  · rw [h, hij]
  · rfl

/-- The packet tasks get what is submitted and give what is stored. -/
theorem Acts.inTasks (hf : Acts x a y evs) (h : Sections x) (i : Fin threads) (e : endpoint) :
    y.inTasks i e + total (fun ev => (ev.stored i e : Multiset buffer)) evs =
      x.inTasks i e + total (account i e).income evs := by
  -- a mutex that changes hands without a buffer moves nothing
  have hquiet : ∀ {j : Fin threads} {m : LocalMutex endpoint buffer},
      m.holding e = (x.localMutex j).holding e →
        (x.queuedOf i e : Multiset buffer) + (Function.update x.localMutex j m i).holding e =
          x.inTasks i e := by
    intro j m hm
    rw [holding_update_eq hm]
    rfl
  cases hf with
  | submit j e' b =>
      rw [total_singleton, total_singleton, CoreloopNetworkPlugin.inTasks, queuedOf,
        List.flatMap_append, List.flatMap_singleton, ← Multiset.coe_add]
      show _ + _ + (x.runningOf i e : Multiset buffer) + 0 = _
      rw [add_zero]
      exact add_right_comm _ _ _
  | lockLocal position j e' b before after stage hpackets hfree hstage =>
      rw [total_nil, total_nil, add_zero, add_zero, CoreloopNetworkPlugin.inTasks,
        CoreloopNetworkPlugin.inTasks, queuedOf, queuedOf, runningOf, runningOf, hpackets]
      dsimp only
      rw [holding_update, List.flatMap_append, List.flatMap_append, List.flatMap_cons]
      by_cases hij : i = j
      · subst hij
        rw [if_pos rfl, hfree]
        by_cases heq : e' = e
        · simp only [LocalMutex.holding, heq, if_true, and_self, ← Multiset.coe_add, Multiset.coe_nil]
          abel
        · simp only [LocalMutex.holding, heq, if_false, and_false, List.nil_append]
      · simp only [hij, Ne.symm hij, if_false, false_and, List.nil_append]
  | foundShared j e' b hmutex hin =>
      rw [total_nil, total_nil, add_zero, add_zero]
      exact hquiet (by rw [hmutex]; rfl)
  | registerShared j e' b hmutex hout =>
      rw [total_singleton, total_singleton]
      exact congrArg (· + (0 : Multiset buffer)) (hquiet (by rw [hmutex]; rfl))
  | storeLocal j e' b fresh hmutex =>
      rw [total_singleton, total_singleton]
      show (x.queuedOf i e : Multiset buffer) +
          (Function.update x.localMutex j .free i).holding e +
          ((PluginEvent.received j e' b).stored i e : Multiset buffer) =
        x.queuedOf i e + ((x.localMutex i).holding e : Multiset buffer) + 0
      rw [holding_update]
      by_cases hij : i = j
      · subst hij
        rw [if_pos rfl, hmutex]
        simp only [PluginEvent.stored, LocalMutex.holding, true_and, Multiset.coe_nil, add_zero]
      · rw [if_neg hij, PluginEvent.stored, if_neg fun hmine => hij hmine.1.symm]
        rfl
  | lock j e' rest hstage hfree =>
      rw [total_nil, total_nil, add_zero, add_zero]
      exact hquiet (by rw [hfree]; rfl)
  | unlock j e' rest hstage =>
      have htick : x.localMutex j = .tick := h.holds (by rw [hstage]; exact Nat.le_refl j)
      rw [total_singleton, total_singleton]
      exact congrArg (· + (0 : Multiset buffer)) (hquiet (by rw [htick]; rfl))
  | newClients order hstage hnodup horder =>
      have hnone : ∀ ev ∈ (order.map .newClient : List (PluginEvent threads endpoint buffer)),
          (account i e).income ev = 0 := by
        intro ev hev
        obtain ⟨e', -, rfl⟩ := List.mem_map.mp hev
        rfl
      have hstored : ∀ ev ∈ (order.map .newClient : List (PluginEvent threads endpoint buffer)),
          (ev.stored i e : Multiset buffer) = 0 := by
        intro ev hev
        rw [(bufferMove_newClients order i e ev hev).1]
        rfl
      rw [total_eq_zero hnone, total_eq_zero hstored]
      rfl
  | _ => rfl

/-- Only the section that releases the mutex erases anything. -/
theorem Acts.erased_eq_zero (hf : Acts x a y evs) {i : Fin threads} {e : endpoint}
    (hevs : evs ≠ [.released i e]) : x.erased i e a = 0 := by
  unfold erased
  split
  · next j e' rest hstage =>
      apply if_neg
      rintro ⟨rfl, rfl⟩
      cases hf with
      | unlock k e'' rest' hstage' =>
          rw [hstage] at hstage'
          simp only [TickStage.disconnecting.injEq, DisconnectStage.unlock.injEq] at hstage'
          obtain ⟨hi, rfl, -⟩ := hstage'
          exact hevs (by rw [Fin.ext hi])
      | pass stage hpasses =>
          rw [hstage] at hpasses
          cases hpasses with
          | unlocked k e'' rest' hk => exact absurd i.isLt (Nat.not_lt.mpr hk)
      | collect idx hstage' hfree => exact absurd (hstage.symm.trans hstage') (by simp)
      | post hstage' => exact absurd (hstage.symm.trans hstage') (by simp)
      | eraseData e'' rest' hstage' => exact absurd (hstage.symm.trans hstage') (by simp)
      | lock k e'' rest' hstage' hfree => exact absurd (hstage.symm.trans hstage') (by simp)
      | eraseShared e'' rest' hstage' hin => exact absurd (hstage.symm.trans hstage') (by simp)
      | callback e'' rest' hstage' => exact absurd (hstage.symm.trans hstage') (by simp)
  · rfl

theorem inContainers_eq (x : CoreloopNetworkPlugin threads endpoint buffer) (i : Fin threads)
    (e : endpoint) :
    x.inContainers i e = (x.dataOf i e ++ x.pendingOf i e : List buffer) := Multiset.coe_add _ _

theorem inContainers_new (i : Fin threads) (e : endpoint) :
    (new : CoreloopNetworkPlugin threads endpoint buffer).inContainers i e = 0 := by
  rw [CoreloopNetworkPlugin.inContainers, dataOf_new, pendingOf_new]
  rfl

/-- The containers get what is stored, and give what is handed over and what is erased. -/
theorem Acts.inContainers (hf : Acts x a y evs) (h : Sections x) (i : Fin threads) (e : endpoint) :
    y.inContainers i e + total (account i e).expense evs + x.erased i e a =
      x.inContainers i e + total (fun ev => (ev.stored i e : Multiset buffer)) evs := by
  cases hf.bufferMove h i e with
  | same hsilent hheld =>
      have hevs : evs ≠ [.released i e] := by
        intro heq
        subst heq
        have hreleases := (hsilent _ (List.mem_singleton_self _)).2.2
        simp [PluginEvent.releases] at hreleases
      have hhanded : ∀ ev ∈ evs, (account i e).expense ev = (0 : Multiset buffer) := by
        intro ev hev
        show (ev.handed i e : Multiset buffer) = 0
        rw [(hsilent ev hev).2.1]
        rfl
      have hstored : ∀ ev ∈ evs, (ev.stored i e : Multiset buffer) = 0 := by
        intro ev hev
        rw [(hsilent ev hev).1]
        rfl
      rw [hf.erased_eq_zero hevs, total_eq_zero hhanded, total_eq_zero hstored, inContainers_eq,
        inContainers_eq, hheld]
      simp only [add_zero]
  | stored b fresh hevs hmutex hdata hpending =>
      have hevent : (PluginEvent.received i e b : PluginEvent threads endpoint buffer).stored i e =
          [b] := by
        simp [PluginEvent.stored]
      rw [hf.erased_eq_zero (by rw [hevs]; simp), hevs, total_singleton, total_singleton, hevent,
        CoreloopNetworkPlugin.inContainers, hdata, hpending, ← Multiset.coe_add]
      show _ + 0 + 0 = _
      rw [add_zero, add_zero, ← add_assoc]
      rfl
  | handed data hevs hlookup hdata hpending =>
      have hevent : (PluginEvent.clientInputs e data : PluginEvent threads endpoint buffer).handed i e =
          x.dataOf i e := by
        rw [PluginEvent.handed, if_pos rfl, dataOf_of_lookup hlookup]
      rw [hf.erased_eq_zero (by rw [hevs]; simp), hevs, total_singleton, total_singleton,
        CoreloopNetworkPlugin.inContainers, hdata, hpending]
      show 0 + _ + ((PluginEvent.clientInputs e data).handed i e : Multiset buffer) + 0 = _ + 0
      rw [hevent, zero_add, add_zero, add_zero]
      exact add_comm _ _
  | released rest haction hevs hstage hdata hpending =>
      -- what was pending is what the section erases
      have herased : x.erased i e a = (x.pendingOf i e : Multiset buffer) := by
        simp only [erased, haction, hstage, and_self, if_true]
      rw [herased, hevs, total_singleton, total_singleton, CoreloopNetworkPlugin.inContainers, hdata,
        hpending]
      show _ + 0 + 0 + _ = _ + 0
      rw [add_zero, add_zero, add_zero]
      rfl

/-- **Every unit balances.** -/
theorem balances (h : Sections x) (i : Fin threads) (e : endpoint)
    (hstep : step x a = some (y, evs)) : (account i e).Balances x a y evs := by
  have hf := acts_of_step h.toLocals hstep
  have htasks := hf.inTasks h i e
  have hcontainers := hf.inContainers h i e
  show y.inTasks i e + y.inContainers i e + total (account i e).expense evs + x.erased i e a =
    x.inTasks i e + x.inContainers i e + total (account i e).income evs
  calc y.inTasks i e + y.inContainers i e + total (account i e).expense evs + x.erased i e a
      = y.inTasks i e +
          (y.inContainers i e + total (account i e).expense evs + x.erased i e a) := by abel
    _ = y.inTasks i e + total (fun ev => (ev.stored i e : Multiset buffer)) evs +
          x.inContainers i e := by rw [hcontainers]; abel
    _ = x.inTasks i e + total (account i e).income evs + x.inContainers i e := by rw [htasks]
    _ = x.inTasks i e + x.inContainers i e + total (account i e).income evs := by abel

end Balance

end CoreloopNetworkPlugin

/-! ## Conservation -/

/-- **No buffer is leaked**: of the buffers of every thread and every endpoint, those that
`handle_network_packet` got are with a packet task, in a container, or were handed to `client_inputs`.
The plugin gives none back with `release_network_buffer`. -/
def Conserved (x : Config (CoreloopNetworkPlugin threads endpoint buffer)
    (PluginEvent threads endpoint buffer)) : Prop :=
  ∀ (i : Fin threads) (e : endpoint),
    (x.history.flatMap (PluginEvent.taken i e) : Multiset buffer) =
      x.state.queuedOf i e + x.state.runningOf i e + x.state.dataOf i e + x.state.pendingOf i e +
        x.history.flatMap (PluginEvent.handed i e)

/-- Nothing is pending for the disconnected client where its disconnect releases a local mutex. -/
def NothingPending (x : Config (CoreloopNetworkPlugin threads endpoint buffer)
    (PluginEvent threads endpoint buffer)) (a : PluginAction threads endpoint buffer) : Prop :=
  ∀ (i : Fin threads) (e : endpoint) (rest : List endpoint), a = .tick →
    x.state.stage = .disconnecting (.unlock i) e rest → x.state.pendingOf i e = []

section Conservation

open CoreloopNetworkPlugin

variable {x : Config (CoreloopNetworkPlugin threads endpoint buffer)
  (PluginEvent threads endpoint buffer)}
variable {a : PluginAction threads endpoint buffer}

theorem conserved_iff_settled : Conserved x ↔ ∀ i e, (account i e).Settled x := by
  apply forall₂_congr
  intro i e
  show _ ↔ total (account i e).income x.history =
    x.state.inTasks i e + x.state.inContainers i e + total (account i e).expense x.history
  rw [show total (account i e).income x.history = _ from total_coe (PluginEvent.taken i e) x.history,
    show total (account i e).expense x.history = _ from total_coe (PluginEvent.handed i e) x.history,
    inTasks, inContainers, ← add_assoc]

/-- The plugin starts without a buffer. -/
theorem settled_start (i : Fin threads) (e : endpoint) :
    (account i e).Settled (CoreloopNetworkPlugin.start :
      Config (CoreloopNetworkPlugin threads endpoint buffer) (PluginEvent threads endpoint buffer)) := by
  show (0 : Multiset buffer) = 0 + 0 + inContainers new i e + 0
  rw [inContainers_new]
  rfl

theorem nothingPending_iff : NothingPending x a ↔ ∀ i e, x.state.erased i e a = 0 := by
  constructor
  · intro h i e
    unfold erased
    split
    · next j e' rest hstage =>
        split_ifs with hmine
        · obtain ⟨rfl, rfl⟩ := hmine
          rw [h i e' rest rfl hstage]
          rfl
        · rfl
    · rfl
  · intro h i e rest haction hstage
    have herased := h i e
    simpa only [erased, haction, hstage, and_self, if_true, Multiset.coe_eq_zero] using herased

/-- **When no buffer is leaked.** A run keeps track of every buffer exactly when nothing is pending for
the client at any section of a disconnect that releases a local mutex. -/
theorem conserved_iff
    {visited : List (Config (CoreloopNetworkPlugin threads endpoint buffer)
      (PluginEvent threads endpoint buffer) × PluginAction threads endpoint buffer)}
    (hrun : Run step CoreloopNetworkPlugin.start visited x) :
    Conserved x ↔ Throughout NothingPending visited := by
  have hbooks : ∀ i e, (account i e).Settled x ↔
      ∀ p ∈ visited, p.1.state.erased i e p.2 = (0 : Multiset buffer) := by
    intro i e
    exact Account.settled_iff Sections (fun h hstep => h.step hstep)
      (fun h hstep => balances h i e hstep) hrun sections_new (settled_start i e)
  rw [conserved_iff_settled]
  simp only [hbooks, Throughout, nothingPending_iff]
  exact ⟨fun h p hp i e => h i e p hp, fun h i e p hp => h p hp i e⟩

end Conservation

/-- The second packet lands after the tick has drained its thread, and the client is disconnected in the
same tick: its buffer is neither handed over nor given back. -/
theorem late_packet_is_lost :
    ∃ (visited : List (Config (CoreloopNetworkPlugin 1 Nat Nat) (PluginEvent 1 Nat Nat) ×
        PluginAction 1 Nat Nat))
      (x : Config (CoreloopNetworkPlugin 1 Nat Nat) (PluginEvent 1 Nat Nat)),
      Run CoreloopNetworkPlugin.step CoreloopNetworkPlugin.start visited x ∧
        Throughout OncePerSession visited ∧ ¬ Conserved x := by
  let packet (b : Nat) : List (PluginAction 1 Nat Nat) := [.handleNetworkPacket 0 7 b, .lockLocal 0]
  let actions : List (PluginAction 1 Nat Nat) :=
    packet 100 ++ [.registerShared 0, .storeLocal 0, .newClients [7], .tick] ++
      packet 101 ++ [.storeLocal 0, .tick, .clientInputs 7, .disconnect 7] ++ List.replicate 10 .tick
  obtain ⟨x, hx⟩ := Option.isSome_iff_exists.mp (show (exec CoreloopNetworkPlugin.step
    CoreloopNetworkPlugin.start actions).isSome = true by decide)
  have hplaces : (some x).map (fun x => (x.history.flatMap (PluginEvent.taken 0 7),
      x.state.queuedOf 0 7 ++ x.state.runningOf 0 7 ++ x.state.dataOf 0 7 ++ x.state.pendingOf 0 7,
      x.history.flatMap (PluginEvent.handed 0 7))) = some ([100, 101], [], [100]) := by
    rw [← hx]
    decide
  simp only [Option.map_some, Option.some.injEq, Prod.mk.injEq] at hplaces
  obtain ⟨htaken, hheld, hhanded⟩ := hplaces
  refine ⟨_, x, run_trace hx, by decide, fun hconserved => ?_⟩
  have hbooks := hconserved 0 7
  rw [Multiset.coe_add, Multiset.coe_add, Multiset.coe_add, Multiset.coe_add, hheld, htaken,
    hhanded] at hbooks
  exact absurd hbooks (by decide)

/-- The same packet, drained by the next tick before the client is disconnected. -/
theorem conserved_iff_drained :
    ∃ (visited : List (Config (CoreloopNetworkPlugin 1 Nat Nat) (PluginEvent 1 Nat Nat) ×
        PluginAction 1 Nat Nat))
      (x : Config (CoreloopNetworkPlugin 1 Nat Nat) (PluginEvent 1 Nat Nat)),
      Run CoreloopNetworkPlugin.step CoreloopNetworkPlugin.start visited x ∧
        x.history.flatMap (PluginEvent.handed 0 7) = [100, 101] ∧
        (Conserved x ↔ Throughout NothingPending visited) := by
  let packet (b : Nat) : List (PluginAction 1 Nat Nat) := [.handleNetworkPacket 0 7 b, .lockLocal 0]
  let actions : List (PluginAction 1 Nat Nat) :=
    packet 100 ++ [.registerShared 0, .storeLocal 0, .newClients [7], .tick] ++
      packet 101 ++ [.storeLocal 0, .tick, .clientInputs 7, .tick, .tick, .tick, .newClients [], .tick,
        .tick, .clientInputs 7, .disconnect 7] ++ List.replicate 10 .tick
  obtain ⟨x, hx⟩ := Option.isSome_iff_exists.mp (show (exec CoreloopNetworkPlugin.step
    CoreloopNetworkPlugin.start actions).isSome = true by decide)
  have hhanded : (some x).map (fun x => x.history.flatMap (PluginEvent.handed 0 7)) =
      some [100, 101] := by
    rw [← hx]
    decide
  have hrun := run_trace hx
  exact ⟨_, x, hrun, Option.some.inj hhanded, conserved_iff hrun⟩

end Sekkeizu
