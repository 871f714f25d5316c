/-
# Sekkeizu.Network.Deadlock — one of the parties of the plugin can always go on.

A party that has not finished takes a step or stands before a locked mutex (`Ready`); `tick` may also wait
for the counter. Either wait is for a party of smaller rank, which has not finished either, so some party
can take a step (`deadlock_free`).
-/
import Sekkeizu.Network.Holding


namespace Sekkeizu

open PartialSystem Mutexes

variable {threads : Nat} {endpoint buffer : Type*}

namespace PluginLocks

variable {x : PluginLocks threads endpoint buffer} {p : Party}

/-! ## Going on -/

/-- The party has not finished its operation. A failed `assert` leaves no party. -/
def Unfinished (x : PluginLocks threads endpoint buffer) (p : Party) : Prop :=
  x.aborted = false ∧ (x.point p).isUnfinished = true

/-- The counter is not 0 before the last task has ended. -/
theorem Counted.exists_input (h : x.Counted) (hcounter : x.inputsCounter ≠ 0) :
    ∃ (n : Nat) (e : endpoint) (call : Option (DisconnectCall endpoint)),
      x.inputs[n]? = some (.clientInputs e call) := by
  have hpos : 0 < x.inputs.countP fun t => !t.isDone := lt_of_lt_of_le (Nat.pos_of_ne_zero hcounter) h
  obtain ⟨task, hmem, hrunning⟩ := List.countP_pos_iff.mp hpos
  obtain ⟨n, hn⟩ := List.getElem?_of_mem hmem
  cases task with
  | clientInputs e call => exact ⟨n, e, call, hn⟩
  | done => exact absurd hrunning (by simp [InputTask.isDone])

/-- Who stands before a mutex waits for an unfinished party of smaller rank. -/
theorem Unfinished.falls {q : Party} {m : PluginMutex threads} (hrunning : x.aborted = false)
    (hbefore : (x.point p).before = some m) (hheld : m ∈ x.held q) :
    x.Unfinished q ∧ (x.point q).rank < (x.point p).rank := by
  refine ⟨⟨hrunning, PartyPoint.isUnfinished_of_held hheld⟩, ?_⟩
  apply PartyPoint.rank_lt hbefore hheld
  intro hp hq
  rw [eq_tick_of_isTick hp, eq_tick_of_isTick hq]

variable [DecidableEq endpoint]

/-- The party can take a step. -/
def CanStep (x : PluginLocks threads endpoint buffer) (p : Party) : Prop :=
  ∃ choice y, PluginLocks.step x (.party p choice) = some (y, [])

/-- A party steps, or stands before a locked mutex. -/
def Ready (x : PluginLocks threads endpoint buffer) (p : Party) : Prop :=
  (∃ choice y, x.partyStep p choice = some y) ∨ ∃ m, (x.point p).before = some m ∧ x.owner m ≠ none

theorem ready_of_isSome (choice : Choice endpoint) (h : (x.partyStep p choice).isSome = true) :
    x.Ready p :=
  .inl ⟨choice, Option.isSome_iff_exists.mp h⟩

theorem ready_of_lock {m : PluginMutex threads}
    {f : PluginLocks threads endpoint buffer → PluginLocks threads endpoint buffer}
    (hbefore : (x.point p).before = some m) (hstep : x.partyStep p .goesOn = (x.lock p m).map f) :
    x.Ready p := by
  cases hm : x.owner m with
  | none =>
      apply ready_of_isSome .goesOn
      rw [hstep, lock, hm]
      rfl
  | some q => exact .inr ⟨m, hbefore, by simp [hm]⟩

theorem ready_of_call {c : DisconnectCall endpoint}
    {f : Option (DisconnectCall endpoint) × PluginLocks threads endpoint buffer →
      PluginLocks threads endpoint buffer}
    (hbefore : (x.point p).before = callBefore (some c))
    (hstep : x.partyStep p .goesOn = (x.disconnectStep p c).map f) : x.Ready p := by
  cases c with
  | lock e =>
      apply ready_of_lock hbefore
      rw [hstep, disconnectStep, Option.map_map]
  | push e => exact .inl ⟨.goesOn, _, hstep⟩

theorem ready_caller {n : Nat} (h : (x.point (.caller n)).isUnfinished = true) :
    x.Ready (.caller n) := by
  cases hn : x.callers[n]? with
  | none => exact absurd h (by simp [point, hn, PartyPoint.isUnfinished])
  | some caller =>
      cases caller with
      | none => exact absurd h (by simp [point, hn, callerPoint, PartyPoint.isUnfinished])
      | some call =>
          apply ready_of_call (c := call)
          · simp [point, hn, callerPoint, PartyPoint.before]
          · simp only [partyStep, callerStep, hn]
            rfl

theorem ready_input {n : Nat} (h : (x.point (.input n)).isUnfinished = true) : x.Ready (.input n) := by
  cases hn : x.inputs[n]? with
  | none => exact absurd h (by simp [point, hn, PartyPoint.isUnfinished])
  | some task =>
      cases task with
      | done => exact absurd h (by simp [point, hn, InputTask.point, PartyPoint.isUnfinished])
      | clientInputs e call =>
          cases call with
          | none =>
              -- the callback may return
              apply ready_of_isSome .goesOn
              simp [partyStep, inputStep, hn]
          | some c =>
              apply ready_of_call (c := c)
              · simp [point, hn, InputTask.point, PartyPoint.before]
              · simp only [partyStep, inputStep, hn, callbackStep]
                rfl

theorem ready_packet {n : Nat} (h : (x.point (.packet n)).isUnfinished = true) :
    x.Ready (.packet n) := by
  cases hn : x.packets[n]? with
  | none => exact absurd h (by simp [point, hn, PartyPoint.isUnfinished])
  | some t =>
      obtain ⟨i, e, b, stage⟩ := t
      cases stage with
      | lockLocal =>
          apply ready_of_lock (m := .localMutex i)
          · simp [point, hn, PartyPoint.before, PacketTask.before]
          · simp only [partyStep, packetStep, hn]
            rfl
      | lockShared =>
          apply ready_of_lock (m := .sharedMutex)
          · simp [point, hn, PartyPoint.before, PacketTask.before]
          · simp only [partyStep, packetStep, hn]
            rfl
      | registerShared =>
          apply ready_of_isSome .goesOn
          simp only [partyStep, packetStep, hn]
          split_ifs <;> rfl
      | store fresh =>
          apply ready_of_isSome .goesOn
          simp only [partyStep, packetStep, hn]
          split <;> rfl
      | done => exact absurd h (by simp [point, hn, PartyPoint.isUnfinished])

/-- `tick` may also wait for the counter. -/
theorem ready_tick (h : (x.point .tick).isUnfinished = true)
    (hcounter : x.tick = .wait → x.inputsCounter = 0) : x.Ready .tick := by
  cases hnow : x.tick with
  | idle => exact absurd h (by simp [point, hnow, PartyPoint.isUnfinished])
  | lockNew =>
      apply ready_of_lock (m := .sharedMutex)
      · simp [point, hnow, PartyPoint.before, TickPoint.before]
      · simp only [partyStep, tickStep, hnow, tickClients]
        rfl
  | newClients todo =>
      rcases Finset.eq_empty_or_nonempty todo with rfl | ⟨e, he⟩
      · apply ready_of_isSome .goesOn
        simp [partyStep, tickStep, hnow, tickClients]
      · apply ready_of_isSome (.picks e)
        simp [partyStep, tickStep, hnow, tickClients, he]
  | newClient todo call =>
      cases call with
      | none =>
          apply ready_of_isSome .goesOn
          simp [partyStep, tickStep, hnow, tickClients]
      | some c =>
          apply ready_of_call (c := c)
          · simp [point, hnow, PartyPoint.before, TickPoint.before]
          · simp only [partyStep, tickStep, hnow, tickClients, callbackStep]
            rfl
  | lockLocal idx =>
      apply ready_of_lock (m := .localMutex idx)
      · simp [point, hnow, PartyPoint.before, TickPoint.before]
      · simp only [partyStep, tickStep, hnow, tickInputs]
        rfl
  | accumulate idx =>
      apply ready_of_isSome .goesOn
      simp only [partyStep, tickStep, hnow, tickInputs]
      split_ifs <;> rfl
  | execute todo =>
      rcases Finset.eq_empty_or_nonempty todo with rfl | ⟨e, he⟩
      · apply ready_of_isSome .goesOn
        simp [partyStep, tickStep, hnow, tickInputs]
      · apply ready_of_isSome (.picks e)
        simp [partyStep, tickStep, hnow, tickInputs, he]
  | wait =>
      apply ready_of_isSome .goesOn
      simp [partyStep, tickStep, hnow, tickInputs, hcounter hnow]
  | postNetworkTick call =>
      cases call with
      | none =>
          apply ready_of_isSome .goesOn
          simp [partyStep, tickStep, hnow, tickInputs]
      | some c =>
          apply ready_of_call (c := c)
          · simp [point, hnow, PartyPoint.before, TickPoint.before]
          · simp only [partyStep, tickStep, hnow, tickInputs, callbackStep]
            rfl
  | lockDisconnects =>
      apply ready_of_lock (m := .disconnectMutex)
      · simp [point, hnow, PartyPoint.before, TickPoint.before]
      · simp only [partyStep, tickStep, hnow, tickDisconnects]
        rfl
  | disconnects rest =>
      apply ready_of_isSome .goesOn
      cases rest <;> simp [partyStep, tickStep, hnow, tickDisconnects]
  | lockAll i e rest =>
      by_cases hi : i < threads
      · apply ready_of_lock (m := .localMutex ⟨i, hi⟩)
        · simp [point, hnow, PartyPoint.before, TickPoint.before, hi]
        · simp only [partyStep, tickStep, hnow, tickDisconnects, hi, dite_true]
          rfl
      · apply ready_of_isSome .goesOn
        simp [partyStep, tickStep, hnow, tickDisconnects, hi]
  | lockShared e rest =>
      apply ready_of_lock (m := .sharedMutex)
      · simp [point, hnow, PartyPoint.before, TickPoint.before]
      · simp only [partyStep, tickStep, hnow, tickDisconnects]
        rfl
  | eraseShared e rest =>
      apply ready_of_isSome .goesOn
      simp only [partyStep, tickStep, hnow, tickDisconnects]
      split_ifs <;> rfl
  | unlockAll i e rest =>
      apply ready_of_isSome .goesOn
      simp only [partyStep, tickStep, hnow, tickDisconnects]
      split_ifs <;> rfl
  | testNew =>
      apply ready_of_isSome .goesOn
      simp [partyStep, tickStep, hnow, tickClients]
  | collect idx =>
      apply ready_of_isSome .goesOn
      simp [partyStep, tickStep, hnow, tickInputs]
  | testDisconnects =>
      apply ready_of_isSome .goesOn
      simp [partyStep, tickStep, hnow, tickDisconnects]
  | onDisconnected e rest =>
      apply ready_of_isSome .goesOn
      simp [partyStep, tickStep, hnow, tickDisconnects]

theorem Ready.canStep_or_owned (h : x.Ready p) (hrunning : x.aborted = false) :
    x.CanStep p ∨ ∃ m, (x.point p).before = some m ∧ x.owner m ≠ none := by
  rcases h with ⟨choice, y, hstep⟩ | howned
  · exact .inl ⟨choice, y, by simp [PluginLocks.step, hrunning, hstep]⟩
  · exact .inr howned

/-- A party goes on, stands before a locked mutex, or waits for one of smaller rank. -/
theorem Accounted.waits (h : x.Accounted) (hp : x.Unfinished p) :
    x.CanStep p ∨ (∃ m, (x.point p).before = some m ∧ x.owner m ≠ none) ∨
      ∃ q, x.Unfinished q ∧ (x.point q).rank < (x.point p).rank := by
  obtain ⟨hrunning, hpoint⟩ := hp
  cases p with
  | packet n => exact ((ready_packet hpoint).canStep_or_owned hrunning).imp_right .inl
  | caller n => exact ((ready_caller hpoint).canStep_or_owned hrunning).imp_right .inl
  | input n => exact ((ready_input hpoint).canStep_or_owned hrunning).imp_right .inl
  | tick =>
      by_cases hcounter : x.tick = .wait → x.inputsCounter = 0
      · exact ((ready_tick hpoint hcounter).canStep_or_owned hrunning).imp_right .inl
      · -- `tick` waits for a task of `client_inputs`
        obtain ⟨hwait, hne⟩ := Classical.not_imp.mp hcounter
        obtain ⟨n, e, call, hn⟩ := h.counted.exists_input hne
        have hinput : x.point (.input n) = .input call := by simp [point, hn, InputTask.point]
        refine .inr (.inr ⟨.input n, ⟨hrunning, ?_⟩, ?_⟩)
        · rw [hinput]
          rfl
        · have hrank : (x.point .tick).rank = 5 := by rw [point, hwait]; rfl
          rw [hrank, hinput]
          rcases call with _ | (_ | _) <;>
            simp [PartyPoint.rank, PartyPoint.before, callBefore, PluginMutex.anyRank]

/-- **No deadlock**: in every reachable state with an unfinished party, an unfinished party can take a
step. -/
theorem deadlock_free
    {visited : List (Config (PluginLocks threads endpoint buffer) Empty ×
      LocksAction threads endpoint buffer)}
    {x : Config (PluginLocks threads endpoint buffer) Empty}
    (hrun : Run PluginLocks.step start visited x) {p : Party} (hp : x.state.Unfinished p) :
    ∃ q, x.state.Unfinished q ∧ x.state.CanStep q := by
  have haccounted : x.state.Accounted := accounted_run hrun
  exact haccounted.exclusive.exists_enabled (fun q => (x.state.point q).rank)
    (fun q hq => haccounted.waits hq) (fun hbefore hheld => Unfinished.falls hp.1 hbefore hheld) hp

/-- `new_client` calls `disconnect` while a fiber is in `disconnect`. -/
def newClientWaits : List (LocksAction 1 Nat Nat) :=
  [.handleNetworkPacket 0 7 100, .party (.packet 0) .goesOn, .party (.packet 0) .goesOn,
    .party (.packet 0) .goesOn, .party (.packet 0) .goesOn, .tick, .party .tick .goesOn,
    .party .tick .goesOn, .party .tick (.picks 7), .party .tick (.disconnects 7), .disconnect 7,
    .party (.caller 0) .goesOn]

/-- `tick` holds `_shared_mutex` and stands before `_disconnect_mutex`. -/
theorem deadlock_free_new_client_waits :
    ∃ x, exec PluginLocks.step start newClientWaits = some x ∧
      x.state.owner .sharedMutex = some .tick ∧ x.state.owner .disconnectMutex = some (.caller 0) ∧
      ∃ q, x.state.Unfinished q ∧ x.state.CanStep q := by
  obtain ⟨x, hx⟩ := Option.isSome_iff_exists.mp
    (show (exec PluginLocks.step start newClientWaits).isSome = true by decide)
  have hseen : (some x).map (fun x => (x.state.owner .sharedMutex, x.state.owner .disconnectMutex,
      x.state.aborted, (x.state.point .tick).isUnfinished)) =
      some (some .tick, some (.caller 0), false, true) := by
    rw [← hx]
    decide
  obtain ⟨hshared, hseen⟩ := Prod.mk.inj (Option.some.inj hseen)
  obtain ⟨hdisconnect, hseen⟩ := Prod.mk.inj hseen
  obtain ⟨hrunning, hunfinished⟩ := Prod.mk.inj hseen
  obtain ⟨visited, hrun, -⟩ := run_of_exec hx
  have htick : x.state.Unfinished .tick := ⟨hrunning, hunfinished⟩
  exact ⟨x, hx, hshared, hdisconnect, deadlock_free hrun htick⟩

end PluginLocks

end Sekkeizu
