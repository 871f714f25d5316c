/-
# Sekkeizu.Network.Parties — the sections follow the tasks and the fibers.

A unit of a packet task, of a fiber that calls `disconnect` or of a `client_inputs` task is answered by one
section or by none (`Follows`). None of them changes where `tick` stands, so what `tick` has shown and the
sections have not (`owed`) stays owed.
-/
import Sekkeizu.Network.Linearization


namespace Sekkeizu

open PartialSystem Mutexes

variable {threads : Nat} {endpoint buffer : Type*}

/-! ## Where the two ticks stand -/

/-- The disconnect loop, with `_disconnect_mutex` locked. -/
def TickPoint.isDisconnecting : TickPoint threads endpoint → Bool
  | .disconnects _ | .lockAll .. | .lockShared .. | .eraseShared .. | .unlockAll .. | .onDisconnected .. => true
  | _ => false

theorem TickPoint.mem_held_of_isDisconnecting {point : TickPoint threads endpoint}
    (h : point.isDisconnecting = true) : .disconnectMutex ∈ point.held := by
  cases point with
  | disconnects rest => exact Set.mem_singleton _
  | lockAll i e rest => exact Set.mem_insert _ _
  | lockShared e rest => exact Set.mem_insert _ _
  | eraseShared e rest => exact Set.mem_insert_of_mem _ (Set.mem_insert _ _)
  | unlockAll i e rest => exact Set.mem_insert _ _
  | onDisconnected e rest => exact Set.mem_singleton _
  | _ => exact absurd h (by simp [TickPoint.isDisconnecting])

/-- The same place of `tick`, but for the `disconnect` its callback is calling. -/
inductive SamePlace : TickPoint threads endpoint → TickPoint threads endpoint → Prop
  | refl (point : TickPoint threads endpoint) : SamePlace point point
  | newClient (todo : Finset endpoint) (call call' : Option (DisconnectCall endpoint)) :
      SamePlace (.newClient todo call) (.newClient todo call')
  | postNetworkTick (call call' : Option (DisconnectCall endpoint)) :
      SamePlace (.postNetworkTick call) (.postNetworkTick call')

theorem SamePlace.localMutex_eq {now next : TickPoint threads endpoint} (h : SamePlace now next) :
    (next.localMutex : LocalMutex endpoint buffer) = now.localMutex := by
  cases h <;> rfl

namespace Stands

variable [DecidableEq endpoint] {point : TickPoint threads endpoint} {new : Finset endpoint}
variable {unfinished : Multiset endpoint}
variable {data : Finmap fun _ : endpoint => List buffer} {stage : TickStage endpoint}
variable {data' : Finmap fun _ : endpoint => List (Fin threads × buffer)}
variable {owed : List (Observation threads endpoint buffer)}

/-- Only callbacks are owed. -/
theorem side_owed (h : Stands point new unfinished data stage data' owed)
    {o : Observation threads endpoint buffer} (ho : o ∈ owed) : o.side = .callbacks := by
  cases h with
  | between hstage => exact absurd ho List.not_mem_nil
  | clients created hpoint hnodup hnew hnot =>
      obtain ⟨e, -, rfl⟩ := List.mem_map.mp ho
      rfl
  | inputs todo left hpoint hleft hkeys => exact absurd ho List.not_mem_nil
  | answered e =>
      obtain rfl := List.mem_singleton.mp ho
      rfl

theorem stage_ne_aborted (h : Stands point new unfinished data stage data' owed) :
    stage ≠ .aborted := by
  cases h with
  | between hstage =>
      rintro rfl
      unfold TickPoint.stage at hstage
      split at hstage <;> simp at hstage
  | clients | inputs | answered => simp

/-- Outside the disconnect loop of the one the other is not in it either. -/
theorem stage_ne_disconnecting (h : Stands point new unfinished data stage data' owed)
    (hout : point.isDisconnecting = false) (at' : DisconnectStage) (e : endpoint)
    (rest : List endpoint) : stage ≠ .disconnecting at' e rest := by
  cases h with
  | between hstage =>
      rintro rfl
      cases point <;> simp_all [TickPoint.stage, TickPoint.isDisconnecting]
  | clients | inputs => simp
  | answered => exact absurd hout (by simp [TickPoint.isDisconnecting])

/-- While `tick` does not hold `_shared_mutex` the new endpoints may change. -/
theorem of_notMem (h : Stands point new unfinished data stage data' owed)
    (hshared : .sharedMutex ∉ point.held) (new' : Finset endpoint) :
    Stands point new' unfinished data stage data' owed := by
  cases h with
  | between hstage => exact .between hstage
  | clients created hpoint hnodup hnew hnot =>
      rcases hpoint with rfl | ⟨call, rfl⟩
      · exact absurd rfl hshared
      · exact absurd (Set.mem_insert _ _) hshared
  | inputs todo left hpoint hleft hkeys => exact .inputs todo left hpoint hleft hkeys
  | answered e => exact .answered e

theorem of_samePlace {next : TickPoint threads endpoint}
    (h : Stands point new unfinished data stage data' owed) (hplace : SamePlace point next) :
    Stands next new unfinished data stage data' owed := by
  cases hplace with
  | refl => exact h
  | newClient todo call call' =>
      cases h with
      | between hstage => exact absurd hstage (by simp [TickPoint.stage])
      | clients created hpoint hnodup hnew hnot =>
          obtain ⟨call'', heq⟩ := hpoint.resolve_left (by simp)
          obtain ⟨rfl, -⟩ := TickPoint.newClient.inj heq
          exact .clients created (.inr ⟨call', rfl⟩) hnodup hnew hnot
      | inputs todo left hpoint hleft hkeys => exact absurd hpoint (by simp)
  | postNetworkTick call call' =>
      cases h with
      | between hstage => exact .between hstage
      | clients created hpoint hnodup hnew hnot => exact absurd hpoint (by simp)
      | inputs todo left hpoint hleft hkeys => exact absurd hpoint (by simp)

/-- An unfinished task belongs to the stage that serves the clients. -/
theorem exists_inputs (h : Stands point new unfinished data stage data' owed) {e : endpoint}
    (he : e ∈ unfinished) :
    ∃ todo left, (point = .execute todo ∨ point = .wait ∧ todo = ∅) ∧ left.val = todo.val + unfinished ∧
      left ⊆ data'.keys ∧ data = withoutThreads data' ∧ stage = .inputs left ∧ owed = [] := by
  cases h with
  | between | clients | answered => exact absurd he (Multiset.notMem_zero e)
  | inputs todo left hpoint hleft hkeys => exact ⟨todo, left, hpoint, hleft, hkeys, rfl, rfl, rfl⟩

end Stands

/-- `buffers.clear()` -/
theorem mapVals_clear [DecidableEq endpoint]
    {data : Finmap fun _ : endpoint => List (Fin threads × buffer)} {e : endpoint}
    (he : e ∈ data) :
    (withoutThreads data).mapVals (fun e' buffers => if e' = e then [] else buffers) =
      withoutThreads (data.insert e []) := by
  apply Finmap.ext_lookup
  intro e'
  rw [withoutThreads, withoutThreads, Finmap.lookup_mapVals, Finmap.lookup_mapVals, Finmap.lookup_mapVals,
    Finmap.lookup_insert_eq]
  split_ifs with heq
  · subst heq
    obtain ⟨buffers, hbuffers⟩ := Finmap.mem_iff.mp he
    rw [hbuffers]
    rfl
  · cases data.lookup e' <;> rfl

/-- The sections follow a unit of a party, which ends here. -/
abbrev Follows [DecidableEq endpoint] (y : PluginLocks threads endpoint buffer)
    (owed : List (Observation threads endpoint buffer))
    (s : CoreloopNetworkPlugin threads endpoint buffer) : Prop :=
  Answers CoreloopNetworkPlugin.step PluginEvent.observation Observation.side
    (fun owed' s' => RefinesOrAborted owed' y s') owed s

section Follows

variable [DecidableEq endpoint] {x y : PluginLocks threads endpoint buffer}
variable {s s' : CoreloopNetworkPlugin threads endpoint buffer}
variable {owed : List (Observation threads endpoint buffer)}

/-- A unit before its section takes effect. -/
theorem Follows.waits (h : Refines owed y s) : Follows y owed s :=
  Answers.waits (Or.inl h)

/-- A unit that shows what is asked of the plugin: what is owed stays owed. -/
theorem Follows.requests {action : PluginAction threads endpoint buffer}
    {evs : List (PluginEvent threads endpoint buffer)}
    {shown : List (Observation threads endpoint buffer)} (h : Refines owed y s')
    (hstep : CoreloopNetworkPlugin.step s action = some (s', evs))
    (hshown : evs.filterMap PluginEvent.observation = shown) (hside : ∀ o ∈ shown, o.side = .requests) :
    Follows y (owed ++ shown) s := by
  refine Answers.moves action s' evs owed hstep ?_ (Or.inl h)
  rw [hshown]
  apply Agree.swap
  intro o ho p hp
  rw [h.stands.side_owed ho, hside p hp]
  simp

/-- A unit that shows what the plugin has called. -/
theorem Follows.callbacks {action : PluginAction threads endpoint buffer}
    {evs : List (PluginEvent threads endpoint buffer)} (h : RefinesOrAborted [] y s')
    (hstep : CoreloopNetworkPlugin.step s action = some (s', evs))
    (hshown : evs.filterMap PluginEvent.observation = owed) : Follows y owed s := by
  refine Answers.moves action s' evs [] hstep ?_ h
  rw [hshown, List.append_nil]
  exact .refl _ _

end Follows

namespace PluginLocks

variable {x y z : PluginLocks threads endpoint buffer}
variable {s : CoreloopNetworkPlugin threads endpoint buffer}
variable {owed : List (Observation threads endpoint buffer)}

/-! ## The local mutexes for the sections -/

@[simp] theorem update_sharedMutex (owner : PluginMutex threads → Option Party) (p : Option Party)
    (i : Fin threads) : Function.update owner .sharedMutex p (.localMutex i) = owner (.localMutex i) :=
  Function.update_of_ne (fun h => by cases h) _ _

@[simp] theorem update_disconnectMutex (owner : PluginMutex threads → Option Party) (p : Option Party)
    (i : Fin threads) :
    Function.update owner .disconnectMutex p (.localMutex i) = owner (.localMutex i) :=
  Function.update_of_ne (fun h => by cases h) _ _

@[simp] theorem owner_unlock (m : PluginMutex threads) :
    (x.unlock m).owner = Function.update x.owner m none := rfl

theorem localMutexOf_eq {i : Fin threads} (howner : y.owner (.localMutex i) = x.owner (.localMutex i))
    (hpackets : ∀ n, x.owner (.localMutex i) = some (.packet n) → y.packets[n]? = x.packets[n]?)
    (htick : x.owner (.localMutex i) = some .tick →
      (y.tick.localMutex : LocalMutex endpoint buffer) = x.tick.localMutex) :
    y.localMutexOf i = x.localMutexOf i := by
  unfold localMutexOf
  rw [howner]
  cases howned : x.owner (.localMutex i) with
  | none => rfl
  | some p =>
      cases p with
      | tick => exact htick howned
      | packet n => simp only [hpackets n howned]
      | caller n => rfl
      | input n => rfl

theorem localMutexOf_free {i : Fin threads} (h : x.owner (.localMutex i) = none) :
    x.localMutexOf i = .free := by
  rw [localMutexOf, h]

theorem localMutexOf_of_packet {i : Fin threads} {n : Nat} {t : PacketTask threads endpoint buffer}
    (h : x.owner (.localMutex i) = some (.packet n)) (hn : x.packets[n]? = some t) :
    x.localMutexOf i = t.localMutex := by
  rw [localMutexOf, h]
  simp only [hn, Option.elim_some]

/-- A packet task holds the local mutex of its own thread only. -/
theorem uniqueId_of_owner (hx : x.Accounted) {n : Nat} {t : PacketTask threads endpoint buffer}
    {i : Fin threads} (hn : x.packets[n]? = some t) (h : x.owner (.localMutex i) = some (.packet n)) :
    i = t.uniqueId := by
  have hheld : .localMutex i ∈ t.held := by
    have := (hx.exclusive _ _).mp h
    simpa [held, point, hn, PartyPoint.held] using this
  unfold PacketTask.held at hheld
  split at hheld <;> simp_all

/-- A unit of a packet task changes the mutex of its thread at most. -/
theorem update_localMutexOf (hx : x.Accounted) {n : Nat} {t t' : PacketTask threads endpoint buffer}
    {mutex : LocalMutex endpoint buffer} (hn : x.packets[n]? = some t)
    (hpackets : y.packets = x.packets.set n t') (htick : y.tick = x.tick)
    (howner : ∀ j ≠ t.uniqueId, y.owner (.localMutex j) = x.owner (.localMutex j))
    (hself : y.localMutexOf t.uniqueId = mutex) :
    Function.update x.localMutexOf t.uniqueId mutex = y.localMutexOf := by
  funext j
  by_cases hj : j = t.uniqueId
  · subst hj
    rw [Function.update_self, hself]
  · rw [Function.update_of_ne hj]
    symm
    apply localMutexOf_eq (howner j hj)
    · intro k hk
      have hne : n ≠ k := by
        rintro rfl
        exact hj (uniqueId_of_owner hx hn hk)
      rw [hpackets, List.getElem?_set_ne hne]
    · intro _
      rw [htick]

/-- The same, for a task that holds its mutex after the unit. -/
theorem update_localMutexOf_held (hx : x.Accounted) {n : Nat} {t t' : PacketTask threads endpoint buffer}
    (hn : x.packets[n]? = some t) (hpackets : y.packets = x.packets.set n t') (htick : y.tick = x.tick)
    (howner : ∀ j ≠ t.uniqueId, y.owner (.localMutex j) = x.owner (.localMutex j))
    (hheld : y.owner (.localMutex t.uniqueId) = some (.packet n)) :
    Function.update x.localMutexOf t.uniqueId t'.localMutex = y.localMutexOf := by
  apply update_localMutexOf hx hn hpackets htick howner
  apply localMutexOf_of_packet hheld
  rw [hpackets]
  exact List.getElem?_set_self (List.getElem?_eq_some_iff.mp hn).1

/-! ## A packet task -/

theorem owner_of_packet (hx : x.Accounted) {n : Nat} {t : PacketTask threads endpoint buffer}
    {m : PluginMutex threads} (hn : x.packets[n]? = some t) (hm : m ∈ t.held) :
    x.owner m = some (.packet n) := by
  apply (hx.exclusive m _).mpr
  rw [held, point, hn]
  exact hm

/-- A task that waits neither before a unit nor after it. -/
theorem waiting_set {n : Nat} {t t' : PacketTask threads endpoint buffer} (hn : x.packets[n]? = some t)
    (ht : t.waiting = none) (ht' : t'.waiting = none) :
    (x.packets.set n t').filterMap PacketTask.waiting = x.waiting := by
  obtain ⟨before, after, hpackets, rfl, -⟩ := List.split_of_getElem? hn
  rw [waiting, hpackets, List.set_append_right _ _ (Nat.le_refl _), Nat.sub_self, List.set_cons_zero]
  simp [ht, ht']

section Packet

variable [DecidableEq endpoint] {n : Nat} {i : Fin threads} {e : endpoint} {b : buffer}

theorem follows_lockLocal (hx : x.Accounted) (h : Refines owed x s)
    (hn : x.packets[n]? = some ⟨i, e, b, .lockLocal⟩) (hfree : x.owner (.localMutex i) = none) :
    Follows
      { x with
        owner := Function.update x.owner (.localMutex i) (some (.packet n))
        packets := x.packets.set n
          ⟨i, e, b, if e ∈ x.localEndpoints i then .store false else .lockShared⟩ } owed s := by
  obtain ⟨before, after, hpackets, hlength, -⟩ := List.split_of_getElem? hn
  have hwaiting : s.packets = before.filterMap PacketTask.waiting ++
      (i, e, b) :: after.filterMap PacketTask.waiting := by
    rw [h.packets, waiting, hpackets]
    simp [PacketTask.waiting]
  have hmutex : s.localMutex i = .free := by
    rw [h.localMutex, localMutexOf_free hfree]
  have hstep : CoreloopNetworkPlugin.step s (.lockLocal (before.filterMap PacketTask.waiting).length) =
      some ({ s with
        localMutex := Function.update s.localMutex i
          (.packet e b (if e ∈ s.localEndpoints i then .store false else .register))
        packets := before.filterMap PacketTask.waiting ++ after.filterMap PacketTask.waiting }, []) := by
    unfold CoreloopNetworkPlugin.step
    split
    · next habort => exact absurd habort h.stands.stage_ne_aborted
    · simp [CoreloopNetworkPlugin.lockLocal, hwaiting, hmutex, LocalMutex.isFree,
        List.eraseIdx_append_of_length_le (Nat.le_refl _)]
  rw [← List.append_nil owed]
  apply Follows.requests _ hstep rfl (by simp)
  exact {
    h with
    localMutex := by
      have hstage : (.packet e b (if e ∈ s.localEndpoints i then .store false else .register) :
          LocalMutex endpoint buffer) = PacketTask.localMutex
            ⟨i, e, b, if e ∈ x.localEndpoints i then .store false else .lockShared⟩ := by
        rw [h.localEndpoints]
        split_ifs <;> rfl
      dsimp only
      rw [h.localMutex, hstage]
      apply update_localMutexOf_held hx hn
      · rfl
      · rfl
      · intro j hj
        exact Function.update_of_ne (by simpa using hj) _ _
      · exact Function.update_self _ _ _
    packets := by
      dsimp only [waiting]
      rw [hpackets, ← hlength, List.set_append_right _ _ (Nat.le_refl _), Nat.sub_self,
        List.set_cons_zero, List.filterMap_append, List.filterMap_cons]
      split_ifs <;> rfl }

theorem follows_lockShared (hx : x.Accounted) (h : Refines owed x s)
    (hn : x.packets[n]? = some ⟨i, e, b, .lockShared⟩) :
    Follows
      { x with
        owner := Function.update x.owner .sharedMutex (some (.packet n))
        packets := x.packets.set n ⟨i, e, b, .registerShared⟩ } owed s := by
  have howner : x.owner (.localMutex i) = some (.packet n) := owner_of_packet hx hn rfl
  have hmutex : PacketTask.localMutex ⟨i, e, b, .registerShared⟩ = x.localMutexOf i :=
    (localMutexOf_of_packet howner hn).symm
  apply Follows.waits
  exact {
    h with
    localMutex := by
      rw [h.localMutex, ← Function.update_eq_self i x.localMutexOf, ← hmutex]
      apply update_localMutexOf_held hx hn
      · rfl
      · rfl
      · intro j _
        simp
      · simpa using howner
    packets := h.packets.trans (waiting_set hn rfl rfl).symm }

theorem follows_registerShared (hx : x.Accounted) (h : Refines owed x s)
    (hn : x.packets[n]? = some ⟨i, e, b, .registerShared⟩) :
    Follows
      { x.unlock .sharedMutex with
        packets := x.packets.set n ⟨i, e, b, .store true⟩
        endpoints := insert e x.endpoints
        newEndpoints := if e ∈ x.endpoints then x.newEndpoints else insert e x.newEndpoints }
      (owed ++ x.packetShows ⟨i, e, b, .registerShared⟩) s := by
  have howner : x.owner (.localMutex i) = some (.packet n) :=
    owner_of_packet hx hn (Set.mem_insert_of_mem _ rfl)
  have hshared : x.owner .sharedMutex = some (.packet n) := owner_of_packet hx hn (Set.mem_insert _ _)
  have hmutex : s.localMutex i = .packet e b .register := by
    rw [h.localMutex, localMutexOf_of_packet howner hn]
    rfl
  have hstep : CoreloopNetworkPlugin.step s (.registerShared i) =
      some ({ s with
        localMutex := Function.update s.localMutex i (.packet e b (.store true))
        endpoints := insert e s.endpoints
        newEndpoints := if e ∈ s.endpoints then s.newEndpoints else insert e s.newEndpoints },
        if e ∈ s.endpoints then [] else [.registered e]) := by
    unfold CoreloopNetworkPlugin.step
    split
    · next habort => exact absurd habort h.stands.stage_ne_aborted
    · simp only [CoreloopNetworkPlugin.registerShared, hmutex]
      split_ifs with hin
      · rw [Finset.insert_eq_of_mem hin]
      · rfl
  apply Follows.requests _ hstep
  · rw [h.endpoints, packetShows]
    split_ifs <;> rfl
  · intro o ho
    simp only [packetShows] at ho
    split_ifs at ho
    · exact absurd ho List.not_mem_nil
    · obtain rfl := List.mem_singleton.mp ho
      rfl
  exact {
    h with
    localMutex := by
      dsimp only
      rw [h.localMutex]
      show Function.update x.localMutexOf i (PacketTask.localMutex ⟨i, e, b, .store true⟩) = _
      apply update_localMutexOf_held hx hn
      · rfl
      · rfl
      · intro j _
        simp
      · simpa using howner
    newEndpoints := by
      dsimp only
      rw [h.endpoints, h.newEndpoints]
    endpoints := congrArg (insert e) h.endpoints
    packets := h.packets.trans (waiting_set hn rfl rfl).symm
    stands := by
      apply h.stands.of_notMem
      intro hheld
      have howner : x.owner .sharedMutex = some .tick := (hx.exclusive _ .tick).mpr hheld
      rw [hshared] at howner
      exact absurd howner (by simp) }

/-- The vector a task appends to is there. -/
theorem exists_pending (h : Refines owed x s) (hs : s.Sections) {fresh : Bool}
    (hmutex : s.localMutex i = .packet e b (.store fresh)) :
    ∃ buffers, (if fresh then (x.pendingInputs i).emplace e [] else x.pendingInputs i).lookup e =
      some buffers := by
  apply Option.ne_none_iff_exists'.mp
  rw [← Finmap.mem_iff_lookup_ne_none, ← h.pendingInputs]
  cases fresh with
  | true =>
      rw [if_pos rfl, Finmap.mem_iff_lookup_ne_none, Finmap.lookup_emplace]
      split_ifs with hout
      · simp
      · rw [← Finmap.mem_iff_lookup_ne_none]
        exact Classical.not_not.mp fun hnot => hout ⟨rfl, hnot⟩
  | false => exact (hs.mem_iff i e).mpr (hs.known hmutex)

theorem follows_store (hx : x.Accounted) (hs : s.Sections) (h : Refines owed x s) {fresh : Bool}
    (hn : x.packets[n]? = some ⟨i, e, b, .store fresh⟩) (hstep : x.packetStep n = some y) :
    Follows y (owed ++ [.received i e b]) s := by
  have howner : x.owner (.localMutex i) = some (.packet n) := owner_of_packet hx hn rfl
  have hmutex : s.localMutex i = .packet e b (.store fresh) := by
    rw [h.localMutex, localMutexOf_of_packet howner hn]
    rfl
  obtain ⟨buffers, hbuffers⟩ := exists_pending h hs hmutex
  unfold packetStep at hstep
  simp only [hn, hbuffers] at hstep
  obtain rfl := Option.some.inj hstep
  have hstored : CoreloopNetworkPlugin.step s (.storeLocal i) =
      some ({ s with
        localMutex := Function.update s.localMutex i .free
        localEndpoints := Function.update s.localEndpoints i
          (if fresh then insert e (s.localEndpoints i) else s.localEndpoints i)
        pendingInputs := Function.update s.pendingInputs i
          ((if fresh then (s.pendingInputs i).emplace e [] else s.pendingInputs i).insert e
            (buffers ++ [b])) }, [.received i e b]) := by
    unfold CoreloopNetworkPlugin.step
    split
    · next habort => exact absurd habort h.stands.stage_ne_aborted
    · simp only [CoreloopNetworkPlugin.storeLocal, hmutex, h.pendingInputs, hbuffers]
  refine Follows.requests ?_ hstored rfl ?_
  · exact {
      h with
      localMutex := by
        dsimp only
        rw [h.localMutex]
        apply update_localMutexOf hx hn
        · rfl
        · rfl
        · intro j hj
          exact Function.update_of_ne (by simpa using hj) _ _
        · exact localMutexOf_free (Function.update_self _ _ _)
      localEndpoints := by
        dsimp only
        rw [h.localEndpoints]
      pendingInputs := by
        dsimp only
        rw [h.pendingInputs]
      packets := h.packets.trans (waiting_set hn rfl rfl).symm
      tested := by
        intro idx hidx
        dsimp only
        by_cases heq : idx = i
        · subst heq
          rw [Function.update_self]
          exact Finset.ne_empty_of_mem (Finmap.mem_keys.mpr (Finmap.mem_insert.mpr (.inl rfl)))
        · rw [Function.update_of_ne heq]
          exact h.tested idx hidx }
  · intro o ho
    obtain rfl := List.mem_singleton.mp ho
    rfl

theorem follows_packetStep (hx : x.Accounted) (hs : s.Sections) (h : Refines owed x s)
    (hstep : x.packetStep n = some y) : Follows y (owed ++ x.partyShows (.packet n) .goesOn) s := by
  cases hn : x.packets[n]? with
  | none => simp [packetStep, hn] at hstep
  | some t =>
      have hshows : x.partyShows (.packet n) .goesOn = x.packetShows t := by
        rw [partyShows, hn, Option.elim_some]
      rw [hshows]
      obtain ⟨i, e, b, point⟩ := t
      cases point with
      | lockLocal =>
          simp only [packetStep, hn] at hstep
          obtain ⟨z, hlock, rfl⟩ := Option.map_eq_some_iff.mp hstep
          obtain ⟨hfree, rfl⟩ := lock_eq_some hlock
          rw [packetShows, List.append_nil]
          exact follows_lockLocal hx h hn hfree
      | lockShared =>
          simp only [packetStep, hn] at hstep
          obtain ⟨z, hlock, rfl⟩ := Option.map_eq_some_iff.mp hstep
          obtain ⟨-, rfl⟩ := lock_eq_some hlock
          rw [packetShows, List.append_nil]
          exact follows_lockShared hx h hn
      | registerShared =>
          have hfollows := follows_registerShared hx h hn
          simp only [packetStep, hn] at hstep
          split_ifs at hstep with hin
          · obtain rfl := Option.some.inj hstep
            rwa [if_pos hin, Finset.insert_eq_of_mem hin] at hfollows
          · obtain rfl := Option.some.inj hstep
            rwa [if_neg hin] at hfollows
      | store fresh => exact follows_store hx hs h hn hstep
      | done => simp [packetStep, hn] at hstep

end Packet

/-! ## A call of `disconnect` -/

/-- A party other than `tick` that holds `_disconnect_mutex` keeps `tick` out of the loop. -/
theorem isDisconnecting_eq_false (hx : x.Accounted) {p : Party} (hp : p ≠ .tick)
    (hheld : .disconnectMutex ∈ x.held p) : x.tick.isDisconnecting = false := by
  rw [← Bool.not_eq_true]
  intro hloop
  have htick : .disconnectMutex ∈ x.held .tick := TickPoint.mem_held_of_isDisconnecting hloop
  exact hp (hx.exclusive.unique hheld htick)

section Calls

variable [DecidableEq endpoint]

/-- Outside the loop a fiber may push. -/
theorem disconnectLocked_eq_false (h : Refines owed x s) (hout : x.tick.isDisconnecting = false) :
    s.disconnectLocked = false := by
  unfold CoreloopNetworkPlugin.disconnectLocked
  split
  · next at' e rest hstage => exact absurd hstage (h.stands.stage_ne_disconnecting hout at' e rest)
  · rfl

/-- A unit of a call changes the owner of `_disconnect_mutex` and the requests, at most. -/
theorem refines_call (h : Refines owed x s) {tick : TickPoint threads endpoint}
    (callers : List (Option (DisconnectCall endpoint))) {inputs : List (InputTask endpoint)}
    (hplace : SamePlace x.tick tick) (hinputs : Account.total InputTask.client inputs = x.unfinished)
    {owner : PluginMutex threads → Option Party}
    (howner : ∀ i, owner (.localMutex i) = x.owner (.localMutex i)) (requests : List endpoint) :
    Refines owed
      { x with
        owner := owner
        pendingDisconnects := x.pendingDisconnects ++ requests
        tick := tick
        callers := callers
        inputs := inputs }
      { s with pendingDisconnects := s.pendingDisconnects ++ requests } where
  running := h.running
  localMutex := by
    funext i
    rw [h.localMutex]
    symm
    apply localMutexOf_eq
    · exact howner i
    · intro n _
      rfl
    · intro _
      exact hplace.localMutex_eq
  localEndpoints := h.localEndpoints
  pendingInputs := h.pendingInputs
  newEndpoints := h.newEndpoints
  endpoints := h.endpoints
  pendingDisconnects := congrArg (· ++ requests) h.pendingDisconnects
  packets := h.packets
  counter := h.counter.trans (congrArg Multiset.card hinputs.symm)
  tested := by
    rintro idx (rfl | rfl)
    · generalize hnow : x.tick = now at hplace
      cases hplace
      exact h.tested idx (.inl hnow)
    · generalize hnow : x.tick = now at hplace
      cases hplace
      exact h.tested idx (.inr hnow)
  requested := by
    rintro rfl
    generalize hnow : x.tick = now at hplace
    cases hplace
    exact List.append_ne_nil_of_left_ne_nil (h.requested hnow) _
  stands := by
    have hstands := h.stands.of_samePlace hplace
    rw [← hinputs] at hstands
    exact hstands

/-- **A unit of a call** of `disconnect`, made by a party that does not hold `_disconnect_mutex` for the
loop. -/
theorem follows_calls (h : Refines owed x s) {p : Party} {call call' : Option (DisconnectCall endpoint)}
    (hcalls : Calls p x call z call') (hout : ∀ e, call = some (.push e) → x.tick.isDisconnecting = false)
    (tick : TickPoint threads endpoint) (callers : List (Option (DisconnectCall endpoint)))
    (inputs : List (InputTask endpoint)) (hplace : SamePlace x.tick tick)
    (hinputs : Account.total InputTask.client inputs = x.unfinished) :
    Follows { z with tick := tick, callers := callers, inputs := inputs } (owed ++ callShows call) s := by
  cases hcalls with
  | starts e =>
      show Follows _ (owed ++ []) s
      rw [List.append_nil]
      apply Follows.waits
      have hrefines := refines_call h callers hplace hinputs (fun _ => rfl) []
      rwa [List.append_nil, List.append_nil] at hrefines
  | locks e hfree =>
      show Follows _ (owed ++ []) s
      rw [List.append_nil]
      apply Follows.waits
      have hrefines := refines_call h callers hplace hinputs
        (update_disconnectMutex x.owner (some p)) []
      rwa [List.append_nil, List.append_nil] at hrefines
  | pushes e =>
      have hunlocked : s.disconnectLocked = false := disconnectLocked_eq_false h (hout e rfl)
      have hstep : CoreloopNetworkPlugin.step s (.disconnect e) =
          some ({ s with pendingDisconnects := s.pendingDisconnects ++ [e] }, [.disconnect e]) := by
        unfold CoreloopNetworkPlugin.step
        split
        · next habort => exact absurd habort h.stands.stage_ne_aborted
        · simp [hunlocked]
      refine Follows.requests ?_ hstep rfl ?_
      · exact refines_call h callers hplace hinputs (update_disconnectMutex x.owner none) [e]
      · intro o ho
        obtain rfl := List.mem_singleton.mp ho
        rfl

theorem follows_callerStep (hx : x.Accounted) (h : Refines owed x s) {n : Nat}
    (hstep : x.callerStep n = some y) : Follows y (owed ++ x.partyShows (.caller n) .goesOn) s := by
  unfold callerStep at hstep
  split at hstep
  · next call hn =>
      obtain ⟨⟨call', z⟩, hcall, rfl⟩ := Option.map_eq_some_iff.mp hstep
      have hcalls : Calls (.caller n) x (some call) z call' := calls_of_disconnectStep hcall
      have hshows : x.partyShows (.caller n) .goesOn = callShows (some call) := by
        rw [partyShows, hn, Option.elim_some]
      rw [hshows]
      have hout : ∀ e, some call = some (.push e) → x.tick.isDisconnecting = false := by
        intro e he
        apply isDisconnecting_eq_false hx (p := .caller n) (by simp)
        obtain rfl := Option.some.inj he
        rw [held, point, hn]
        exact Set.mem_singleton _
      have hfollows := follows_calls h hcalls hout x.tick (x.callers.set n call') x.inputs (.refl x.tick) rfl
      obtain ⟨owner, requests, rfl⟩ := hcalls.eq
      exact hfollows
  · exact absurd hstep (by simp)

end Calls

/-! ## A `client_inputs` task -/

theorem total_set_input {n : Nat} {e : endpoint} {call call' : Option (DisconnectCall endpoint)}
    (hn : x.inputs[n]? = some (.clientInputs e call)) :
    Account.total InputTask.client (x.inputs.set n (.clientInputs e call')) = x.unfinished := by
  have htotal : Account.total InputTask.client (x.inputs.set n (.clientInputs e call')) + {e} =
      Account.total InputTask.client x.inputs + {e} := Account.total_set hn _
  exact add_right_cancel htotal

variable [DecidableEq endpoint]

/-- A unit of the callback that is not its return. -/
theorem inputShows_of_ne {choice : Choice endpoint} {e : endpoint}
    {call : Option (DisconnectCall endpoint)} (h : choice = .goesOn → call = none → False) :
    x.inputShows choice (.clientInputs e call) = callShows call := by
  cases call with
  | some c => rfl
  | none =>
      cases choice with
      | goesOn => exact (h rfl rfl).elim
      | _ => rfl

/-- `client_inputs` returns. -/
theorem follows_returned (h : Refines owed x s) {n : Nat} {e : endpoint}
    (hn : x.inputs[n]? = some (.clientInputs e none)) :
    Follows
      { x with
        endpointData := x.endpointData.mapVals fun e' data => if e' = e then [] else data
        inputsCounter := x.inputsCounter - 1
        inputs := x.inputs.set n .done }
      (owed ++ [.clientInputs e ((x.endpointData.lookup e).getD [])]) s := by
  have htotal : Account.total InputTask.client (x.inputs.set n .done) + {e} = x.unfinished + 0 :=
    Account.total_set hn .done
  rw [add_zero] at htotal
  have he : e ∈ x.unfinished := by
    rw [← htotal]
    exact Multiset.mem_add.mpr (.inr (Multiset.mem_singleton_self e))
  obtain ⟨todo, left, hpoint, hleft, hkeys, hdata, hstage, rfl⟩ := h.stands.exists_inputs he
  have hmem : e ∈ left := by
    rw [← Finset.mem_val, hleft]
    exact Multiset.mem_add.mpr (.inr he)
  have hin : e ∈ s.endpointData := Finmap.mem_keys.mp (hkeys hmem)
  obtain ⟨buffers, hbuffers⟩ := Finmap.mem_iff.mp hin
  have hstep : CoreloopNetworkPlugin.step s (.clientInputs e) =
      some ({ s with
        endpointData := s.endpointData.insert e []
        stage := .inputs (left.erase e) }, [.clientInputs e buffers]) := by
    simp [CoreloopNetworkPlugin.step, CoreloopNetworkPlugin.clientInputs, hstage, hmem, hbuffers]
  apply Follows.callbacks (.inl _) hstep
  · simp [PluginEvent.observation, hdata, withoutThreads, hbuffers]
  exact {
    h with
    counter := by
      have hcard := congrArg Multiset.card htotal
      rw [Multiset.card_add, Multiset.card_singleton, ← h.counter] at hcard
      exact Nat.sub_eq_of_eq_add hcard.symm
    stands := by
      have hleft' : (left.erase e).val = todo.val + Account.total InputTask.client (x.inputs.set n .done) := by
        rw [Finset.erase_val, hleft, ← htotal, ← add_assoc, add_comm, Multiset.singleton_add,
          Multiset.erase_cons_head]
      have hkeys' : left.erase e ⊆ (s.endpointData.insert e []).keys := by
        intro e' he'
        exact Finmap.mem_keys.mpr (Finmap.mem_insert.mpr
          (.inr (Finmap.mem_keys.mp (hkeys (Finset.mem_of_mem_erase he')))))
      have hstands : Stands x.tick x.newEndpoints _ _ _ _ _ := .inputs todo (left.erase e) hpoint hleft' hkeys'
      rw [← mapVals_clear hin, ← hdata] at hstands
      exact hstands }

theorem follows_inputStep (hx : x.Accounted) (h : Refines owed x s) {n : Nat}
    {choice : Choice endpoint} (hstep : x.inputStep n choice = some y) :
    Follows y (owed ++ x.partyShows (.input n) choice) s := by
  unfold inputStep at hstep
  split at hstep
  · next _ e hn =>
      obtain rfl := Option.some.inj hstep
      rw [partyShows, hn, Option.elim_some]
      exact follows_returned h hn
  · next _ e call hn hcase =>
      obtain ⟨⟨call', z⟩, hcall, rfl⟩ := Option.map_eq_some_iff.mp hstep
      have hcalls : Calls (.input n) x call z call' := calls_of_callbackStep hcall
      rw [partyShows, hn, Option.elim_some, inputShows_of_ne hcase]
      have hout : ∀ e', call = some (.push e') → x.tick.isDisconnecting = false := by
        intro e' he
        apply isDisconnecting_eq_false hx (p := .input n) (by simp)
        subst he
        rw [held, point, hn]
        exact Set.mem_singleton _
      have hfollows := follows_calls h hcalls hout x.tick x.callers (x.inputs.set n (.clientInputs e call'))
        (.refl x.tick) (total_set_input hn)
      obtain ⟨owner, requests, rfl⟩ := hcalls.eq
      exact hfollows
  · exact absurd hstep (by simp)

end PluginLocks

end Sekkeizu
