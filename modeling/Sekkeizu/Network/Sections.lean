/-
# Sekkeizu.Network.Sections — what one unit of the plugin does.

`Acts` lists the units with their effect, and `acts_of_step` is the inversion of `step`; nothing
after it unfolds the step again. The effects are given as they are in a state where the two maps of a
thread have the same keys (`Locals`): then a task always finds the vector it appends to, and clearing a
thread clears both maps, whichever branch the code takes.

`Sections` collects what holds in every run, however the plugin is used: who holds the local mutexes at
which stage of a disconnect, that a thread knows registered endpoints only, and that the vectors of the
clients are empty outside the two stages that fill and serve them.
-/
import Sekkeizu.Network.Plugin


namespace Sekkeizu

open PartialSystem

variable {threads : Nat} {endpoint buffer : Type*}

/-- The stage after the callback of a disconnect, with these disconnects still to come. -/
def TickStage.resume : List endpoint → TickStage endpoint
  | [] => .idle
  | e :: rest => .disconnecting .eraseData e rest

namespace CoreloopNetworkPlugin

/-! ## The maps of one thread -/

/-- The two maps of a thread have the same keys, and a task that found its endpoint still finds it. -/
structure Locals (x : CoreloopNetworkPlugin threads endpoint buffer) : Prop where
  mem_iff : ∀ i e, e ∈ x.pendingInputs i ↔ e ∈ x.localEndpoints i
  known : ∀ {i e b}, x.localMutex i = .packet e b (.store false) → e ∈ x.localEndpoints i

theorem isFree_iff {m : LocalMutex endpoint buffer} : m.isFree = true ↔ m = .free := by
  cases m <;> simp [LocalMutex.isFree]

variable [DecidableEq endpoint]

/-! ## The units -/

/-- The stages `tick` leaves without doing anything else. -/
inductive Passes (x : CoreloopNetworkPlugin threads endpoint buffer) :
    TickStage endpoint → TickStage endpoint → Prop
  /-- Nothing to collect from this thread. -/
  | skip (idx : Nat) : Passes x (.accumulate idx) (.accumulate (idx + 1))
  | collected (idx : Nat) : Passes x (.accumulate idx) (.inputs x.endpointData.keys)
  | served : Passes x (.inputs ∅) .post
  | quiet : Passes x .disconnects .idle
  | enter (e : endpoint) (rest : List endpoint) (hrequests : x.pendingDisconnects = e :: rest) :
      Passes x .disconnects (.disconnecting .eraseData e rest)
  | locked (i : Nat) (e : endpoint) (rest : List endpoint) (hi : threads ≤ i) :
      Passes x (.disconnecting (.lock i) e rest) (.disconnecting .eraseShared e rest)
  | absent (e : endpoint) (rest : List endpoint) (habsent : e ∉ x.endpoints) :
      Passes x (.disconnecting .eraseShared e rest) .aborted
  | unlocked (i : Nat) (e : endpoint) (rest : List endpoint) (hi : threads ≤ i) :
      Passes x (.disconnecting (.unlock i) e rest) (.disconnecting .callback e rest)

/-- **One unit**, in a state where `Locals` holds: the action, the state afterwards and the events. -/
inductive Acts (x : CoreloopNetworkPlugin threads endpoint buffer) :
    PluginAction threads endpoint buffer → CoreloopNetworkPlugin threads endpoint buffer →
      List (PluginEvent threads endpoint buffer) → Prop
  | submit (i : Fin threads) (e : endpoint) (b : buffer) :
      Acts x (.handleNetworkPacket i e b) { x with packets := x.packets ++ [(i, e, b)] }
        [.submitted i e b]
  | lockLocal (position : Nat) (i : Fin threads) (e : endpoint) (b : buffer)
      (before after : List (Fin threads × endpoint × buffer)) (stage : PacketStage)
      (hpackets : x.packets = before ++ (i, e, b) :: after) (hfree : x.localMutex i = .free)
      (hstage : stage = if e ∈ x.localEndpoints i then .store false else .register) :
      Acts x (.lockLocal position)
        { x with
          localMutex := Function.update x.localMutex i (.packet e b stage)
          packets := before ++ after } []
  | foundShared (i : Fin threads) (e : endpoint) (b : buffer)
      (hmutex : x.localMutex i = .packet e b .register) (hin : e ∈ x.endpoints) :
      Acts x (.registerShared i)
        { x with localMutex := Function.update x.localMutex i (.packet e b (.store true)) } []
  | registerShared (i : Fin threads) (e : endpoint) (b : buffer)
      (hmutex : x.localMutex i = .packet e b .register) (hout : e ∉ x.endpoints) :
      Acts x (.registerShared i)
        { x with
          localMutex := Function.update x.localMutex i (.packet e b (.store true))
          endpoints := insert e x.endpoints
          newEndpoints := insert e x.newEndpoints } [.registered e]
  | storeLocal (i : Fin threads) (e : endpoint) (b : buffer) (fresh : Bool)
      (hmutex : x.localMutex i = .packet e b (.store fresh)) :
      Acts x (.storeLocal i)
        { x with
          localMutex := Function.update x.localMutex i .free
          localEndpoints := Function.update x.localEndpoints i (insert e (x.localEndpoints i))
          pendingInputs := Function.update x.pendingInputs i
            ((x.pendingInputs i).insert e (x.pendingOf i e ++ [b])) } [.received i e b]
  | disconnect (e : endpoint) (hunlocked : x.disconnectLocked = false) :
      Acts x (.disconnect e) { x with pendingDisconnects := x.pendingDisconnects ++ [e] }
        [.disconnect e]
  | newClients (order : List endpoint) (hstage : x.stage = .idle) (hnodup : order.Nodup)
      (horder : ∀ e, e ∈ order ↔ e ∈ x.newEndpoints) :
      Acts x (.newClients order)
        { x with
          endpointData := order.foldl (fun data e => data.emplace e []) x.endpointData
          newEndpoints := ∅
          stage := .accumulate 0 } (order.map .newClient)
  | clientInputs (e : endpoint) (todo : Finset endpoint) (data : List (Fin threads × buffer))
      (hstage : x.stage = .inputs todo) (hmem : e ∈ todo)
      (hdata : x.endpointData.lookup e = some data) :
      Acts x (.clientInputs e)
        { x with endpointData := x.endpointData.insert e [], stage := .inputs (todo.erase e) }
        [.clientInputs e data]
  | pass (stage : TickStage endpoint) (hpasses : Passes x x.stage stage) :
      Acts x .tick { x with stage := stage } []
  | collect (idx : Fin threads) (hstage : x.stage = .accumulate idx)
      (hfree : x.localMutex idx = .free) :
      Acts x .tick { x.collect idx with stage := .accumulate (idx + 1) } []
  | post (hstage : x.stage = .post) :
      Acts x .tick { x with stage := .disconnects } [.postNetworkTick]
  | eraseData (e : endpoint) (rest : List endpoint)
      (hstage : x.stage = .disconnecting .eraseData e rest) :
      Acts x .tick
        { x with
          endpointData := x.endpointData.erase e
          stage := .disconnecting (.lock 0) e rest } []
  | lock (i : Fin threads) (e : endpoint) (rest : List endpoint)
      (hstage : x.stage = .disconnecting (.lock i) e rest) (hfree : x.localMutex i = .free) :
      Acts x .tick
        { x with
          localMutex := Function.update x.localMutex i .tick
          stage := .disconnecting (.lock (i + 1)) e rest } []
  | eraseShared (e : endpoint) (rest : List endpoint)
      (hstage : x.stage = .disconnecting .eraseShared e rest) (hin : e ∈ x.endpoints) :
      Acts x .tick
        { x with
          endpoints := x.endpoints.erase e
          stage := .disconnecting (.unlock 0) e rest } []
  | unlock (i : Fin threads) (e : endpoint) (rest : List endpoint)
      (hstage : x.stage = .disconnecting (.unlock i) e rest) :
      Acts x .tick
        { x with
          localMutex := Function.update x.localMutex i .free
          localEndpoints := Function.update x.localEndpoints i ((x.localEndpoints i).erase e)
          pendingInputs := Function.update x.pendingInputs i ((x.pendingInputs i).erase e)
          stage := .disconnecting (.unlock (i + 1)) e rest } [.released i e]
  | callback (e : endpoint) (rest : List endpoint)
      (hstage : x.stage = .disconnecting .callback e rest) :
      Acts x .tick
        { x with
          pendingDisconnects := if rest = [] then [] else x.pendingDisconnects
          stage := .resume rest } [.onDisconnected e]

section Inversion

variable {x y : CoreloopNetworkPlugin threads endpoint buffer}
variable {evs : List (PluginEvent threads endpoint buffer)}

theorem acts_of_lockLocal {position : Nat} (h : x.lockLocal position = some (y, evs)) :
    Acts x (.lockLocal position) y evs := by
  unfold lockLocal at h
  cases hpacket : x.packets[position]? with
  | none => simp [hpacket] at h
  | some packet =>
      obtain ⟨i, e, b⟩ := packet
      simp only [hpacket] at h
      obtain ⟨before, after, hpackets, -, herase⟩ := List.split_of_getElem? hpacket
      rw [herase] at h
      split_ifs at h with hfree hin
      · obtain ⟨rfl, rfl⟩ := Prod.mk.inj (Option.some.inj h)
        exact .lockLocal position i e b before after _ hpackets (isFree_iff.mp hfree)
          (if_pos hin).symm
      · obtain ⟨rfl, rfl⟩ := Prod.mk.inj (Option.some.inj h)
        exact .lockLocal position i e b before after _ hpackets (isFree_iff.mp hfree)
          (if_neg hin).symm

theorem acts_of_registerShared {i : Fin threads} (h : x.registerShared i = some (y, evs)) :
    Acts x (.registerShared i) y evs := by
  unfold registerShared at h
  split at h
  · next e b hmutex =>
      dsimp only at h
      split_ifs at h with hin
      · obtain ⟨rfl, rfl⟩ := Prod.mk.inj (Option.some.inj h)
        exact .foundShared i e b hmutex hin
      · obtain ⟨rfl, rfl⟩ := Prod.mk.inj (Option.some.inj h)
        exact .registerShared i e b hmutex hin
  · exact absurd h (by simp)

/-- The vector a task appends to is always there. -/
theorem acts_of_storeLocal (hlocals : Locals x) {i : Fin threads}
    (h : x.storeLocal i = some (y, evs)) : Acts x (.storeLocal i) y evs := by
  unfold storeLocal at h
  split at h
  · next e b fresh hmutex =>
      have hacts := Acts.storeLocal (x := x) i e b fresh hmutex
      cases fresh with
      | true =>
          have hlookup : ((x.pendingInputs i).emplace e []).lookup e = some (x.pendingOf i e) := by
            rw [Finmap.lookup_emplace, pendingOf]
            split_ifs with hout
            · rw [Finmap.lookup_eq_none.mpr hout.2, Option.getD_none]
            · obtain ⟨buffers, hbuffers⟩ := Finmap.mem_iff.mp (not_not.mp fun hnot => hout ⟨rfl, hnot⟩)
              rw [hbuffers, Option.getD_some]
          simp only [if_true, hlookup, Finmap.insert_emplace] at h
          obtain ⟨rfl, rfl⟩ := Prod.mk.inj (Option.some.inj h)
          exact hacts
      | false =>
          have hknown := hlocals.known hmutex
          obtain ⟨buffers, hbuffers⟩ := Finmap.mem_iff.mp ((hlocals.mem_iff i e).mpr hknown)
          have hpending : x.pendingOf i e = buffers := by
            rw [pendingOf, hbuffers, Option.getD_some]
          simp only [Bool.false_eq_true, if_false, hbuffers] at h
          obtain ⟨rfl, rfl⟩ := Prod.mk.inj (Option.some.inj h)
          rw [hpending, Finset.insert_eq_of_mem hknown] at hacts
          exact hacts
  · exact absurd h (by simp)

theorem acts_of_disconnectStep (hlocals : Locals x) {stage : DisconnectStage} {e : endpoint}
    {rest : List endpoint} (hstage : x.stage = .disconnecting stage e rest)
    (h : x.disconnectStep stage e rest = some (y, evs)) : Acts x .tick y evs := by
  cases stage with
  | eraseData =>
      obtain ⟨rfl, rfl⟩ := Prod.mk.inj (Option.some.inj h)
      exact .eraseData e rest hstage
  | lock i =>
      simp only [disconnectStep] at h
      split_ifs at h with hi hfree
      · obtain ⟨rfl, rfl⟩ := Prod.mk.inj (Option.some.inj h)
        exact .lock ⟨i, hi⟩ e rest hstage (isFree_iff.mp hfree)
      · obtain ⟨rfl, rfl⟩ := Prod.mk.inj (Option.some.inj h)
        exact .pass _ (hstage ▸ .locked i e rest (Nat.le_of_not_lt hi))
  | eraseShared =>
      simp only [disconnectStep] at h
      split_ifs at h with hin
      · obtain ⟨rfl, rfl⟩ := Prod.mk.inj (Option.some.inj h)
        exact .eraseShared e rest hstage hin
      · obtain ⟨rfl, rfl⟩ := Prod.mk.inj (Option.some.inj h)
        exact .pass _ (hstage ▸ .absent e rest hin)
  | unlock i =>
      simp only [disconnectStep] at h
      split_ifs at h with hi hin
      · obtain ⟨rfl, rfl⟩ := Prod.mk.inj (Option.some.inj h)
        exact .unlock ⟨i, hi⟩ e rest hstage
      · obtain ⟨rfl, rfl⟩ := Prod.mk.inj (Option.some.inj h)
        -- nothing to clear: erasing from both maps is the identity
        have hacts := Acts.unlock (x := x) ⟨i, hi⟩ e rest hstage
        rw [Finset.erase_eq_of_notMem hin,
          Finmap.erase_of_notMem (mt (hlocals.mem_iff ⟨i, hi⟩ e).mp hin), Function.update_eq_self,
          Function.update_eq_self] at hacts
        exact hacts
      · obtain ⟨rfl, rfl⟩ := Prod.mk.inj (Option.some.inj h)
        exact .pass _ (hstage ▸ .unlocked i e rest (Nat.le_of_not_lt hi))
  | callback =>
      cases rest with
      | nil =>
          obtain ⟨rfl, rfl⟩ := Prod.mk.inj (Option.some.inj h)
          exact .callback e [] hstage
      | cons e' rest' =>
          obtain ⟨rfl, rfl⟩ := Prod.mk.inj (Option.some.inj h)
          exact .callback e (e' :: rest') hstage

theorem acts_of_tick (hlocals : Locals x) (h : x.tick = some (y, evs)) :
    Acts x .tick y evs := by
  unfold tick at h
  split at h
  · next idx hstage =>
      split_ifs at h with hidx hempty hfree
      · obtain ⟨rfl, rfl⟩ := Prod.mk.inj (Option.some.inj h)
        exact .pass _ (hstage ▸ .skip idx)
      · obtain ⟨rfl, rfl⟩ := Prod.mk.inj (Option.some.inj h)
        exact .collect ⟨idx, hidx⟩ hstage (isFree_iff.mp hfree)
      · obtain ⟨rfl, rfl⟩ := Prod.mk.inj (Option.some.inj h)
        exact .pass _ (hstage ▸ .collected idx)
  · next todo hstage =>
      split_ifs at h with hempty
      obtain ⟨rfl, rfl⟩ := Prod.mk.inj (Option.some.inj h)
      subst hempty
      exact .pass _ (hstage ▸ .served)
  · next hstage =>
      obtain ⟨rfl, rfl⟩ := Prod.mk.inj (Option.some.inj h)
      exact .post hstage
  · next hstage =>
      cases hrequests : x.pendingDisconnects with
      | nil =>
          simp only [hrequests] at h
          obtain ⟨rfl, rfl⟩ := Prod.mk.inj (Option.some.inj h)
          rw [← hrequests]
          exact .pass _ (hstage ▸ .quiet)
      | cons e rest =>
          simp only [hrequests] at h
          obtain ⟨rfl, rfl⟩ := Prod.mk.inj (Option.some.inj h)
          rw [← hrequests]
          exact .pass _ (hstage ▸ .enter e rest hrequests)
  · next stage e rest hstage => exact acts_of_disconnectStep hlocals hstage h
  · exact absurd h (by simp)

/-- **The inversion of `step`.** -/
theorem acts_of_step (hlocals : Locals x) {a : PluginAction threads endpoint buffer}
    (h : step x a = some (y, evs)) : Acts x a y evs := by
  unfold step at h
  split at h
  · exact absurd h (by simp)
  · cases a with
    | handleNetworkPacket i e b =>
        obtain ⟨rfl, rfl⟩ := Prod.mk.inj (Option.some.inj h)
        exact .submit i e b
    | lockLocal position => exact acts_of_lockLocal h
    | registerShared i => exact acts_of_registerShared h
    | storeLocal i => exact acts_of_storeLocal hlocals h
    | disconnect e =>
        dsimp only at h
        split_ifs at h with hlocked
        obtain ⟨rfl, rfl⟩ := Prod.mk.inj (Option.some.inj h)
        exact .disconnect e (by simpa using hlocked)
    | newClients order =>
        dsimp only [newClients] at h
        split at h
        · next hstage =>
            split_ifs at h with horder
            obtain ⟨rfl, rfl⟩ := Prod.mk.inj (Option.some.inj h)
            refine .newClients order hstage horder.1 fun e => ?_
            rw [← horder.2, List.mem_toFinset]
        · exact absurd h (by simp)
    | clientInputs e =>
        dsimp only [clientInputs] at h
        split at h
        · next todo hstage =>
            split_ifs at h with hmem
            split at h
            · exact absurd h (by simp)
            · next data hdata =>
                obtain ⟨rfl, rfl⟩ := Prod.mk.inj (Option.some.inj h)
                exact .clientInputs e todo data hstage hmem hdata
        · exact absurd h (by simp)
    | tick => exact acts_of_tick hlocals h

end Inversion

end CoreloopNetworkPlugin

/-! ## What holds in every run -/

namespace TickStage

/-- `tick` holds `_local_mutex[i]`. -/
def Holds : TickStage endpoint → Nat → Prop
  | .disconnecting (.lock j) _ _, i => i < j
  | .disconnecting .eraseShared _ _, _ => True
  | .disconnecting (.unlock j) _ _, i => j ≤ i
  | _, _ => False

/-- The endpoint is erased from `_endpoints` and not yet from the maps of thread `i`. -/
def Clearing : TickStage endpoint → Nat → endpoint → Prop
  | .disconnecting (.unlock j) e' _, i, e => e' = e ∧ j ≤ i
  | _, _, _ => False

/-- The vector of the client may hold buffers. -/
def Serving : TickStage endpoint → endpoint → Prop
  | .accumulate _, _ => True
  | .inputs todo, e => e ∈ todo
  | _, _ => False

theorem holds_of_clearing {stage : TickStage endpoint} {i : Nat} {e : endpoint}
    (h : stage.Clearing i e) : stage.Holds i := by
  unfold Clearing at h
  split at h
  · exact h.2
  · exact h.elim

/-- An endpoint is being cleared while its disconnect gives the mutexes back. -/
theorem exists_of_clearing {stage : TickStage endpoint} {i : Nat} {e : endpoint}
    (h : stage.Clearing i e) :
    ∃ (j : Nat) (rest : List endpoint), stage = .disconnecting (.unlock j) e rest ∧ j ≤ i := by
  cases stage with
  | disconnecting at' e' rest =>
      cases at' with
      | unlock j =>
          obtain ⟨rfl, hj⟩ := h
          exact ⟨j, rest, rfl, hj⟩
      | _ => exact h.elim
  | _ => exact h.elim

end TickStage

namespace CoreloopNetworkPlugin

variable [DecidableEq endpoint]

/-- **The invariants of the sections.** -/
structure Sections (x : CoreloopNetworkPlugin threads endpoint buffer) : Prop extends Locals x where
  holds : ∀ {i : Fin threads}, x.stage.Holds i → x.localMutex i = .tick
  registered : ∀ {i : Fin threads} {e}, e ∈ x.localEndpoints i →
    e ∈ x.endpoints ∨ x.stage.Clearing i e
  storing : ∀ {i e b fresh}, x.localMutex i = .packet e b (.store fresh) → e ∈ x.endpoints
  cleared : ∀ {e data}, x.endpointData.lookup e = some data → ¬ x.stage.Serving e → data = []

section Step

variable {x y : CoreloopNetworkPlugin threads endpoint buffer}
variable {a : PluginAction threads endpoint buffer}
variable {evs : List (PluginEvent threads endpoint buffer)}

/-- What a unit does to the mutex of one thread, and to the endpoints the thread knows. -/
inductive MutexMove (x y : CoreloopNetworkPlugin threads endpoint buffer) (i : Fin threads) : Prop
  | same (hmutex : y.localMutex i = x.localMutex i)
      (hlocal : y.localEndpoints i = x.localEndpoints i)
  | freed (hmutex : y.localMutex i = .free)
  | ticked (hmutex : y.localMutex i = .tick)
  | started (e : endpoint) (b : buffer) (stage : PacketStage) (hfree : x.localMutex i = .free)
      (hmutex : y.localMutex i = .packet e b stage)
      (hstage : stage = .store false → e ∈ x.localEndpoints i) (hfresh : stage ≠ .store true)
      (hlocal : y.localEndpoints i = x.localEndpoints i)
  | shared (e : endpoint) (b : buffer) (hbefore : x.localMutex i = .packet e b .register)
      (hmutex : y.localMutex i = .packet e b (.store true)) (hin : e ∈ y.endpoints)

theorem Acts.mutexMove (hf : Acts x a y evs) (i : Fin threads) : MutexMove x y i := by
  cases hf with
  | lockLocal position j e b before after stage hpackets hfree hstage =>
      by_cases hij : i = j
      · subst hij
        refine .started e b stage hfree (Function.update_self ..) ?_ ?_ rfl
        · intro heq
          by_contra hout
          rw [heq, if_neg hout] at hstage
          exact absurd hstage (by simp)
        · rintro rfl
          split_ifs at hstage
          all_goals exact absurd hstage (by simp)
      · exact .same (Function.update_of_ne hij ..) rfl
  | foundShared j e b hmutex hin =>
      by_cases hij : i = j
      · subst hij
        exact .shared e b hmutex (Function.update_self ..) hin
      · exact .same (Function.update_of_ne hij ..) rfl
  | registerShared j e b hmutex hout =>
      by_cases hij : i = j
      · subst hij
        exact .shared e b hmutex (Function.update_self ..) (Finset.mem_insert_self ..)
      · exact .same (Function.update_of_ne hij ..) rfl
  | storeLocal j e b fresh hmutex =>
      by_cases hij : i = j
      · subst hij
        exact .freed (Function.update_self ..)
      · exact .same (Function.update_of_ne hij ..) (Function.update_of_ne hij ..)
  | lock j e rest hstage hfree =>
      by_cases hij : i = j
      · subst hij
        exact .ticked (Function.update_self ..)
      · exact .same (Function.update_of_ne hij ..) rfl
  | unlock j e rest hstage =>
      by_cases hij : i = j
      · subst hij
        exact .freed (Function.update_self ..)
      · exact .same (Function.update_of_ne hij ..) (Function.update_of_ne hij ..)
  | _ => exact .same rfl rfl

theorem Acts.mem_iff (hf : Acts x a y evs) (h : Locals x) (i : Fin threads) (e : endpoint) :
    e ∈ y.pendingInputs i ↔ e ∈ y.localEndpoints i := by
  cases hf with
  | storeLocal j e' b fresh hmutex =>
      dsimp only
      by_cases hij : i = j
      · subst hij
        rw [Function.update_self, Function.update_self, Finmap.mem_insert, Finset.mem_insert,
          h.mem_iff]
      · rw [Function.update_of_ne hij, Function.update_of_ne hij, h.mem_iff]
  | collect j hstage hfree =>
      dsimp only [CoreloopNetworkPlugin.collect]
      by_cases hij : i = j
      · subst hij
        rw [Function.update_self, Finmap.mem_mapVals, h.mem_iff]
      · rw [Function.update_of_ne hij, h.mem_iff]
  | unlock j e' rest hstage =>
      dsimp only
      by_cases hij : i = j
      · subst hij
        rw [Function.update_self, Function.update_self, Finmap.mem_erase, Finset.mem_erase,
          h.mem_iff]
      · rw [Function.update_of_ne hij, Function.update_of_ne hij, h.mem_iff]
  | _ => exact h.mem_iff i e

theorem Acts.known (hf : Acts x a y evs) (h : Locals x) {i : Fin threads} {e : endpoint}
    {b : buffer} (hm : y.localMutex i = .packet e b (.store false)) : e ∈ y.localEndpoints i := by
  cases hf.mutexMove i with
  | same hmutex hlocal =>
      rw [hlocal]
      exact h.known (hmutex ▸ hm)
  | freed hmutex => exact absurd (hmutex.symm.trans hm) (by simp)
  | ticked hmutex => exact absurd (hmutex.symm.trans hm) (by simp)
  | started e' b' stage hfree hmutex hstage hfresh hlocal =>
      obtain ⟨rfl, -, rfl⟩ := LocalMutex.packet.inj (hmutex.symm.trans hm)
      rw [hlocal]
      exact hstage rfl
  | shared e' b' hbefore hmutex hin => exact absurd (hmutex.symm.trans hm) (by simp)

/-- No unit takes an endpoint out of `_endpoints` but the section of its own disconnect. -/
theorem Acts.endpoints_mono (hf : Acts x a y evs) {e : endpoint} (he : e ∈ x.endpoints) :
    e ∈ y.endpoints ∨
      (∃ rest, x.stage = .disconnecting .eraseShared e rest ∧
        y.stage = .disconnecting (.unlock 0) e rest) := by
  cases hf with
  | registerShared j e' b hmutex hout => exact Or.inl (Finset.mem_insert_of_mem he)
  | eraseShared e' rest hstage hin =>
      by_cases heq : e = e'
      · subst heq
        exact Or.inr ⟨rest, hstage, rfl⟩
      · exact Or.inl (Finset.mem_erase.mpr ⟨heq, he⟩)
  | _ => exact Or.inl he

theorem Acts.storing (hf : Acts x a y evs) (h : Sections x) {i : Fin threads} {e : endpoint}
    {b : buffer} {fresh : Bool} (hm : y.localMutex i = .packet e b (.store fresh)) :
    e ∈ y.endpoints := by
  -- a task that stores and the erasing section exclude each other: `tick` has the mutex there
  have hkept : e ∈ x.endpoints → x.localMutex i ≠ .tick → e ∈ y.endpoints := by
    intro he hnot
    apply (hf.endpoints_mono he).resolve_right
    rintro ⟨rest, hstage, -⟩
    exact hnot (h.holds (by rw [hstage]; trivial))
  cases hf.mutexMove i with
  | same hmutex hlocal =>
      rw [hmutex] at hm
      exact hkept (h.storing hm) (by rw [hm]; simp)
  | freed hmutex => exact absurd (hmutex.symm.trans hm) (by simp)
  | ticked hmutex => exact absurd (hmutex.symm.trans hm) (by simp)
  | started e' b' stage hfree hmutex hstage hfresh hlocal =>
      obtain ⟨rfl, -, rfl⟩ := LocalMutex.packet.inj (hmutex.symm.trans hm)
      cases fresh with
      | true => exact absurd rfl hfresh
      | false =>
          refine hkept ((h.registered (hstage rfl)).resolve_right fun hclearing => ?_)
            (by rw [hfree]; simp)
          have htick := h.holds (TickStage.holds_of_clearing hclearing)
          exact absurd (hfree.symm.trans htick) (by simp)
  | shared e' b' hbefore hmutex hin =>
      obtain ⟨rfl, -, -⟩ := LocalMutex.packet.inj (hmutex.symm.trans hm)
      exact hin

theorem Acts.holds (hf : Acts x a y evs) (h : Sections x) {i : Fin threads}
    (hi : y.stage.Holds i) : y.localMutex i = .tick := by
  -- an action of a packet task leaves the stage, and takes or gives back a mutex `tick` has not
  have hother : ∀ {j m}, x.stage.Holds i → x.localMutex j ≠ .tick →
      Function.update x.localMutex j m i = .tick := by
    intro j m hheld hnot
    have hne : i ≠ j := by
      rintro rfl
      exact hnot (h.holds hheld)
    rw [Function.update_of_ne hne]
    exact h.holds hheld
  cases hf with
  | lockLocal position j e b before after stage hpackets hfree hstage =>
      exact hother hi (by rw [hfree]; simp)
  | foundShared j e b hmutex hin => exact hother hi (by rw [hmutex]; simp)
  | registerShared j e b hmutex hout => exact hother hi (by rw [hmutex]; simp)
  | storeLocal j e b fresh hmutex => exact hother hi (by rw [hmutex]; simp)
  | newClients => exact hi.elim
  | clientInputs => exact hi.elim
  | pass stage hpasses =>
      generalize hbefore : x.stage = before at hpasses
      cases hpasses with
      | locked j e rest hj =>
          apply h.holds
          rw [hbefore]
          exact Nat.lt_of_lt_of_le i.isLt hj
      | _ => exact hi.elim
  | collect => exact hi.elim
  | post => exact hi.elim
  | eraseData => exact absurd hi (Nat.not_lt_zero _)
  | lock j e rest hstage hfree =>
      by_cases hij : i = j
      · subst hij
        exact Function.update_self ..
      · dsimp only
        rw [Function.update_of_ne hij]
        apply h.holds
        rw [hstage]
        have hle := Nat.lt_succ_iff.mp (show (i : Nat) < j + 1 from hi)
        exact Nat.lt_of_le_of_ne hle fun heq => hij (Fin.ext heq)
  | eraseShared e rest hstage hin =>
      apply h.holds
      rw [hstage]
      trivial
  | unlock j e rest hstage =>
      have hle : (j : Nat) + 1 ≤ i := hi
      have hij : i ≠ j := by
        rintro rfl
        omega
      dsimp only
      rw [Function.update_of_ne hij]
      apply h.holds
      rw [hstage]
      exact Nat.le_of_succ_le hle
  | callback e rest hstage =>
      cases rest with
      | nil => exact hi.elim
      | cons e' rest' => exact hi.elim
  | _ => exact h.holds hi

theorem Acts.registered (hf : Acts x a y evs) (h : Sections x) {i : Fin threads} {e : endpoint}
    (he : e ∈ y.localEndpoints i) : e ∈ y.endpoints ∨ y.stage.Clearing i e := by
  cases hf with
  | registerShared j e' b hmutex hout =>
      exact (h.registered he).imp (Finset.mem_insert_of_mem ·) id
  | storeLocal j e' b fresh hmutex =>
      by_cases hij : i = j
      · subst hij
        simp only [Function.update_self, Finset.mem_insert] at he
        rcases he with rfl | he
        · exact Or.inl (h.storing hmutex)
        · exact h.registered he
      · simp only [Function.update_of_ne hij] at he
        exact h.registered he
  | newClients order hstage hnodup horder =>
      exact Or.inl ((h.registered he).resolve_right (by rw [hstage]; exact id))
  | clientInputs e' todo data hstage hmem hdata =>
      exact Or.inl ((h.registered he).resolve_right (by rw [hstage]; exact id))
  | pass stage hpasses =>
      refine Or.inl ((h.registered he).resolve_right ?_)
      generalize x.stage = before at hpasses
      cases hpasses with
      | unlocked j e' rest hj =>
          intro hclearing
          exact absurd (Nat.lt_of_lt_of_le i.isLt hj) (Nat.not_lt.mpr hclearing.2)
      | _ => exact id
  | collect j hstage hfree =>
      exact Or.inl ((h.registered he).resolve_right (by rw [hstage]; exact id))
  | post hstage => exact Or.inl ((h.registered he).resolve_right (by rw [hstage]; exact id))
  | eraseData e' rest hstage =>
      exact Or.inl ((h.registered he).resolve_right (by rw [hstage]; exact id))
  | lock j e' rest hstage hfree =>
      exact Or.inl ((h.registered he).resolve_right (by rw [hstage]; exact id))
  | eraseShared e' rest hstage hin =>
      have hin := (h.registered he).resolve_right (by rw [hstage]; exact id)
      by_cases heq : e = e'
      · exact Or.inr ⟨heq.symm, Nat.zero_le _⟩
      · exact Or.inl (Finset.mem_erase.mpr ⟨heq, hin⟩)
  | unlock j e' rest hstage =>
      by_cases hij : i = j
      · subst hij
        simp only [Function.update_self, Finset.mem_erase] at he
        refine Or.inl ((h.registered he.2).resolve_right ?_)
        rw [hstage]
        exact fun hclearing => he.1 hclearing.1.symm
      · simp only [Function.update_of_ne hij] at he
        apply (h.registered he).imp id
        intro hclearing
        rw [hstage] at hclearing
        have hne : (j : Nat) ≠ i := fun heq => hij (Fin.ext heq.symm)
        exact ⟨hclearing.1, Nat.lt_of_le_of_ne hclearing.2 hne⟩
  | callback e' rest hstage =>
      exact Or.inl ((h.registered he).resolve_right (by rw [hstage]; exact id))
  | _ => exact h.registered he

theorem Acts.cleared (hf : Acts x a y evs) (h : Sections x) {e : endpoint}
    {data : List (Fin threads × buffer)} (hdata : y.endpointData.lookup e = some data)
    (hidle : ¬ y.stage.Serving e) : data = [] := by
  cases hf with
  | newClients => exact absurd trivial hidle
  | clientInputs e' todo data' hstage hmem hdata' =>
      simp only [Finmap.lookup_insert_eq] at hdata
      split_ifs at hdata with heq
      · exact (Option.some.inj hdata).symm
      · apply h.cleared hdata
        rw [hstage]
        exact fun hin => hidle (Finset.mem_erase.mpr ⟨heq, hin⟩)
  | pass stage hpasses =>
      apply h.cleared hdata
      generalize x.stage = before at hpasses
      cases hpasses with
      | skip => exact absurd trivial hidle
      | collected =>
          have hin := Finmap.mem_keys.mpr (Finmap.mem_of_lookup_eq_some hdata)
          exact absurd hin hidle
      | served => exact Finset.notMem_empty e
      | _ => exact id
  | collect => exact absurd trivial hidle
  | post hstage => exact h.cleared hdata (by rw [hstage]; exact id)
  | eraseData e' rest hstage =>
      simp only [Finmap.lookup_erase_eq] at hdata
      split_ifs at hdata
      exact h.cleared hdata (by rw [hstage]; exact id)
  | lock j e' rest hstage hfree => exact h.cleared hdata (by rw [hstage]; exact id)
  | eraseShared e' rest hstage hin => exact h.cleared hdata (by rw [hstage]; exact id)
  | unlock j e' rest hstage => exact h.cleared hdata (by rw [hstage]; exact id)
  | callback e' rest hstage => exact h.cleared hdata (by rw [hstage]; exact id)
  | _ => exact h.cleared hdata hidle

/-- **Every unit keeps the invariants.** -/
theorem Sections.step (h : Sections x) (hstep : step x a = some (y, evs)) : Sections y := by
  have hf := acts_of_step h.toLocals hstep
  exact {
    mem_iff := hf.mem_iff h.toLocals
    known := hf.known h.toLocals
    holds := hf.holds h
    registered := hf.registered h
    storing := hf.storing h
    cleared := hf.cleared h }

end Step

theorem sections_new : Sections (new : CoreloopNetworkPlugin threads endpoint buffer) where
  mem_iff _ _ := iff_of_false Finmap.notMem_empty (Finset.notMem_empty _)
  known hm := absurd hm (by simp [new])
  holds hi := hi.elim
  registered he := absurd he (Finset.notMem_empty _)
  storing hm := absurd hm (by simp [new])
  cleared hdata _ := absurd hdata (by simp [new])

end CoreloopNetworkPlugin

end Sekkeizu
