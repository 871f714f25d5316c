/-
# Sekkeizu.Network.Memory — how much memory the receive loop takes.

`per_thread_pool` never gives memory back, so what matters is how much it ever takes. `get` looks in the free queue
first: when it allocates and the queue was empty, everything allocated is in use. So a pool is as large as the most
that was in use at once, but for the times `get` allocated next to a free object, which the concurrent queue may do
(`memory_high_water`).

The endpoint objects in use are with a receive or with a packet task, all of them (`endpoints_run`): no unit loses
one. Their pool is bounded by the network threads and the packet tasks that are unfinished at once.
-/
import Sekkeizu.Network.Receives
import Sekkeizu.Semantics.Reservoirs
import Mathlib.Algebra.BigOperators.Group.Finset.Piecewise


namespace Sekkeizu

open PartialSystem
open Account (total total_nil total_append total_singleton total_set total_eq_zero)

variable {threads : Nat} {endpoint object buffer : Type*}

/-! ## The packet tasks of the plugin -/

/-- The packet that the event submits. -/
def PluginEvent.submittedPacket : PluginEvent threads endpoint buffer → Multiset buffer
  | .submitted _ _ b => {b}
  | _ => 0

/-- The packet that the event stores. -/
def PluginEvent.storedPacket : PluginEvent threads endpoint buffer → Multiset buffer
  | .received _ _ b => {b}
  | _ => 0

/-- The packet of the task that holds the mutex. -/
def LocalMutex.carried : LocalMutex endpoint buffer → Multiset buffer
  | .packet _ b _ => {b}
  | _ => 0

namespace CoreloopNetworkPlugin

/-- The packets of all packet tasks that have not stored theirs. -/
def packetsInTasks (x : CoreloopNetworkPlugin threads endpoint buffer) : Multiset buffer :=
  (x.packets.map fun p => p.2.2 : List buffer) + ∑ i, (x.localMutex i).carried

variable {x y : CoreloopNetworkPlugin threads endpoint buffer}
variable {a : PluginAction threads endpoint buffer}
variable {evs : List (PluginEvent threads endpoint buffer)}

/-- A mutex that changes hands. -/
theorem sum_update_carried (f : Fin threads → LocalMutex endpoint buffer) (i : Fin threads)
    (m : LocalMutex endpoint buffer) :
    ∑ j, (Function.update f i m j).carried + (f i).carried = ∑ j, (f j).carried + m.carried := by
  have hnew : ∀ m : LocalMutex endpoint buffer, ∑ j, (Function.update f i m j).carried =
      m.carried + ∑ j ∈ Finset.univ \ {i}, (f j).carried := by
    intro m
    rw [← Finset.sum_update_of_mem (Finset.mem_univ i)]
    refine Finset.sum_congr rfl fun j _ => ?_
    by_cases hj : j = i
    · rw [hj, Function.update_self, Function.update_self]
    · rw [Function.update_of_ne hj, Function.update_of_ne hj]
  have hold := hnew (f i)
  rw [Function.update_eq_self] at hold
  rw [hnew m, hold]
  abel

/-- **The packet tasks** get what is submitted and give what is stored; no unit loses a packet here. -/
theorem Acts.packetsInTasks [DecidableEq endpoint] (hf : Acts x a y evs) (h : Sections x) :
    y.packetsInTasks + total PluginEvent.storedPacket evs =
      x.packetsInTasks + total PluginEvent.submittedPacket evs := by
  -- a mutex that changes hands without a packet
  have hquiet : ∀ {i : Fin threads} {m : LocalMutex endpoint buffer},
      m.carried = (x.localMutex i).carried →
        ∑ j, (Function.update x.localMutex i m j).carried = ∑ j, (x.localMutex j).carried := by
    intro i m hm
    have hsum := sum_update_carried x.localMutex i m
    rw [hm] at hsum
    exact add_right_cancel hsum
  cases hf with
  | submit i e b =>
      rw [total_singleton, total_singleton, CoreloopNetworkPlugin.packetsInTasks, List.map_append,
        ← Multiset.coe_add]
      show _ + ({b} : Multiset buffer) + _ + (0 : Multiset buffer) = _ + _ + {b}
      abel
  | lockLocal position i e b before after stage hpackets hfree hstage =>
      have hsum := sum_update_carried x.localMutex i (.packet e b stage)
      rw [hfree] at hsum
      rw [total_nil, total_nil, add_zero, add_zero, CoreloopNetworkPlugin.packetsInTasks,
        CoreloopNetworkPlugin.packetsInTasks, hpackets,
        show ∑ j, (Function.update x.localMutex i (.packet e b stage) j).carried = _ from
          (add_zero _).symm.trans hsum, List.map_append, List.map_append, ← Multiset.coe_add,
        ← Multiset.coe_add, List.map_cons, ← Multiset.cons_coe, ← Multiset.singleton_add]
      show _ + _ + (_ + {b}) = _
      abel
  | foundShared i e b hmutex hin =>
      rw [total_nil, total_nil, add_zero, add_zero, CoreloopNetworkPlugin.packetsInTasks,
        hquiet (by rw [hmutex]; rfl)]
      rfl
  | registerShared i e b hmutex hout =>
      rw [total_singleton, total_singleton, CoreloopNetworkPlugin.packetsInTasks,
        hquiet (by rw [hmutex]; rfl)]
      rfl
  | storeLocal i e b fresh hmutex =>
      have hsum := sum_update_carried x.localMutex i .free
      rw [hmutex] at hsum
      rw [total_singleton, total_singleton, CoreloopNetworkPlugin.packetsInTasks,
        CoreloopNetworkPlugin.packetsInTasks,
        show ∑ j, (x.localMutex j).carried = _ from ((add_zero _).symm.trans hsum.symm)]
      show _ + _ + ({b} : Multiset buffer) = _ + (_ + {b}) + (0 : Multiset buffer)
      abel
  | lock i e rest hstage hfree =>
      rw [total_nil, total_nil, add_zero, add_zero, CoreloopNetworkPlugin.packetsInTasks,
        hquiet (by rw [hfree]; rfl)]
      rfl
  | unlock i e rest hstage =>
      have htick : x.localMutex i = .tick := h.holds (by rw [hstage]; exact Nat.le_refl i)
      rw [total_singleton, total_singleton, CoreloopNetworkPlugin.packetsInTasks,
        hquiet (by rw [htick]; rfl)]
      rfl
  | newClients order hstage hnodup horder =>
      have hnone : ∀ f : PluginEvent threads endpoint buffer → Multiset buffer,
          (∀ e, f (.newClient e) = 0) → total f (order.map .newClient) = 0 := by
        intro f hf
        refine total_eq_zero fun ev hev => ?_
        obtain ⟨e, -, rfl⟩ := List.mem_map.mp hev
        exact hf e
      rw [hnone _ fun _ => rfl, hnone _ fun _ => rfl]
      rfl
  | _ => rfl

end CoreloopNetworkPlugin

/-! ## The pools as reservoirs -/

section Pools

variable {α : Type*} [DecidableEq α]

/-- `get` allocates although an object is free. -/
def PerThreadPool.misses (source : PoolSource α) (pool : PerThreadPool α) : Bool :=
  match source with
  | .dequeued _ => false
  | .malloced _ => !pool.freeObjects.isEmpty

/-- A `get` makes one object at most, and takes one from the free queue otherwise. -/
theorem PerThreadPool.made_of_get {source : PoolSource α} {pool pool' : PerThreadPool α} {object : α}
    (h : pool.get source = some (object, pool')) :
    pool'.allocated.card = pool.allocated.card ∨
      pool'.allocated.card = pool.allocated.card + 1 ∧
        pool'.freeObjects.length = pool.freeObjects.length ∧
        (pool.misses source = true ∨ pool.freeObjects.length = 0) := by
  cases source with
  | dequeued position =>
      simp only [PerThreadPool.get] at h
      cases hobject : pool.freeObjects[position]? with
      | none => simp [hobject] at h
      | some object' =>
          simp only [hobject] at h
          obtain ⟨rfl, rfl⟩ := Prod.mk.inj (Option.some.inj h)
          exact Or.inl rfl
  | malloced object' =>
      simp only [PerThreadPool.get] at h
      split_ifs at h with hin
      obtain ⟨rfl, rfl⟩ := Prod.mk.inj (Option.some.inj h)
      refine Or.inr ⟨Finset.card_insert_of_notMem hin, rfl, ?_⟩
      cases hfree : pool.freeObjects <;> simp [PerThreadPool.misses, hfree]

/-- What a `get` takes is in use afterwards; the rest stays where it was. -/
theorem PerThreadPool.Gets.balance {pool pool' : PerThreadPool α} {object : α}
    (hgets : pool.Gets object pool') {used : Multiset α}
    (h : pool.allocated.val = pool.freeObjects + used) :
    pool'.allocated.val = pool'.freeObjects + (used + {object}) := by
  cases hgets with
  | dequeued free hfree =>
      show pool.allocated.val = _
      rw [h, hfree]
      abel
  | malloced hfresh =>
      show (insert object pool.allocated).val = (pool.freeObjects : Multiset α) + _
      rw [Finset.insert_val_of_notMem hfresh, h, ← Multiset.singleton_add]
      abel

end Pools

namespace CoreLoop

open CoreloopNetworkPlugin

/-- `_data_mempool`. -/
def dataReservoir : Reservoir (CoreLoop threads endpoint object buffer)
    (CoreLoopAction threads endpoint object buffer) where
  made x := x.dataMempool.allocated.card
  idle x := x.dataMempool.freeObjects.length
  misses x action :=
    match action with
    | .startThread source | .handlerBuffer _ source => x.dataMempool.misses source
    | _ => false

/-- `_endpoints_mempool`. -/
def endpointsReservoir : Reservoir (CoreLoop threads endpoint object buffer)
    (CoreLoopAction threads endpoint object buffer) where
  made x := x.endpointsMempool.allocated.card
  idle x := x.endpointsMempool.freeObjects.length
  misses x action :=
    match action with
    | .startReceive source | .handlerReceive _ source => x.endpointsMempool.misses source
    | _ => false

variable {x y : CoreLoop threads endpoint object buffer} {networkThreads : UInt16}
variable {action : CoreLoopAction threads endpoint object buffer}
variable {evs : List (PluginEvent threads endpoint (buffer × object))}

theorem dataReservoir_moves [DecidableEq endpoint] [DecidableEq object] [DecidableEq buffer]
    (hstep : CoreLoop.step networkThreads x action = some (y, evs)) :
    dataReservoir.Moves x y action := by
  cases units_of_step hstep with
  | startThread source b pool hstart hlt hget =>
      rcases PerThreadPool.made_of_get hget with hsame | ⟨hmade, hidle, hmiss⟩
      · exact .keeps hsame
      · exact .makes hmade hidle hmiss
  | handlerBuffer k source b pool hstage hget =>
      rcases PerThreadPool.made_of_get hget with hsame | ⟨hmade, hidle, hmiss⟩
      · exact .keeps hsame
      · exact .makes hmade hidle hmiss
  | _ => exact .keeps rfl

theorem endpointsReservoir_moves [DecidableEq endpoint] [DecidableEq object] [DecidableEq buffer]
    (hstep : CoreLoop.step networkThreads x action = some (y, evs)) :
    endpointsReservoir.Moves x y action := by
  cases units_of_step hstep with
  | startReceive source b o pool hstart hget =>
      rcases PerThreadPool.made_of_get hget with hsame | ⟨hmade, hidle, hmiss⟩
      · exact .keeps hsame
      · exact .makes hmade hidle hmiss
  | handlerReceive k source b o pool hstage hget =>
      rcases PerThreadPool.made_of_get hget with hsame | ⟨hmade, hidle, hmiss⟩
      · exact .keeps hsame
      · exact .makes hmade hidle hmiss
  | _ => exact .keeps rfl

/-! ## The endpoint objects in use -/

/-- The endpoint objects in use: those of the receives, those of the packet tasks that have not stored their
buffer, and those of the tasks that have. -/
def objectsInUse (x : CoreLoop threads endpoint object buffer) : Multiset object :=
  total ReceiveStage.objects x.receives + x.plugin.packetsInTasks.map Prod.snd + x.ending

/-- The packet tasks that have not ended. -/
def packetTasks (x : CoreLoop threads endpoint object buffer) : ℕ :=
  x.plugin.packetsInTasks.card + x.ending.length

/-- **No endpoint object is lost**: what is allocated is free or in use, each once. -/
def EndpointsComplete (x : CoreLoop threads endpoint object buffer) : Prop :=
  x.endpointsMempool.allocated.val = x.endpointsMempool.freeObjects + x.objectsInUse

/-- A unit that keeps the pool and what is in use. -/
theorem EndpointsComplete.congr (h : EndpointsComplete x) (hpool : y.endpointsMempool = x.endpointsMempool)
    (huse : y.objectsInUse = x.objectsInUse) : EndpointsComplete y := by
  rw [EndpointsComplete, hpool, huse]
  exact h

/-- An object that was in use is given back. -/
theorem EndpointsComplete.release (h : EndpointsComplete x) {o : object}
    (hpool : y.endpointsMempool = x.endpointsMempool.release o)
    (huse : y.objectsInUse + {o} = x.objectsInUse) : EndpointsComplete y := by
  show y.endpointsMempool.allocated.val = y.endpointsMempool.freeObjects + y.objectsInUse
  rw [hpool, PerThreadPool.release_free]
  show x.endpointsMempool.allocated.val = _
  rw [show x.endpointsMempool.allocated.val = _ from h, ← huse]
  abel

/-- An object comes out of the pool. -/
theorem EndpointsComplete.get [DecidableEq object] (h : EndpointsComplete x) {o : object}
    (hgets : x.endpointsMempool.Gets o y.endpointsMempool)
    (huse : y.objectsInUse = x.objectsInUse + {o}) : EndpointsComplete y := by
  rw [EndpointsComplete, huse]
  exact hgets.balance h

theorem map_total_storedPacket (evs : List (PluginEvent threads endpoint (buffer × object))) :
    (total PluginEvent.storedPacket evs).map Prod.snd =
      (evs.flatMap PluginEvent.storedObject : List object) := by
  induction evs with
  | nil => rfl
  | cons ev evs ih =>
      rw [List.flatMap_cons, ← Multiset.coe_add, ← ih]
      show (ev.storedPacket + total PluginEvent.storedPacket evs).map Prod.snd = _
      rw [Multiset.map_add]
      cases ev <;> rfl

/-- The unit of the plugin that submits a packet. -/
theorem packetsInTasks_submitted [DecidableEq endpoint] (h : Sections x.plugin) {i : Fin threads} {e : endpoint}
    {p : buffer × object} {plugin : CoreloopNetworkPlugin threads endpoint (buffer × object)}
    (hstep : x.plugin.step (.handleNetworkPacket i e p) = some (plugin, evs)) :
    plugin.packetsInTasks = x.plugin.packetsInTasks + {p} := by
  have hf := acts_of_step h.toLocals hstep
  have hbooks := hf.packetsInTasks h
  have hevs : evs = [.submitted i e p] := by
    cases hf with
    | submit => rfl
  rw [hevs, total_singleton, total_singleton] at hbooks
  exact (add_zero _).symm.trans hbooks

/-- The other units: the object of a packet that is stored goes to the end of its task. -/
theorem packetsInTasks_stored [DecidableEq endpoint] (h : Sections x.plugin)
    {action : PluginAction threads endpoint (buffer × object)}
    {plugin : CoreloopNetworkPlugin threads endpoint (buffer × object)} (haction : action.isSubmission = false)
    (hstep : x.plugin.step action = some (plugin, evs)) :
    plugin.packetsInTasks.map Prod.snd + (evs.flatMap PluginEvent.storedObject : List object) =
      x.plugin.packetsInTasks.map Prod.snd := by
  have hf := acts_of_step h.toLocals hstep
  have hbooks := hf.packetsInTasks h
  have hsubmitted : total PluginEvent.submittedPacket evs = (0 : Multiset (buffer × object)) := by
    refine total_eq_zero fun ev hev => ?_
    cases hf.traffic haction with
    | silent hsilent =>
        cases ev with
        | submitted i e p =>
            have htaken := ((hsilent _ hev).1 i e).1
            rw [PluginEvent.taken, if_pos ⟨rfl, rfl⟩] at htaken
            exact absurd htaken (by simp)
        | _ => rfl
    | stored i e p =>
        rw [List.mem_singleton.mp hev]
        rfl
    | handed e data =>
        rw [List.mem_singleton.mp hev]
        rfl
  rw [hsubmitted, add_zero] at hbooks
  rw [← map_total_storedPacket, ← Multiset.map_add, hbooks]

/-- **Every unit keeps every endpoint object.** -/
theorem EndpointsComplete.step [DecidableEq endpoint] [DecidableEq object] [DecidableEq buffer]
    (hcustody : Custody x) (h : EndpointsComplete x)
    (hstep : CoreLoop.step networkThreads x action = some (y, evs)) : EndpointsComplete y := by
  -- a receive that changes its stage and keeps its object
  have hset : ∀ {k : Nat} {stage stage' : ReceiveStage object buffer}, x.receives[k]? = some stage →
      stage'.objects = stage.objects →
        total ReceiveStage.objects (x.receives.set k stage') = total ReceiveStage.objects x.receives := by
    intro k stage stage' hstage hsame
    have htotal := total_set (f := ReceiveStage.objects) hstage stage'
    rw [hsame] at htotal
    exact add_right_cancel htotal
  cases units_of_step hstep with
  | startThread => exact h.congr rfl rfl
  | started => exact h.congr rfl rfl
  | asserted => exact h.congr rfl rfl
  | releaseNetworkBuffer => exact h.congr rfl rfl
  | startReceive source b o pool hstart hget =>
      refine h.get (PerThreadPool.gets_of_get hget) ?_
      simp only [objectsInUse, total_append, total_singleton, ReceiveStage.objects]
      abel
  | failed k b o hstage =>
      refine h.congr rfl ?_
      simp only [objectsInUse, hset hstage (show ReceiveStage.objects (.releaseBuffer b o) = _ from rfl)]
  | received k b o e i plugin evs hstage hi hunit =>
      refine h.congr rfl ?_
      have hreceives := total_set (f := ReceiveStage.objects) hstage .getBuffer
      show total ReceiveStage.objects (x.receives.set k .getBuffer) + plugin.packetsInTasks.map Prod.snd + _ =
        total ReceiveStage.objects x.receives + _ + _
      rw [packetsInTasks_submitted hcustody.sections hunit, Multiset.map_add,
        show total ReceiveStage.objects x.receives = _ from (add_zero _).symm.trans hreceives.symm]
      show _ + (_ + {o}) + _ = _ + ({o} : Multiset object) + _ + _
      abel
  | releaseBuffer k b o hstage =>
      refine h.congr rfl ?_
      simp only [objectsInUse, hset hstage (show ReceiveStage.objects (.releaseEndpoint o) = _ from rfl)]
  | releaseEndpoint k o hstage =>
      refine h.release rfl ?_
      have hreceives := total_set (f := ReceiveStage.objects) hstage .getBuffer
      show _ + _ + _ + ({o} : Multiset object) = total ReceiveStage.objects x.receives + _ + _
      rw [show total ReceiveStage.objects x.receives = _ from (add_zero _).symm.trans hreceives.symm]
      show _ = _ + ({o} : Multiset object) + _ + _
      abel
  | handlerBuffer k source b pool hstage hget =>
      refine h.congr rfl ?_
      simp only [objectsInUse,
        hset hstage (show ReceiveStage.objects (.getEndpoint b) = ReceiveStage.objects .getBuffer from rfl)]
  | handlerReceive k source b o pool hstage hget =>
      refine h.get (PerThreadPool.gets_of_get hget) ?_
      have hreceives := total_set (f := ReceiveStage.objects) hstage (.outstanding b o)
      show total ReceiveStage.objects (x.receives.set k (.outstanding b o)) + _ + _ = _
      rw [show total ReceiveStage.objects (x.receives.set k (.outstanding b o)) = _ from
        (add_zero _).symm.trans hreceives]
      show _ + ({o} : Multiset object) + _ + _ = _ + _ + _ + _
      abel
  | plugin action plugin evs hstart haction hunit =>
      refine h.congr rfl ?_
      show _ + plugin.packetsInTasks.map Prod.snd +
        ((x.ending ++ evs.flatMap PluginEvent.storedObject : List object) : Multiset object) = _ + _ + _
      rw [← packetsInTasks_stored hcustody.sections haction hunit, ← Multiset.coe_add]
      abel
  | taskEnds position o hobject =>
      obtain ⟨before, after, hending, -, herase⟩ := List.split_of_getElem? hobject
      refine h.release rfl ?_
      show _ + _ + ((x.ending.eraseIdx position : List object) : Multiset object) + {o} = _ + _ + (x.ending : Multiset object)
      rw [herase, hending, ← Multiset.coe_add, ← Multiset.coe_add, ← Multiset.cons_coe,
        ← Multiset.singleton_add]
      abel

/-- A receive has one endpoint object at most. -/
theorem card_objects_le (receives : List (ReceiveStage object buffer)) :
    (total ReceiveStage.objects receives).card ≤ receives.length := by
  induction receives with
  | nil => exact Nat.le_refl 0
  | cons stage receives ih =>
      have hone : stage.objects.card ≤ 1 := by
        cases stage <;> simp [ReceiveStage.objects]
      show (stage.objects + total ReceiveStage.objects receives).card ≤ receives.length + 1
      rw [Multiset.card_add]
      omega

section Runs

variable [DecidableEq endpoint] [DecidableEq object] [DecidableEq buffer]
variable {visited : List (Config (CoreLoop threads endpoint object buffer)
  (PluginEvent threads endpoint (buffer × object)) × CoreLoopAction threads endpoint object buffer)}
variable {x : Config (CoreLoop threads endpoint object buffer)
  (PluginEvent threads endpoint (buffer × object))}

theorem endpoints_run (hrun : Run (CoreLoop.step networkThreads) initial visited x) :
    EndpointsComplete x.state := by
  have hboth : Custody x.state ∧ EndpointsComplete x.state := by
    apply hrun.invariant_state (fun x => Custody x ∧ EndpointsComplete x)
    · intro s s' a ev h hstep
      exact ⟨h.1.step hstep, h.2.step h.1 hstep⟩
    · refine ⟨custody_new, ?_⟩
      show (0 : Multiset object) = 0 + (0 + (0 + ∑ _i : Fin threads, (0 : Multiset (buffer × object))).map _ + 0)
      simp
  exact hboth.2

theorem endpoints_inUse (hrun : Run (CoreLoop.step networkThreads) initial visited x) :
    endpointsReservoir.inUse x.state = x.state.objectsInUse.card := by
  have hcomplete : x.state.endpointsMempool.allocated.val = _ := endpoints_run hrun
  have hcard := congrArg Multiset.card hcomplete
  rw [Multiset.card_add, Finset.card_val, Multiset.coe_card] at hcard
  show x.state.endpointsMempool.allocated.card - x.state.endpointsMempool.freeObjects.length = _
  omega

theorem endpoints_inUse_le (hrun : Run (CoreLoop.step networkThreads) initial visited x) :
    endpointsReservoir.inUse x.state ≤ networkThreads.toNat + x.state.packetTasks := by
  have hreceives := card_objects_le x.state.receives
  have harmed : x.state.receives.length ≤ networkThreads.toNat := by
    have h := armed_run hrun
    unfold Armed at h
    split at h <;> omega
  rw [endpoints_inUse hrun, objectsInUse, packetTasks, Multiset.card_add, Multiset.card_add,
    Multiset.card_map, Multiset.coe_card]
  omega

end Runs

/-- **The memory of the pools.** After every run of the receive loop, each pool has allocated as many objects as
it had in use at its peak, and one more at most for each `get` that allocated next to a free object. An endpoint
object in use is with a receive or with a packet task, so their pool has one for each network thread and for each
packet task unfinished at once, and no more but for those times. -/
theorem memory_high_water [DecidableEq endpoint] [DecidableEq object] [DecidableEq buffer] {networkThreads : UInt16}
    {visited : List (Config (CoreLoop threads endpoint object buffer)
      (PluginEvent threads endpoint (buffer × object)) × CoreLoopAction threads endpoint object buffer)}
    {x : Config (CoreLoop threads endpoint object buffer)
      (PluginEvent threads endpoint (buffer × object))}
    (hrun : Run (CoreLoop.step networkThreads) initial visited x) :
    (dataReservoir.peak visited x ≤ x.state.dataMempool.allocated.card ∧
        x.state.dataMempool.allocated.card ≤ dataReservoir.peak visited x + dataReservoir.missed visited) ∧
      (endpointsReservoir.peak visited x ≤ x.state.endpointsMempool.allocated.card ∧
        x.state.endpointsMempool.allocated.card ≤
          endpointsReservoir.peak visited x + endpointsReservoir.missed visited) ∧
      x.state.endpointsMempool.allocated.val = x.state.endpointsMempool.freeObjects + x.state.objectsInUse ∧
      ∀ tasks, (∀ p ∈ visited, p.1.state.packetTasks ≤ tasks) → x.state.packetTasks ≤ tasks →
        x.state.endpointsMempool.allocated.card ≤
          networkThreads.toNat + tasks + endpointsReservoir.missed visited := by
  have hdata := Reservoir.high_water (r := dataReservoir) (fun _ => True) (fun _ _ => trivial)
    (fun _ hstep => dataReservoir_moves hstep) hrun trivial rfl
  have hendpoints := Reservoir.high_water (r := endpointsReservoir) (fun _ => True) (fun _ _ => trivial)
    (fun _ hstep => endpointsReservoir_moves hstep) hrun trivial rfl
  refine ⟨hdata, hendpoints, endpoints_run hrun, fun tasks hbefore hnow => ?_⟩
  have hpeak : endpointsReservoir.peak visited x ≤ networkThreads.toNat + tasks := by
    refine Reservoir.le_peak.mpr ⟨fun p hp => ?_, ?_⟩
    · obtain ⟨before, hreached⟩ := hrun.reaches hp
      exact (endpoints_inUse_le hreached).trans (Nat.add_le_add_left (hbefore p hp) _)
    · exact (endpoints_inUse_le hrun).trans (Nat.add_le_add_left hnow _)
  exact hendpoints.2.trans (Nat.add_le_add_right hpeak _)

/-- One network thread, and two packets in turn: the task of the first one has ended when the second comes. -/
def twoPackets : List (CoreLoopAction 1 Nat Nat Nat) :=
  [.startThread (.malloced 100), .startReceive (.malloced 10), .started,
    .completed 0 (some 7), .handlerBuffer 0 (.malloced 101), .handlerReceive 0 (.malloced 11),
    .plugin (.lockLocal 0), .plugin (.registerShared (Fin.last 0)), .plugin (.storeLocal (Fin.last 0)), .taskEnds 0,
    .completed 0 (some 7), .handlerBuffer 0 (.malloced 102), .handlerReceive 0 (.dequeued 0),
    .plugin (.lockLocal 0), .plugin (.storeLocal (Fin.last 0)), .taskEnds 0]

theorem memory_high_water_two_packets :
    ∃ (visited : List (Config (CoreLoop 1 Nat Nat Nat) (PluginEvent 1 Nat (Nat × Nat)) ×
        CoreLoopAction 1 Nat Nat Nat))
      (x : Config (CoreLoop 1 Nat Nat Nat) (PluginEvent 1 Nat (Nat × Nat))),
      visited.map Prod.snd = twoPackets ∧ Run (CoreLoop.step 1) initial visited x ∧
        dataReservoir.peak visited x ≤ 3 ∧ x.state.endpointsMempool.allocated.card ≤ 2 := by
  obtain ⟨x, hx⟩ := Option.isSome_iff_exists.mp (show (exec (CoreLoop.step 1)
    (initial : Config (CoreLoop 1 Nat Nat Nat) _) twoPackets).isSome = true by decide)
  have hend : (some x).map (fun x => (x.state.packetTasks, x.state.dataMempool.allocated.card)) =
      some (0, 3) := by
    rw [← hx]
    decide
  have hbefore : ∀ p ∈ trace (CoreLoop.step 1) (initial : Config (CoreLoop 1 Nat Nat Nat) _) twoPackets,
      p.1.state.packetTasks ≤ 1 := by decide
  have hnone : endpointsReservoir.missed
      (trace (CoreLoop.step 1) (initial : Config (CoreLoop 1 Nat Nat Nat) _) twoPackets) = 0 := by decide
  simp only [Option.map_some, Option.some.injEq, Prod.mk.injEq] at hend
  obtain ⟨htasks, hmade⟩ := hend
  obtain ⟨hdata, -, -, hbound⟩ := memory_high_water (run_trace hx)
  refine ⟨_, x, actions_trace hx, run_trace hx, hmade ▸ hdata.1, ?_⟩
  have htwo := hbound 1 hbefore (by omega)
  rw [hnone] at htwo
  exact htwo

end CoreLoop

end Sekkeizu
