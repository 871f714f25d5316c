/-
# Sekkeizu.Network.Custody — who holds the buffers and the endpoint objects of the receive loop.

Whatever the interleaving, an object of a pool has one holder at most: the receive of a network thread, a
packet task, one slot of one of the plugin's vectors, the user, or one slot of the free queue
(`custody_run`). Every unit of the receive loop is a transfer between two holders, or an object handed out
for the first time; what the units of the plugin do is known from its accounts, one for each thread and
client.
-/
import Sekkeizu.Network.Units
import Sekkeizu.Network.Conservation
import Sekkeizu.Semantics.Ownership


namespace Sekkeizu

open PartialSystem
open Ownership (Owned)
open Account (total total_nil total_singleton total_eq_zero)

variable {threads : Nat} {endpoint object buffer : Type*} [DecidableEq endpoint]

/-! ## The holders -/

/-- Who can hold an object of a pool. -/
inductive Holder (threads : Nat) (endpoint : Type*) where
  /-- `start`, in `handle_connections`. -/
  | start
  /-- The receive of a network thread, or its handler. -/
  | receive (k : Nat)
  /-- The packet tasks and the vectors of the plugin, for one thread and one client. -/
  | plugin (i : Fin threads) (e : endpoint)
  /-- The packet tasks that have stored their buffer. -/
  | ending
  | user
  /-- The free queue of the pool. -/
  | free
  deriving DecidableEq

def StartStage.buffers : StartStage buffer → Multiset buffer
  | .getEndpoint b => {b}
  | _ => 0

def ReceiveStage.buffers : ReceiveStage object buffer → Multiset buffer
  | .outstanding b _ | .releaseBuffer b _ | .getEndpoint b => {b}
  | _ => 0

def ReceiveStage.objects : ReceiveStage object buffer → Multiset object
  | .outstanding _ o | .releaseBuffer _ o | .releaseEndpoint o => {o}
  | _ => 0

namespace CoreLoop

/-- What the receive of a network thread holds. -/
def ofReceive {α : Type*} (f : ReceiveStage object buffer → Multiset α)
    (receives : List (ReceiveStage object buffer)) (k : Nat) : Multiset α :=
  (receives[k]?).elim 0 f

/-- **Who holds which buffers.** -/
def buffersOf (x : CoreLoop threads endpoint object buffer) : Holder threads endpoint → Multiset buffer
  | .start => x.start.buffers
  | .receive k => ofReceive ReceiveStage.buffers x.receives k
  | .plugin i e => (x.plugin.inTasks i e + x.plugin.inContainers i e).map Prod.fst
  | .ending => 0
  | .user => x.user
  | .free => x.dataMempool.freeObjects

/-- **Who holds which endpoint objects.** -/
def objectsOf (x : CoreLoop threads endpoint object buffer) : Holder threads endpoint → Multiset object
  | .start => 0
  | .receive k => ofReceive ReceiveStage.objects x.receives k
  | .plugin i e => (x.plugin.inTasks i e).map Prod.snd
  | .ending => x.ending
  | .user => 0
  | .free => x.endpointsMempool.freeObjects

/-- **No object has two holders**, or two slots of one. -/
def ExclusivelyHeld (x : CoreLoop threads endpoint object buffer) : Prop :=
  Owned x.dataMempool.allocated x.buffersOf ∧ Owned x.endpointsMempool.allocated x.objectsOf

section Receives

variable {α : Type*} {f : ReceiveStage object buffer → Multiset α}
variable {receives : List (ReceiveStage object buffer)}

theorem ofReceive_of_getElem {k : Nat} {stage : ReceiveStage object buffer}
    (h : receives[k]? = some stage) : ofReceive f receives k = f stage := by
  rw [ofReceive, h, Option.elim_some]

theorem ofReceive_set {k : Nat} {stage : ReceiveStage object buffer} (h : receives[k]? = some stage)
    (stage' : ReceiveStage object buffer) (j : Nat) :
    ofReceive f (receives.set k stage') j = if j = k then f stage' else ofReceive f receives j := by
  obtain ⟨hlt, -⟩ := List.getElem?_eq_some_iff.mp h
  rw [ofReceive, ofReceive, List.getElem?_set]
  by_cases hjk : k = j
  · subst hjk
    rw [if_pos rfl, if_pos hlt, if_pos rfl, Option.elim_some]
  · rw [if_neg hjk, if_neg (Ne.symm hjk)]

theorem ofReceive_append (stage : ReceiveStage object buffer) (j : Nat) :
    ofReceive f (receives ++ [stage]) j =
      if j = receives.length then f stage else ofReceive f receives j := by
  rw [ofReceive, ofReceive]
  split_ifs with hj
  · rw [hj, List.getElem?_concat_length, Option.elim_some]
  · rcases Nat.lt_or_gt_of_ne hj with hlt | hgt
    · rw [List.getElem?_append_left hlt]
    · rw [List.getElem?_eq_none (by rw [List.length_append, List.length_singleton]; omega),
        List.getElem?_eq_none (by omega)]

end Receives

end CoreLoop

/-! ## The calls of a pool -/

section Pools

variable {α : Type*}

theorem PerThreadPool.release_free (object : α) (pool : PerThreadPool α) :
    ((pool.release object).freeObjects : Multiset α) = pool.freeObjects + {object} := by
  rw [PerThreadPool.release, ← Multiset.coe_add]
  rfl

variable [DecidableEq α]

/-- An object comes out of the free queue, or for the first time. -/
inductive PerThreadPool.Gets (pool : PerThreadPool α) (object : α) : PerThreadPool α → Prop
  | dequeued (free : List α) (hfree : (pool.freeObjects : Multiset α) = free + {object}) :
      PerThreadPool.Gets pool object { pool with freeObjects := free }
  | malloced (hfresh : object ∉ pool.allocated) :
      PerThreadPool.Gets pool object { pool with allocated := insert object pool.allocated }

theorem PerThreadPool.gets_of_get {source : PoolSource α} {pool pool' : PerThreadPool α} {object : α}
    (h : pool.get source = some (object, pool')) : pool.Gets object pool' := by
  cases source with
  | dequeued position =>
      simp only [PerThreadPool.get] at h
      cases hobject : pool.freeObjects[position]? with
      | none => simp [hobject] at h
      | some object' =>
          simp only [hobject] at h
          obtain ⟨rfl, rfl⟩ := Prod.mk.inj (Option.some.inj h)
          obtain ⟨before, after, hfree, -, herase⟩ := List.split_of_getElem? hobject
          rw [herase]
          refine .dequeued _ ?_
          rw [hfree, ← Multiset.coe_singleton, Multiset.coe_add, Multiset.coe_eq_coe,
            List.append_assoc]
          exact List.Perm.append_left before (List.perm_append_singleton object' after).symm
  | malloced object' =>
      simp only [PerThreadPool.get] at h
      split_ifs at h with hin
      obtain ⟨rfl, rfl⟩ := Prod.mk.inj (Option.some.inj h)
      exact .malloced hin

/-- What a pool hands out was nobody's. -/
theorem PerThreadPool.Gets.owned {pool pool' : PerThreadPool α} {object : α}
    (hgets : pool.Gets object pool') {held held' : Holder threads endpoint → Multiset α}
    (h : Owned pool.allocated held) {t : Holder threads endpoint} (ht : t ≠ .free)
    (hfree : held .free = pool.freeObjects) (hfree' : held' .free = pool'.freeObjects)
    (hto : held' t = held t + {object}) (hother : ∀ i, i ≠ t → i ≠ .free → held' i = held i) :
    Owned pool'.allocated held' := by
  cases hgets with
  | dequeued free hdequeued =>
      have hfrom : held' .free + {object} = held .free := by rw [hfree', hfree, hdequeued]
      exact h.transfer (Ne.symm ht) hfrom.le hto.le fun i hi hit => (hother i hit hi).le
  | malloced hfresh =>
      refine h.fresh hfresh hto.le fun i hi => ?_
      by_cases hif : i = .free
      · rw [hif, hfree', hfree]
      · exact (hother i hi hif).le

end Pools

/-! ## The units of the plugin -/

namespace CoreloopNetworkPlugin

/-- The event brings nothing in, moves nothing between the places of the plugin, and hands nothing out. -/
def Silent (ev : PluginEvent threads endpoint (buffer × object)) : Prop :=
  (∀ i e, ev.taken i e = [] ∧ ev.stored i e = [] ∧ ev.handed i e = []) ∧
    ev.storedObject = [] ∧ ev.handedBuffers = []

/-- **The traffic of a unit** that submits no packet: none, a buffer stored, or a vector handed over. -/
inductive Traffic (x : CoreloopNetworkPlugin threads endpoint (buffer × object)) :
    List (PluginEvent threads endpoint (buffer × object)) → Prop
  | silent {evs : List (PluginEvent threads endpoint (buffer × object))} (h : ∀ ev ∈ evs, Silent ev) :
      Traffic x evs
  | stored (i : Fin threads) (e : endpoint) (p : buffer × object) : Traffic x [.received i e p]
  | handed (e : endpoint) (data : List (Fin threads × buffer × object)) :
      Traffic x [.clientInputs e data]

variable {x y : CoreloopNetworkPlugin threads endpoint (buffer × object)}
variable {a : PluginAction threads endpoint (buffer × object)}
variable {evs : List (PluginEvent threads endpoint (buffer × object))}

theorem Acts.traffic (hf : Acts x a y evs) (ha : a.isSubmission = false) : Traffic x evs := by
  have hnone : Traffic x [] := .silent fun ev hev => absurd hev List.not_mem_nil
  have hone : ∀ {ev : PluginEvent threads endpoint (buffer × object)}, Silent ev → Traffic x [ev] := by
    intro ev hev
    refine .silent fun ev' hev' => ?_
    rw [List.mem_singleton.mp hev']
    exact hev
  cases hf with
  | submit => exact absurd ha (by simp [PluginAction.isSubmission])
  | storeLocal i e b => exact .stored i e b
  | clientInputs e todo data => exact .handed e data
  | newClients order =>
      refine .silent fun ev hev => ?_
      obtain ⟨e, -, rfl⟩ := List.mem_map.mp hev
      exact ⟨fun _ _ => ⟨rfl, rfl, rfl⟩, rfl, rfl⟩
  | registerShared | disconnect | post | unlock | callback =>
      exact hone ⟨fun _ _ => ⟨rfl, rfl, rfl⟩, rfl, rfl⟩
  | _ => exact hnone

/-- What the places of one thread and one client hold after a unit, and what it hands out of them, they
held before or it brought in. -/
theorem content_step (h : Sections x) (hstep : step x a = some (y, evs)) (i : Fin threads)
    (e : endpoint) :
    y.inTasks i e + y.inContainers i e + total (fun ev => (ev.handed i e : Multiset _)) evs ≤
      x.inTasks i e + x.inContainers i e + total (fun ev => (ev.taken i e : Multiset _)) evs := by
  have hbalance : _ = x.inTasks i e + x.inContainers i e + total (account i e).income evs :=
    balances h i e hstep
  exact (Multiset.le_add_right _ _).trans hbalance.le

/-- A vector whose buffers from each thread are different, and from different threads different, has
different buffers. -/
theorem nodup_of_fromThread {data : List (Fin threads × buffer × object)}
    (hnodup : ∀ i, ((fromThread i data).map Prod.fst).Nodup)
    (hthread : ∀ {i j b}, b ∈ (fromThread i data).map Prod.fst →
      b ∈ (fromThread j data).map Prod.fst → i = j) :
    (data.map fun p => p.2.1).Nodup := by
  induction data with
  | nil => exact List.nodup_nil
  | cons p data ih =>
      obtain ⟨i, b, o⟩ := p
      have hself : fromThread i ((i, b, o) :: data) = (b, o) :: fromThread i data := by
        simp [fromThread]
      have hsub : ∀ j, (fromThread j data).Sublist (fromThread j ((i, b, o) :: data)) :=
        fun j => (List.sublist_cons_self _ data).filterMap _
      rw [List.map_cons, List.nodup_cons]
      constructor
      · intro hmem
        obtain ⟨⟨j, b', o'⟩, hin, hb⟩ := List.mem_map.mp hmem
        obtain rfl : b' = b := hb
        have hfrom : b' ∈ (fromThread j data).map Prod.fst :=
          List.mem_map.mpr ⟨(b', o'), List.mem_filterMap.mpr ⟨(j, b', o'), hin, by simp⟩, rfl⟩
        have hhead : b' ∈ (fromThread i ((i, b', o) :: data)).map Prod.fst := by
          rw [hself]
          exact List.mem_cons_self
        obtain rfl := hthread hhead (((hsub j).map Prod.fst).subset hfrom)
        have hhead_nodup := hnodup i
        rw [hself, List.map_cons, List.nodup_cons] at hhead_nodup
        exact hhead_nodup.1 hfrom
      · apply ih
        · exact fun j => (hnodup j).sublist ((hsub j).map Prod.fst)
        · exact fun h h' => hthread (((hsub _).map Prod.fst).subset h) (((hsub _).map Prod.fst).subset h')

end CoreloopNetworkPlugin

namespace CoreLoop

open CoreloopNetworkPlugin

/-- **The custody of the objects**, with what the plugin needs to keep its own books. -/
structure Custody (x : CoreLoop threads endpoint object buffer) : Prop where
  sections : Sections x.plugin
  exclusive : x.ExclusivelyHeld

variable {x y : CoreLoop threads endpoint object buffer}

/-- A unit that only moves buffers inside the plugin, or drops them. -/
theorem buffersOf_of_content (h : Owned x.dataMempool.allocated x.buffersOf)
    (hcontent : ∀ i e, y.plugin.inTasks i e + y.plugin.inContainers i e ≤
      x.plugin.inTasks i e + x.plugin.inContainers i e)
    (hother : ∀ holder, (∀ i e, holder ≠ .plugin i e) → y.buffersOf holder = x.buffersOf holder)
    (hpool : y.dataMempool = x.dataMempool) : Owned y.dataMempool.allocated y.buffersOf := by
  rw [hpool]
  apply h.mono
  intro holder
  cases holder with
  | plugin i e => exact Multiset.map_le_map (hcontent i e)
  | _ => exact (hother _ (by simp)).le

/-- **A vector is handed over**: the user gets what the places of the client, all threads', give. -/
theorem owned_of_handed (h : Owned x.dataMempool.allocated x.buffersOf)
    {plugin : CoreloopNetworkPlugin threads endpoint (buffer × object)} {e : endpoint}
    {data : List (Fin threads × buffer × object)} {ending : List object}
    (hgiven : ∀ i, plugin.inTasks i e + plugin.inContainers i e + fromThread i data ≤
      x.plugin.inTasks i e + x.plugin.inContainers i e)
    (hkept : ∀ i e', plugin.inTasks i e' + plugin.inContainers i e' ≤
      x.plugin.inTasks i e' + x.plugin.inContainers i e') :
    Owned x.dataMempool.allocated { x with
      plugin := plugin
      ending := ending
      user := x.user ++ [PluginEvent.clientInputs e data].flatMap PluginEvent.handedBuffers }.buffersOf := by
  have hsum : ∀ i, (plugin.inTasks i e + plugin.inContainers i e).map Prod.fst +
      ((fromThread i data).map Prod.fst : List buffer) ≤ x.buffersOf (.plugin i e) := by
    intro i
    have hmap := Multiset.map_le_map (f := Prod.fst) (hgiven i)
    rwa [Multiset.map_add, Multiset.map_coe] at hmap
  have hheld : ∀ {i b}, b ∈ (fromThread i data).map Prod.fst → b ∈ x.buffersOf (.plugin i e) :=
    fun hb => Multiset.mem_of_le (hsum _) (Multiset.mem_add.mpr (Or.inr (Multiset.mem_coe.mpr hb)))
  have hsource : ∀ b ∈ data.map (fun p => p.2.1), ∃ i, b ∈ (fromThread i data).map Prod.fst := by
    intro b hb
    obtain ⟨⟨i, p⟩, hin, rfl⟩ := List.mem_map.mp hb
    exact ⟨i, List.mem_map.mpr ⟨p, List.mem_filterMap.mpr ⟨(i, p), hin, by simp⟩, rfl⟩⟩
  have hnodup : (data.map fun p => p.2.1).Nodup := by
    apply nodup_of_fromThread
    · intro i
      have hboth := Multiset.nodup_of_le (hsum i) (h.nodup _)
      exact Multiset.coe_nodup.mp (Multiset.nodup_add.mp hboth).2.1
    · intro i j b hi hj
      exact (Holder.plugin.inj (h.unique (hheld hi) (hheld hj))).1
  have hrest : ∀ holder, { x with plugin := plugin }.buffersOf holder ≤ x.buffersOf holder := by
    intro holder
    cases holder with
    | plugin i e' => exact Multiset.map_le_map (hkept i e')
    | _ => exact le_rfl
  refine h.gather hrest (t := .user) (g := (data.map fun p => p.2.1 : List buffer))
    (Multiset.coe_nodup.mpr hnodup) ?_ ?_ (Finset.Subset.refl _) ?_ ?_
  · intro b hb holder hin
    obtain ⟨i, hi⟩ := hsource b (Multiset.mem_coe.mp hb)
    obtain rfl := h.unique (Multiset.mem_of_le (hrest holder) hin) (hheld hi)
    have hboth := Multiset.nodup_of_le (hsum i) (h.nodup _)
    exact Multiset.disjoint_left.mp (Multiset.nodup_add.mp hboth).2.2 hin (Multiset.mem_coe.mpr hi)
  · intro b hb
    obtain ⟨i, hi⟩ := hsource b (Multiset.mem_coe.mp hb)
    exact h.allocated (hheld hi)
  · simp [buffersOf, PluginEvent.handedBuffers]
  · intro holder huser
    cases holder with
    | user => exact absurd rfl huser
    | _ => exact le_rfl

section PluginUnits

variable {action : PluginAction threads endpoint (buffer × object)}
variable {plugin' : CoreloopNetworkPlugin threads endpoint (buffer × object)}

/-- A unit of the plugin that leaves the objects where they are, or drops some. -/
theorem Custody.silent (h : Custody x) {evs : List (PluginEvent threads endpoint (buffer × object))}
    (hstep : x.plugin.step action = some (plugin', evs)) (hsilent : ∀ ev ∈ evs, Silent ev) :
    ExclusivelyHeld { x with
      plugin := plugin'
      ending := x.ending ++ evs.flatMap PluginEvent.storedObject
      user := x.user ++ evs.flatMap PluginEvent.handedBuffers } := by
  have hcontent := content_step h.sections hstep
  have htasks := (acts_of_step h.sections.toLocals hstep).inTasks h.sections
  obtain ⟨hbuffers, hobjects⟩ := h.exclusive
  have hstored : evs.flatMap PluginEvent.storedObject = [] :=
    List.flatMap_eq_nil_iff.mpr fun ev hev => (hsilent ev hev).2.1
  have hhanded : evs.flatMap PluginEvent.handedBuffers = [] :=
    List.flatMap_eq_nil_iff.mpr fun ev hev => (hsilent ev hev).2.2
  have hzero : ∀ i e, total (fun ev => (ev.taken i e : Multiset (buffer × object))) evs = 0 ∧
      total (fun ev => (ev.stored i e : Multiset (buffer × object))) evs = 0 ∧
      total (fun ev => (ev.handed i e : Multiset (buffer × object))) evs = 0 := by
    intro i e
    refine ⟨total_eq_zero ?_, total_eq_zero ?_, total_eq_zero ?_⟩
    all_goals
      intro ev hev
      obtain ⟨htaken, hput, hgiven⟩ := (hsilent ev hev).1 i e
      simp [htaken, hput, hgiven]
  rw [hstored, hhanded, List.append_nil, List.append_nil]
  constructor
  · refine buffersOf_of_content hbuffers (fun i e => ?_) ?_ rfl
    · simpa only [(hzero i e).1, (hzero i e).2.2, add_zero] using hcontent i e
    · intro holder hholder
      cases holder with
      | plugin i e => exact absurd rfl (hholder i e)
      | _ => rfl
  · apply hobjects.mono
    intro holder
    cases holder with
    | plugin i e =>
        have htask : plugin'.inTasks i e + _ = x.plugin.inTasks i e + _ := htasks i e
        rw [(hzero i e).2.1, show total (account i e).income evs = 0 from (hzero i e).1, add_zero,
          add_zero] at htask
        exact Multiset.map_le_map htask.le
    | _ => exact le_rfl

/-- A packet task stores its buffer. -/
theorem Custody.stored (h : Custody x) {i : Fin threads} {e : endpoint} {p : buffer × object}
    (hstep : x.plugin.step action = some (plugin', [.received i e p])) :
    ExclusivelyHeld { x with
      plugin := plugin'
      ending := x.ending ++ [PluginEvent.received i e p].flatMap PluginEvent.storedObject
      user := x.user ++ [PluginEvent.received i e p].flatMap PluginEvent.handedBuffers } := by
  have hcontent := content_step h.sections hstep
  have htasks := (acts_of_step h.sections.toLocals hstep).inTasks h.sections
  obtain ⟨hbuffers, hobjects⟩ := h.exclusive
  have hkept : ∀ i' e', plugin'.inTasks i' e' +
      ((PluginEvent.received i e p).stored i' e' : Multiset _) = x.plugin.inTasks i' e' := by
    intro i' e'
    have htask := htasks i' e'
    rw [total_singleton, total_singleton] at htask
    exact htask.trans (add_zero _)
  constructor
  · refine buffersOf_of_content hbuffers (fun i' e' => ?_) ?_ rfl
    · have hcontent' := hcontent i' e'
      rw [total_singleton, total_singleton] at hcontent'
      simpa [PluginEvent.handed, PluginEvent.taken] using hcontent'
    · intro holder hholder
      cases holder with
      | plugin i' e' => exact absurd rfl (hholder i' e')
      | user => simp [buffersOf, PluginEvent.handedBuffers]
      | _ => rfl
  · -- the task keeps its endpoint object until it ends
    apply hobjects.transfer (s := .plugin i e) (t := .ending) (g := {p.2}) (by simp)
    · have hmine := hkept i e
      rw [PluginEvent.stored, if_pos ⟨rfl, rfl⟩] at hmine
      show (plugin'.inTasks i e).map Prod.snd + {p.2} ≤ (x.plugin.inTasks i e).map Prod.snd
      rw [← hmine, Multiset.map_add]
      exact le_rfl
    · show ((x.ending ++ [p.2] : List object) : Multiset object) ≤ x.ending + {p.2}
      rw [← Multiset.coe_add]
      exact le_rfl
    · intro holder hmine hending
      cases holder with
      | plugin i' e' =>
          have hother := hkept i' e'
          rw [PluginEvent.stored, if_neg fun hsame => hmine (by rw [hsame.1, hsame.2]),
            Multiset.coe_nil, add_zero] at hother
          exact Multiset.map_le_map hother.le
      | ending => exact absurd rfl hending
      | _ => exact le_rfl

/-- The user gets the vector of a client. -/
theorem Custody.handed (h : Custody x) {e : endpoint} {data : List (Fin threads × buffer × object)}
    (hstep : x.plugin.step action = some (plugin', [.clientInputs e data])) :
    ExclusivelyHeld { x with
      plugin := plugin'
      ending := x.ending ++ [PluginEvent.clientInputs e data].flatMap PluginEvent.storedObject
      user := x.user ++ [PluginEvent.clientInputs e data].flatMap PluginEvent.handedBuffers } := by
  have hcontent := content_step h.sections hstep
  have htasks := (acts_of_step h.sections.toLocals hstep).inTasks h.sections
  obtain ⟨hbuffers, hobjects⟩ := h.exclusive
  have hgiven : ∀ i, plugin'.inTasks i e + plugin'.inContainers i e + fromThread i data ≤
      x.plugin.inTasks i e + x.plugin.inContainers i e := by
    intro i
    have hcontent' := hcontent i e
    rw [total_singleton, total_singleton, PluginEvent.handed, if_pos rfl] at hcontent'
    simpa [PluginEvent.taken] using hcontent'
  have hkept : ∀ i e', plugin'.inTasks i e' + plugin'.inContainers i e' ≤
      x.plugin.inTasks i e' + x.plugin.inContainers i e' := by
    intro i e'
    have hcontent' := hcontent i e'
    rw [total_singleton, total_singleton] at hcontent'
    exact (Multiset.le_add_right _ _).trans (by simpa [PluginEvent.taken] using hcontent')
  constructor
  · exact owned_of_handed hbuffers hgiven hkept
  · apply hobjects.mono
    intro holder
    cases holder with
    | plugin i e' =>
        have htask := htasks i e'
        rw [total_singleton, total_singleton] at htask
        exact Multiset.map_le_map (le_of_eq ((add_zero _).symm.trans (htask.trans (add_zero _))))
    | ending => simp [objectsOf, PluginEvent.storedObject]
    | _ => exact le_rfl

/-- A unit of the plugin that submits no packet. -/
theorem Custody.plugin (h : Custody x) {evs : List (PluginEvent threads endpoint (buffer × object))}
    (haction : action.isSubmission = false) (hstep : x.plugin.step action = some (plugin', evs)) :
    Custody { x with
      plugin := plugin'
      ending := x.ending ++ evs.flatMap PluginEvent.storedObject
      user := x.user ++ evs.flatMap PluginEvent.handedBuffers } := by
  refine ⟨h.sections.step hstep, ?_⟩
  cases (acts_of_step h.sections.toLocals hstep).traffic haction with
  | silent hsilent => exact h.silent hstep hsilent
  | stored i e p => exact h.stored hstep
  | handed e data => exact h.handed hstep

end PluginUnits

/-! ## The units of the receive loop -/

theorem Custody.startThread [DecidableEq buffer] (h : Custody x) {source : PoolSource buffer} {b : buffer}
    {pool : PerThreadPool buffer} (hstart : x.start = .loop)
    (hget : x.dataMempool.get source = some (b, pool)) :
    Custody { x with dataMempool := pool, start := .getEndpoint b } := by
  refine ⟨h.sections, ?_, h.exclusive.2.mono fun holder => ?_⟩
  · apply (PerThreadPool.gets_of_get hget).owned h.exclusive.1 (t := .start) (by simp) rfl rfl
    · simp [buffersOf, hstart, StartStage.buffers]
    · intro holder hstarting hfree
      cases holder <;> first | rfl | contradiction
  · cases holder <;> exact le_rfl

theorem Custody.startReceive [DecidableEq object] (h : Custody x) {source : PoolSource object}
    {b : buffer} {o : object} {pool : PerThreadPool object} (hstart : x.start = .getEndpoint b)
    (hget : x.endpointsMempool.get source = some (o, pool)) :
    Custody { x with
      endpointsMempool := pool
      receives := x.receives ++ [.outstanding b o]
      start := .loop } := by
  have hnone : x.receives[x.receives.length]? = none := List.getElem?_eq_none (le_refl _)
  refine ⟨h.sections, ?_, ?_⟩
  · apply h.exclusive.1.transfer (s := .start) (t := .receive x.receives.length) (g := {b}) (by simp)
    · simp [buffersOf, hstart, StartStage.buffers]
    · simp [buffersOf, ofReceive_append, ReceiveStage.buffers]
    · intro holder hstarting hreceive
      cases holder with
      | start => exact absurd rfl hstarting
      | receive k =>
          have hk : k ≠ x.receives.length := fun heq => hreceive (by rw [heq])
          simp [buffersOf, ofReceive_append, hk]
      | _ => exact le_rfl
  · apply (PerThreadPool.gets_of_get hget).owned h.exclusive.2 (t := .receive x.receives.length)
      (by simp) rfl rfl
    · simp [objectsOf, ofReceive, ReceiveStage.objects]
    · intro holder hreceive hfree
      cases holder with
      | receive k =>
          have hk : k ≠ x.receives.length := fun heq => hreceive (by rw [heq])
          simp [objectsOf, ofReceive_append, hk]
      | free => exact absurd rfl hfree
      | _ => rfl

theorem Custody.started (h : Custody x) : Custody { x with start := .done } := by
  refine ⟨h.sections, h.exclusive.1.mono fun holder => ?_, h.exclusive.2.mono fun holder => ?_⟩
  · cases holder with
    | start => simp [buffersOf, StartStage.buffers]
    | _ => exact le_rfl
  · cases holder <;> exact le_rfl

section Stages

variable {k : Nat} {stage stage' : ReceiveStage object buffer}

theorem buffersOf_set (hstage : x.receives[k]? = some stage) (hy : y.receives = x.receives.set k stage')
    (j : Nat) : y.buffersOf (.receive j) =
      if j = k then stage'.buffers else x.buffersOf (.receive j) := by
  rw [buffersOf, hy, ofReceive_set hstage]
  rfl

theorem objectsOf_set (hstage : x.receives[k]? = some stage) (hy : y.receives = x.receives.set k stage')
    (j : Nat) : y.objectsOf (.receive j) =
      if j = k then stage'.objects else x.objectsOf (.receive j) := by
  rw [objectsOf, hy, ofReceive_set hstage]
  rfl

theorem buffersOf_of_getElem (hstage : x.receives[k]? = some stage) :
    x.buffersOf (.receive k) = stage.buffers := ofReceive_of_getElem hstage

theorem objectsOf_of_getElem (hstage : x.receives[k]? = some stage) :
    x.objectsOf (.receive k) = stage.objects := ofReceive_of_getElem hstage

/-- A stage change of one receive that concerns no buffer. -/
theorem buffersOf_set_eq (hstage : x.receives[k]? = some stage)
    (hy : y.receives = x.receives.set k stage') (hsame : stage'.buffers = stage.buffers) (j : Nat) :
    y.buffersOf (.receive j) = x.buffersOf (.receive j) := by
  rw [buffersOf_set hstage hy]
  split_ifs with hj
  · rw [hj, hsame, buffersOf_of_getElem hstage]
  · rfl

theorem objectsOf_set_eq (hstage : x.receives[k]? = some stage)
    (hy : y.receives = x.receives.set k stage') (hsame : stage'.objects = stage.objects) (j : Nat) :
    y.objectsOf (.receive j) = x.objectsOf (.receive j) := by
  rw [objectsOf_set hstage hy]
  split_ifs with hj
  · rw [hj, hsame, objectsOf_of_getElem hstage]
  · rfl

end Stages

theorem Custody.releaseBuffer (h : Custody x) {k : Nat} {b : buffer} {o : object}
    (hstage : x.receives[k]? = some (.releaseBuffer b o)) :
    Custody { x with
      dataMempool := x.dataMempool.release b
      receives := x.receives.set k (.releaseEndpoint o) } := by
  refine ⟨h.sections, ?_, h.exclusive.2.mono fun holder => ?_⟩
  · apply h.exclusive.1.transfer (s := .receive k) (t := .free) (g := {b}) (by simp)
    · rw [buffersOf_set hstage rfl, if_pos rfl, buffersOf_of_getElem hstage]
      exact le_of_eq (zero_add _)
    · exact (PerThreadPool.release_free b x.dataMempool).le
    · intro holder hreceive hfree
      cases holder with
      | receive j =>
          rw [buffersOf_set hstage rfl, if_neg fun heq => hreceive (by rw [heq])]
      | free => exact absurd rfl hfree
      | _ => exact le_rfl
  · cases holder with
    | receive j => exact (objectsOf_set_eq hstage rfl (by rfl) j).le
    | _ => exact le_rfl

theorem Custody.releaseEndpoint (h : Custody x) {k : Nat} {o : object}
    (hstage : x.receives[k]? = some (.releaseEndpoint o)) :
    Custody { x with
      endpointsMempool := x.endpointsMempool.release o
      receives := x.receives.set k .getBuffer } := by
  refine ⟨h.sections, h.exclusive.1.mono fun holder => ?_, ?_⟩
  · cases holder with
    | receive j => exact (buffersOf_set_eq hstage rfl (by rfl) j).le
    | _ => exact le_rfl
  · apply h.exclusive.2.transfer (s := .receive k) (t := .free) (g := {o}) (by simp)
    · rw [objectsOf_set hstage rfl, if_pos rfl, objectsOf_of_getElem hstage]
      exact le_of_eq (zero_add _)
    · exact (PerThreadPool.release_free o x.endpointsMempool).le
    · intro holder hreceive hfree
      cases holder with
      | receive j =>
          rw [objectsOf_set hstage rfl, if_neg fun heq => hreceive (by rw [heq])]
      | free => exact absurd rfl hfree
      | _ => exact le_rfl

theorem Custody.handlerBuffer [DecidableEq buffer] (h : Custody x) {k : Nat}
    {source : PoolSource buffer} {b : buffer} {pool : PerThreadPool buffer}
    (hstage : x.receives[k]? = some .getBuffer)
    (hget : x.dataMempool.get source = some (b, pool)) :
    Custody { x with dataMempool := pool, receives := x.receives.set k (.getEndpoint b) } := by
  refine ⟨h.sections, ?_, h.exclusive.2.mono fun holder => ?_⟩
  · apply (PerThreadPool.gets_of_get hget).owned h.exclusive.1 (t := .receive k) (by simp) rfl rfl
    · rw [buffersOf_set hstage rfl, if_pos rfl, buffersOf_of_getElem hstage]
      exact (zero_add _).symm
    · intro holder hreceive hfree
      cases holder with
      | receive j =>
          rw [buffersOf_set hstage rfl, if_neg fun heq => hreceive (by rw [heq])]
      | free => exact absurd rfl hfree
      | _ => rfl
  · cases holder with
    | receive j => exact (objectsOf_set_eq hstage rfl (by rfl) j).le
    | _ => exact le_rfl

theorem Custody.handlerReceive [DecidableEq object] (h : Custody x) {k : Nat}
    {source : PoolSource object} {b : buffer} {o : object} {pool : PerThreadPool object} (hstage : x.receives[k]? = some (.getEndpoint b))
    (hget : x.endpointsMempool.get source = some (o, pool)) :
    Custody { x with endpointsMempool := pool, receives := x.receives.set k (.outstanding b o) } := by
  refine ⟨h.sections, h.exclusive.1.mono fun holder => ?_, ?_⟩
  · cases holder with
    | receive j => exact (buffersOf_set_eq hstage rfl (by rfl) j).le
    | _ => exact le_rfl
  · apply (PerThreadPool.gets_of_get hget).owned h.exclusive.2 (t := .receive k) (by simp) rfl rfl
    · rw [objectsOf_set hstage rfl, if_pos rfl, objectsOf_of_getElem hstage]
      exact (zero_add _).symm
    · intro holder hreceive hfree
      cases holder with
      | receive j =>
          rw [objectsOf_set hstage rfl, if_neg fun heq => hreceive (by rw [heq])]
      | free => exact absurd rfl hfree
      | _ => rfl

theorem Custody.taskEnds (h : Custody x) {position : Nat} {o : object}
    (hobject : x.ending[position]? = some o) :
    Custody { x with
      endpointsMempool := x.endpointsMempool.release o
      ending := x.ending.eraseIdx position } := by
  obtain ⟨before, after, hending, -, herase⟩ := List.split_of_getElem? hobject
  refine ⟨h.sections, h.exclusive.1.mono fun holder => ?_, ?_⟩
  · cases holder <;> exact le_rfl
  · apply h.exclusive.2.transfer (s := .ending) (t := .free) (g := {o}) (by simp)
    · show ((x.ending.eraseIdx position : List object) : Multiset object) + {o} ≤ x.ending
      rw [herase, hending, ← Multiset.coe_singleton, Multiset.coe_add, List.append_assoc]
      exact le_of_eq (Multiset.coe_eq_coe.mpr
        (List.Perm.append_left before (List.perm_append_singleton o after)))
    · exact (PerThreadPool.release_free o x.endpointsMempool).le
    · intro holder hending hfree
      cases holder <;> first | exact le_rfl | contradiction

theorem Custody.releaseNetworkBuffer [DecidableEq buffer] (h : Custody x) {b : buffer} (huser : b ∈ x.user) :
    Custody { x with dataMempool := x.dataMempool.release b, user := x.user.erase b } := by
  refine ⟨h.sections, ?_, h.exclusive.2.mono fun holder => ?_⟩
  · apply h.exclusive.1.transfer (s := .user) (t := .free) (g := {b}) (by simp)
    · show ((x.user.erase b : List buffer) : Multiset buffer) + {b} ≤ x.user
      rw [← Multiset.coe_singleton, Multiset.coe_add]
      exact le_of_eq (Multiset.coe_eq_coe.mpr
        ((List.perm_append_singleton b _).trans (List.perm_cons_erase huser).symm))
    · exact (PerThreadPool.release_free b x.dataMempool).le
    · intro holder hholder hfree
      cases holder <;> first | exact le_rfl | contradiction
  · cases holder <;> exact le_rfl

/-- **A packet is submitted**: its buffer and its endpoint object go from the receive to the task. -/
theorem Custody.submitted (h : Custody x) {k : Nat} {b : buffer} {o : object}
    (hstage : x.receives[k]? = some (.outstanding b o)) {i : Fin threads} {e : endpoint}
    {plugin : CoreloopNetworkPlugin threads endpoint (buffer × object)}
    {evs : List (PluginEvent threads endpoint (buffer × object))}
    (hstep : x.plugin.step (.handleNetworkPacket i e (b, o)) = some (plugin, evs)) :
    Custody { x with plugin := plugin, receives := x.receives.set k .getBuffer } := by
  have hf := acts_of_step h.sections.toLocals hstep
  have hcontent := content_step h.sections hstep
  have htasks := hf.inTasks h.sections
  have hevs : evs = [.submitted i e (b, o)] := by
    cases hf with
    | submit => rfl
  subst hevs
  -- what the task of another thread or client holds is not concerned
  have hbuffers : ∀ i' e', plugin.inTasks i' e' + plugin.inContainers i' e' ≤
      x.plugin.inTasks i' e' + x.plugin.inContainers i' e' +
        ((PluginEvent.submitted i e (b, o)).taken i' e' : Multiset (buffer × object)) := by
    intro i' e'
    have hcontent' := hcontent i' e'
    rw [total_singleton, total_singleton] at hcontent'
    exact (Multiset.le_add_right _ _).trans hcontent'
  have hobjects : ∀ i' e', plugin.inTasks i' e' = x.plugin.inTasks i' e' +
      ((PluginEvent.submitted i e (b, o)).taken i' e' : Multiset (buffer × object)) := by
    intro i' e'
    have htask := htasks i' e'
    rw [total_singleton, total_singleton] at htask
    exact (add_zero _).symm.trans htask
  have htaken : ∀ i' e', ((i = i' ∧ e = e') ∧ (PluginEvent.submitted i e (b, o)).taken i' e' = [(b, o)]) ∨
      (¬ (i = i' ∧ e = e') ∧ (PluginEvent.submitted i e (b, o)).taken i' e' = []) := by
    intro i' e'
    by_cases hmine : i = i' ∧ e = e'
    · exact Or.inl ⟨hmine, if_pos hmine⟩
    · exact Or.inr ⟨hmine, if_neg hmine⟩
  refine ⟨h.sections.step hstep, ?_, ?_⟩
  · apply h.exclusive.1.transfer (s := .receive k) (t := .plugin i e) (g := {b}) (by simp)
    · rw [buffersOf_set hstage rfl, if_pos rfl, buffersOf_of_getElem hstage]
      exact le_of_eq (zero_add _)
    · obtain ⟨-, hpacket⟩ := (htaken i e).resolve_right fun hother => hother.1 ⟨rfl, rfl⟩
      have hmap := Multiset.map_le_map (f := Prod.fst) (hbuffers i e)
      rw [hpacket, Multiset.map_add _ (x.plugin.inTasks i e + x.plugin.inContainers i e)] at hmap
      exact hmap
    · intro holder hreceive hplugin
      cases holder with
      | receive j => rw [buffersOf_set hstage rfl, if_neg fun heq => hreceive (by rw [heq])]
      | plugin i' e' =>
          obtain ⟨-, hpacket⟩ := (htaken i' e').resolve_left fun hsame =>
            hplugin (by rw [hsame.1.1, hsame.1.2])
          have hmap := hbuffers i' e'
          rw [hpacket, Multiset.coe_nil, add_zero] at hmap
          exact Multiset.map_le_map hmap
      | _ => exact le_rfl
  · apply h.exclusive.2.transfer (s := .receive k) (t := .plugin i e) (g := {o}) (by simp)
    · rw [objectsOf_set hstage rfl, if_pos rfl, objectsOf_of_getElem hstage]
      exact le_of_eq (zero_add _)
    · obtain ⟨-, hpacket⟩ := (htaken i e).resolve_right fun hother => hother.1 ⟨rfl, rfl⟩
      have hmap := Multiset.map_le_map (f := Prod.snd) (hobjects i e).le
      rwa [hpacket, Multiset.map_add] at hmap
    · intro holder hreceive hplugin
      cases holder with
      | receive j => rw [objectsOf_set hstage rfl, if_neg fun heq => hreceive (by rw [heq])]
      | plugin i' e' =>
          obtain ⟨-, hpacket⟩ := (htaken i' e').resolve_left fun hsame =>
            hplugin (by rw [hsame.1.1, hsame.1.2])
          have hmap := (hobjects i' e').le
          rw [hpacket, Multiset.coe_nil, add_zero] at hmap
          exact Multiset.map_le_map hmap
      | _ => exact le_rfl

/-- A receive that failed keeps what it has. -/
theorem Custody.failed (h : Custody x) {k : Nat} {b : buffer} {o : object}
    (hstage : x.receives[k]? = some (.outstanding b o)) :
    Custody { x with receives := x.receives.set k (.releaseBuffer b o) } := by
  refine ⟨h.sections, h.exclusive.1.mono fun holder => ?_, h.exclusive.2.mono fun holder => ?_⟩
  · cases holder with
    | receive j => exact (buffersOf_set_eq hstage rfl (by rfl) j).le
    | _ => exact le_rfl
  · cases holder with
    | receive j => exact (objectsOf_set_eq hstage rfl (by rfl) j).le
    | _ => exact le_rfl

theorem Custody.asserted (h : Custody x) : Custody { x with aborted := true } := by
  refine ⟨h.sections, h.exclusive.1.mono fun holder => ?_, h.exclusive.2.mono fun holder => ?_⟩
  · cases holder <;> exact le_rfl
  · cases holder <;> exact le_rfl

/-- **Every unit keeps the custody.** -/
theorem Custody.step [DecidableEq object] [DecidableEq buffer] (h : Custody x) {networkThreads : UInt16}
    {action : CoreLoopAction threads endpoint object buffer}
    {evs : List (PluginEvent threads endpoint (buffer × object))}
    (hstep : CoreLoop.step networkThreads x action = some (y, evs)) : Custody y := by
  cases units_of_step hstep with
  | startThread source b pool hstart hlt hget => exact h.startThread hstart hget
  | startReceive source b o pool hstart hget => exact h.startReceive hstart hget
  | started hstart hall => exact h.started
  | failed k b o hstage => exact h.failed hstage
  | received k b o e i plugin evs hstage hi hunit => exact h.submitted hstage hunit
  | asserted k e hid => exact h.asserted
  | releaseBuffer k b o hstage => exact h.releaseBuffer hstage
  | releaseEndpoint k o hstage => exact h.releaseEndpoint hstage
  | handlerBuffer k source b pool hstage hget => exact h.handlerBuffer hstage hget
  | handlerReceive k source b o pool hstage hget => exact h.handlerReceive hstage hget
  | plugin action plugin evs hstart haction hunit => exact h.plugin haction hunit
  | taskEnds position o hobject => exact h.taskEnds hobject
  | releaseNetworkBuffer b huser => exact h.releaseNetworkBuffer huser

theorem custody_new : Custody (new : CoreLoop threads endpoint object buffer) where
  sections := sections_new
  exclusive := by
    refine ⟨.empty fun holder => ?_, .empty fun holder => ?_⟩
    · cases holder with
      | plugin i e =>
          show (inTasks CoreloopNetworkPlugin.new i e +
            inContainers CoreloopNetworkPlugin.new i e : Multiset (buffer × object)).map Prod.fst = 0
          rw [inContainers_new]
          rfl
      | _ => rfl
    · cases holder <;> rfl

/-- **No object is ever held twice**, however many network threads there are. -/
theorem custody_run [DecidableEq object] [DecidableEq buffer] {networkThreads : UInt16}
    {visited : List (Config (CoreLoop threads endpoint object buffer)
      (PluginEvent threads endpoint (buffer × object)) × CoreLoopAction threads endpoint object buffer)}
    {x : Config (CoreLoop threads endpoint object buffer)
      (PluginEvent threads endpoint (buffer × object))}
    (hrun : Run (CoreLoop.step networkThreads) initial visited x) : Custody x.state := by
  apply hrun.invariant_state Custody
  · intro s s' a ev h hstep
    exact h.step hstep
  · exact custody_new

end CoreLoop

end Sekkeizu
