/-
# Sekkeizu.Network.Losses — the fate of every buffer of the receive loop.

`custody_run` says that a buffer has one holder at most. This module says when it has one at all. A unit of the
receive loop moves buffers between holders, or makes one; a unit of the plugin moves buffers between the plugin and
the user; and the section of a disconnect that releases a local mutex erases what is pending there for the client
(`BufferFlow`). What is erased has no holder from then on, so nobody can give it back to the pool, and everything
else that was ever allocated has exactly one (`one_holder_or_lost`).
-/
import Sekkeizu.Network.Custody

namespace Sekkeizu

open PartialSystem
open Ownership (Owned)
open Account (total total_nil total_append total_singleton total_set total_eq_zero mem_total)

variable {threads : Nat} {endpoint object buffer : Type*} [DecidableEq endpoint]

namespace CoreLoop

open CoreloopNetworkPlugin

/-- A buffer has a holder. -/
def Held (x : CoreLoop threads endpoint object buffer) (b : buffer) : Prop :=
  ∃ holder, b ∈ x.buffersOf holder

/-- The buffers that are not with the plugin. -/
def outsidePlugin (x : CoreLoop threads endpoint object buffer) : Multiset buffer :=
  x.start.buffers + total ReceiveStage.buffers x.receives + x.user + x.dataMempool.freeObjects

/-- What a unit erases of the buffers one thread has for one client. -/
def erased (i : Fin threads) (e : endpoint) (x : CoreLoop threads endpoint object buffer)
    (action : CoreLoopAction threads endpoint object buffer) : Multiset buffer :=
  match action with
  | .plugin action => (x.plugin.erased i e action).map Prod.fst
  | _ => 0

/-- **A run has lost the buffer**: one of its units erased it. -/
def LostIn (visited : List (Config (CoreLoop threads endpoint object buffer)
    (PluginEvent threads endpoint (buffer × object)) × CoreLoopAction threads endpoint object buffer))
    (b : buffer) : Prop :=
  ∃ p ∈ visited, ∃ i e, b ∈ p.1.state.erased i e p.2

theorem mem_total_receives {α : Type*} {f : ReceiveStage object buffer → Multiset α}
    {receives : List (ReceiveStage object buffer)} {a : α} :
    a ∈ total f receives ↔ ∃ k, a ∈ ofReceive f receives k := by
  rw [mem_total]
  constructor
  · rintro ⟨stage, hstage, ha⟩
    obtain ⟨k, hk⟩ := List.mem_iff_getElem?.mp hstage
    exact ⟨k, by rwa [ofReceive_of_getElem hk]⟩
  · rintro ⟨k, ha⟩
    cases hk : receives[k]? with
    | none => simp [ofReceive, hk] at ha
    | some stage => exact ⟨stage, List.mem_of_getElem? hk, by rwa [ofReceive_of_getElem hk] at ha⟩

theorem mem_outsidePlugin {x : CoreLoop threads endpoint object buffer} {b : buffer} :
    b ∈ x.outsidePlugin ↔ ∃ holder, (∀ i e, holder ≠ .plugin i e) ∧ b ∈ x.buffersOf holder := by
  simp only [outsidePlugin, Multiset.mem_add, mem_total_receives]
  constructor
  · rintro (((hstart | ⟨k, hk⟩) | huser) | hfree)
    · exact ⟨.start, by simp, hstart⟩
    · exact ⟨.receive k, by simp, hk⟩
    · exact ⟨.user, by simp, huser⟩
    · exact ⟨.free, by simp, hfree⟩
  · rintro ⟨holder, hnot, hb⟩
    cases holder with
    | start => exact Or.inl (Or.inl (Or.inl hb))
    | receive k => exact Or.inl (Or.inl (Or.inr ⟨k, hb⟩))
    | plugin i e => exact absurd rfl (hnot i e)
    | ending => exact absurd hb (Multiset.notMem_zero b)
    | user => exact Or.inl (Or.inr hb)
    | free => exact Or.inr hb

theorem held_iff {x : CoreLoop threads endpoint object buffer} {b : buffer} :
    x.Held b ↔ b ∈ x.outsidePlugin ∨ ∃ i e, b ∈ x.buffersOf (.plugin i e) := by
  rw [mem_outsidePlugin]
  constructor
  · rintro ⟨holder, hb⟩
    by_cases hplugin : ∃ i e, holder = .plugin i e
    · obtain ⟨i, e, rfl⟩ := hplugin
      exact Or.inr ⟨i, e, hb⟩
    · exact Or.inl ⟨holder, fun i e heq => hplugin ⟨i, e, heq⟩, hb⟩
  · rintro (⟨holder, -, hb⟩ | ⟨i, e, hb⟩)
    · exact ⟨holder, hb⟩
    · exact ⟨.plugin i e, hb⟩

/-- The user gets what the places of all threads and clients give. -/
theorem mem_handedBuffers {evs : List (PluginEvent threads endpoint (buffer × object))} {b : buffer} :
    b ∈ evs.flatMap PluginEvent.handedBuffers ↔
      ∃ i e, b ∈ (total (fun ev => (ev.handed i e : Multiset (buffer × object))) evs).map Prod.fst := by
  simp only [List.mem_flatMap, Multiset.mem_map, mem_total, Multiset.mem_coe]
  constructor
  · rintro ⟨ev, hev, hb⟩
    cases ev with
    | clientInputs e data =>
        obtain ⟨⟨i, p⟩, hin, rfl⟩ := List.mem_map.mp hb
        refine ⟨i, e, p, ⟨_, hev, ?_⟩, rfl⟩
        rw [PluginEvent.handed, if_pos rfl]
        exact List.mem_filterMap.mpr ⟨(i, p), hin, if_pos rfl⟩
    | _ => exact absurd hb List.not_mem_nil
  · rintro ⟨i, e, p, ⟨ev, hev, hp⟩, rfl⟩
    cases ev with
    | clientInputs e' data =>
        rw [PluginEvent.handed] at hp
        split_ifs at hp
        · obtain ⟨⟨j, q⟩, hin, hq⟩ := List.mem_filterMap.mp hp
          dsimp only at hq
          split_ifs at hq
          obtain rfl := Option.some.inj hq
          exact ⟨_, hev, List.mem_map.mpr ⟨(j, q), hin, rfl⟩⟩
        · exact absurd hp List.not_mem_nil
    | _ => exact absurd hp List.not_mem_nil

/-! ## What a unit does to the buffers -/

/-- **The flow of a unit**: it moves buffers outside the plugin, makes one, submits one to the plugin, or is a
unit of the plugin, which hands some to the user and may erase some. -/
inductive BufferFlow (x : CoreLoop threads endpoint object buffer)
    (action : CoreLoopAction threads endpoint object buffer) (y : CoreLoop threads endpoint object buffer) :
    Prop
  | moves (hout : y.outsidePlugin = x.outsidePlugin) (hplugin : y.plugin = x.plugin)
      (hpool : y.dataMempool.allocated = x.dataMempool.allocated) (hkept : ∀ i e, x.erased i e action = 0)
  | makes (b : buffer) (hfresh : b ∉ x.dataMempool.allocated)
      (hout : y.outsidePlugin = x.outsidePlugin + {b}) (hplugin : y.plugin = x.plugin)
      (hpool : ∀ b', b' ∈ y.dataMempool.allocated ↔ b' = b ∨ b' ∈ x.dataMempool.allocated)
      (hkept : ∀ i e, x.erased i e action = 0)
  | submits (b : buffer) (i : Fin threads) (e : endpoint) (hout : y.outsidePlugin + {b} = x.outsidePlugin)
      (hself : y.buffersOf (.plugin i e) = x.buffersOf (.plugin i e) + {b})
      (hother : ∀ i' e', ¬ (i = i' ∧ e = e') → y.buffersOf (.plugin i' e') = x.buffersOf (.plugin i' e'))
      (hpool : y.dataMempool.allocated = x.dataMempool.allocated) (hkept : ∀ i e, x.erased i e action = 0)
  | exchanges (evs : List (PluginEvent threads endpoint (buffer × object)))
      (hout : y.outsidePlugin = x.outsidePlugin + evs.flatMap PluginEvent.handedBuffers)
      (hbalance : ∀ i e, y.buffersOf (.plugin i e) +
        (total (fun ev => (ev.handed i e : Multiset (buffer × object))) evs).map Prod.fst + x.erased i e action =
          x.buffersOf (.plugin i e))
      (hpool : y.dataMempool.allocated = x.dataMempool.allocated)

variable {x y : CoreLoop threads endpoint object buffer}

/-- A buffer out of the pool goes to a place outside the plugin that had none. -/
theorem BufferFlow.of_gets [DecidableEq buffer]
    {action : CoreLoopAction threads endpoint object buffer} {b : buffer}
    (hgets : x.dataMempool.Gets b y.dataMempool) (hplugin : y.plugin = x.plugin)
    (hrest : y.start.buffers + total ReceiveStage.buffers y.receives + (y.user : Multiset buffer) =
      x.start.buffers + total ReceiveStage.buffers x.receives + x.user + {b})
    (hkept : ∀ i e, x.erased i e action = 0) : BufferFlow x action y := by
  generalize hpool : y.dataMempool = pool at hgets
  cases hgets with
  | dequeued free hfree =>
      refine .moves ?_ hplugin (by rw [hpool]) hkept
      rw [outsidePlugin, outsidePlugin, hrest, hpool, hfree]
      abel
  | malloced hfresh =>
      refine .makes b hfresh ?_ hplugin (fun b' => by rw [hpool, Finset.mem_insert]) hkept
      rw [outsidePlugin, outsidePlugin, hrest, hpool]
      abel

/-- A packet goes from its receive to its task. -/
theorem BufferFlow.of_submission (h : Custody x) {k : Nat} {b : buffer} {o : object} {i : Fin threads}
    {e : endpoint} {sender : Option endpoint} (hstage : x.receives[k]? = some (.outstanding b o))
    {plugin : CoreloopNetworkPlugin threads endpoint (buffer × object)}
    {evs : List (PluginEvent threads endpoint (buffer × object))}
    (hstep : x.plugin.step (.handleNetworkPacket i e (b, o)) = some (plugin, evs)) :
    BufferFlow x (.completed k sender)
      { x with plugin := plugin, receives := x.receives.set k .getBuffer } := by
  have hevs : evs = [.submitted i e (b, o)] := by
    cases acts_of_step h.sections.toLocals hstep with
    | submit => rfl
  subst hevs
  have hcontent : ∀ i' e', plugin.inTasks i' e' + plugin.inContainers i' e' =
      x.plugin.inTasks i' e' + x.plugin.inContainers i' e' +
        ((PluginEvent.submitted i e (b, o)).taken i' e' : Multiset (buffer × object)) := by
    intro i' e'
    have hbalance : plugin.inTasks i' e' + plugin.inContainers i' e' +
        total (account i' e').expense [.submitted i e (b, o)] + 0 = _ :=
      balances h.sections i' e' hstep
    rw [total_singleton, total_singleton] at hbalance
    rw [← add_zero (plugin.inTasks i' e' + _), ← add_zero (plugin.inTasks i' e' + _ + 0)]
    exact hbalance
  refine .submits b i e ?_ ?_ ?_ rfl fun _ _ => rfl
  · have hreceives := total_set (f := ReceiveStage.buffers) hstage ReceiveStage.getBuffer
    show x.start.buffers + total ReceiveStage.buffers (x.receives.set k .getBuffer) + _ + _ + {b} =
      x.start.buffers + total ReceiveStage.buffers x.receives + _ + _
    rw [← show _ = total ReceiveStage.buffers x.receives from hreceives.trans (add_zero _)]
    show _ = x.start.buffers + (total ReceiveStage.buffers (x.receives.set k .getBuffer) + {b}) + _ + _
    abel
  · show (plugin.inTasks i e + plugin.inContainers i e).map Prod.fst = _
    rw [hcontent, PluginEvent.taken, if_pos ⟨rfl, rfl⟩, Multiset.map_add]
    rfl
  · intro i' e' hne
    show (plugin.inTasks i' e' + plugin.inContainers i' e').map Prod.fst = _
    rw [hcontent, PluginEvent.taken, if_neg hne, Multiset.coe_nil, add_zero]
    rfl

/-- A unit of the plugin that submits nothing. -/
theorem BufferFlow.of_plugin (h : Custody x) {action : PluginAction threads endpoint (buffer × object)}
    {plugin : CoreloopNetworkPlugin threads endpoint (buffer × object)}
    {evs : List (PluginEvent threads endpoint (buffer × object))} (haction : action.isSubmission = false)
    (hstep : x.plugin.step action = some (plugin, evs)) (ending : List object) :
    BufferFlow x (.plugin action)
      { x with
        plugin := plugin
        ending := ending
        user := x.user ++ evs.flatMap PluginEvent.handedBuffers } := by
  refine .exchanges evs ?_ (fun i e => ?_) rfl
  · show x.start.buffers + _ + ((x.user ++ evs.flatMap PluginEvent.handedBuffers : List buffer) :
      Multiset buffer) + _ = x.start.buffers + _ + x.user + _ + _
    rw [← Multiset.coe_add]
    abel
  · have htaken : total (account i e).income evs = (0 : Multiset (buffer × object)) := by
      refine total_eq_zero fun ev hev => ?_
      cases (acts_of_step h.sections.toLocals hstep).traffic haction with
      | silent hsilent =>
          show (ev.taken i e : Multiset (buffer × object)) = 0
          rw [((hsilent ev hev).1 i e).1]
          rfl
      | stored j e' p => rw [List.mem_singleton.mp hev]; rfl
      | handed e' data => rw [List.mem_singleton.mp hev]; rfl
    have hbalance : plugin.inTasks i e + plugin.inContainers i e + total (account i e).expense evs +
        x.plugin.erased i e action = _ := balances h.sections i e hstep
    rw [htaken, add_zero] at hbalance
    have hmap := congrArg (Multiset.map Prod.fst) hbalance
    rwa [Multiset.map_add, Multiset.map_add _ (plugin.inTasks i e + _)] at hmap

/-- **Every unit is a flow of buffers.** -/
theorem bufferFlow_of_step [DecidableEq object] [DecidableEq buffer] (h : Custody x) {networkThreads : UInt16}
    {action : CoreLoopAction threads endpoint object buffer}
    {evs : List (PluginEvent threads endpoint (buffer × object))}
    (hstep : CoreLoop.step networkThreads x action = some (y, evs)) : BufferFlow x action y := by
  -- a receive that changes its stage and keeps its buffer
  have hset : ∀ {k : Nat} {stage stage' : ReceiveStage object buffer}, x.receives[k]? = some stage →
      stage'.buffers = stage.buffers →
        total ReceiveStage.buffers (x.receives.set k stage') = total ReceiveStage.buffers x.receives := by
    intro k stage stage' hstage hsame
    have htotal := total_set (f := ReceiveStage.buffers) hstage stage'
    rw [hsame] at htotal
    exact add_right_cancel htotal
  cases units_of_step hstep with
  | startThread source b pool hstart hlt hget =>
      refine .of_gets (PerThreadPool.gets_of_get hget) rfl ?_ fun _ _ => rfl
      rw [hstart]
      show ({b} : Multiset buffer) + _ + _ = (0 : Multiset buffer) + _ + _ + {b}
      abel
  | startReceive source b o pool hstart hget =>
      refine .moves ?_ rfl rfl fun _ _ => rfl
      simp only [outsidePlugin, hstart, total_append, total_singleton, StartStage.buffers,
        ReceiveStage.buffers]
      abel
  | started hstart hall =>
      refine .moves ?_ rfl rfl fun _ _ => rfl
      simp only [outsidePlugin, hstart, StartStage.buffers]
  | failed k b o hstage =>
      refine .moves ?_ rfl rfl fun _ _ => rfl
      simp only [outsidePlugin, hset hstage (show ReceiveStage.buffers (.releaseBuffer b o) = _ from rfl)]
  | received k b o e i plugin evs hstage hi hunit => exact .of_submission h hstage hunit
  | asserted k e hid => exact .moves rfl rfl rfl fun _ _ => rfl
  | releaseBuffer k b o hstage =>
      refine .moves ?_ rfl rfl fun _ _ => rfl
      have hreceives := total_set (f := ReceiveStage.buffers) hstage (.releaseEndpoint o)
      show x.start.buffers + _ + _ + _ = x.start.buffers + _ + _ + _
      rw [PerThreadPool.release_free,
        show total ReceiveStage.buffers x.receives = _ from (hreceives.trans (add_zero _)).symm]
      show _ = x.start.buffers + (_ + {b}) + _ + _
      abel
  | releaseEndpoint k o hstage =>
      refine .moves ?_ rfl rfl fun _ _ => rfl
      simp only [outsidePlugin,
        hset hstage (show ReceiveStage.buffers .getBuffer = ReceiveStage.buffers (.releaseEndpoint o) from rfl)]
  | handlerBuffer k source b pool hstage hget =>
      refine .of_gets (PerThreadPool.gets_of_get hget) rfl ?_ fun _ _ => rfl
      have hreceives := total_set (f := ReceiveStage.buffers) hstage (.getEndpoint b)
      show x.start.buffers + total ReceiveStage.buffers (x.receives.set k (.getEndpoint b)) + _ = _
      rw [show total ReceiveStage.buffers (x.receives.set k (.getEndpoint b)) = _ from
        (add_zero _).symm.trans hreceives]
      show _ + (_ + {b}) + _ = _
      abel
  | handlerReceive k source b o pool hstage hget =>
      refine .moves ?_ rfl rfl fun _ _ => rfl
      simp only [outsidePlugin,
        hset hstage (show ReceiveStage.buffers (.outstanding b o) = _ from rfl)]
  | plugin action plugin evs hstart haction hunit => exact .of_plugin h haction hunit _
  | taskEnds position o hobject => exact .moves rfl rfl rfl fun _ _ => rfl
  | releaseNetworkBuffer b huser =>
      refine .moves ?_ rfl rfl fun _ _ => rfl
      have herase : ((x.user.erase b : List buffer) : Multiset buffer) + {b} = x.user := by
        rw [← Multiset.coe_singleton, Multiset.coe_add]
        exact Multiset.coe_eq_coe.mpr
          ((List.perm_append_singleton b _).trans (List.perm_cons_erase huser).symm)
      show x.start.buffers + _ + _ + _ = x.start.buffers + _ + _ + _
      rw [PerThreadPool.release_free, ← herase]
      abel

/-! ## Held or lost -/

namespace BufferFlow

variable {action : CoreLoopAction threads endpoint object buffer} {b : buffer}

/-- What the pool has allocated afterwards: what it had, and what somebody holds now. -/
theorem allocated (hflow : BufferFlow x action y) :
    (b ∈ x.dataMempool.allocated → b ∈ y.dataMempool.allocated) ∧
      (b ∈ y.dataMempool.allocated → b ∈ x.dataMempool.allocated ∨ y.Held b) := by
  cases hflow with
  | makes b' hfresh hout hplugin hpool hkept =>
      refine ⟨fun hb => (hpool b).mpr (Or.inr hb), fun hb => ?_⟩
      rcases (hpool b).mp hb with rfl | hold
      · refine Or.inr (held_iff.mpr (Or.inl ?_))
        rw [hout]
        exact Multiset.mem_add.mpr (Or.inr (Multiset.mem_singleton_self b))
      · exact Or.inl hold
  | moves hout hplugin hpool hkept => exact hpool ▸ ⟨id, Or.inl⟩
  | submits b' i e hout hself hother hpool hkept => exact hpool ▸ ⟨id, Or.inl⟩
  | exchanges evs hout hbalance hpool => exact hpool ▸ ⟨id, Or.inl⟩

/-- What is held is held afterwards, or erased. -/
theorem kept (hflow : BufferFlow x action y) (hb : x.Held b) :
    y.Held b ∨ ∃ i e, b ∈ x.erased i e action := by
  rw [held_iff] at hb ⊢
  cases hflow with
  | moves hout hplugin hpool hkept =>
      refine Or.inl (hb.imp (fun hb => hout ▸ hb) ?_)
      rintro ⟨i, e, hb⟩
      exact ⟨i, e, by rwa [buffersOf, hplugin]⟩
  | makes b' hfresh hout hplugin hpool hkept =>
      refine Or.inl (hb.imp (fun hb => ?_) ?_)
      · rw [hout]
        exact Multiset.mem_add.mpr (Or.inl hb)
      · rintro ⟨i, e, hb⟩
        exact ⟨i, e, by rwa [buffersOf, hplugin]⟩
  | submits b' i e hout hself hother hpool hkept =>
      refine Or.inl ?_
      rcases hb with hb | ⟨i', e', hb⟩
      · rw [← hout, Multiset.mem_add] at hb
        refine hb.imp id fun hb => ⟨i, e, ?_⟩
        rw [hself]
        exact Multiset.mem_add.mpr (Or.inr hb)
      · refine Or.inr ⟨i', e', ?_⟩
        by_cases hmine : i = i' ∧ e = e'
        · obtain ⟨rfl, rfl⟩ := hmine
          rw [hself]
          exact Multiset.mem_add.mpr (Or.inl hb)
        · rwa [hother i' e' hmine]
  | exchanges evs hout hbalance hpool =>
      rcases hb with hb | ⟨i, e, hb⟩
      · rw [hout]
        exact Or.inl (Or.inl (Multiset.mem_add.mpr (Or.inl hb)))
      · rw [← hbalance i e, Multiset.mem_add, Multiset.mem_add] at hb
        rcases hb with (hb | hb) | hb
        · exact Or.inl (Or.inr ⟨i, e, hb⟩)
        · refine Or.inl (Or.inl ?_)
          rw [hout]
          exact Multiset.mem_add.mpr (Or.inr (Multiset.mem_coe.mpr (mem_handedBuffers.mpr ⟨i, e, hb⟩)))
        · exact Or.inr ⟨i, e, hb⟩

/-- What is held afterwards was held before, or not allocated. -/
theorem held_before (hflow : BufferFlow x action y) (hb : y.Held b) :
    x.Held b ∨ b ∉ x.dataMempool.allocated := by
  rw [held_iff] at hb ⊢
  cases hflow with
  | moves hout hplugin hpool hkept =>
      refine Or.inl (hb.imp (fun hb => hout ▸ hb) ?_)
      rintro ⟨i, e, hb⟩
      exact ⟨i, e, by rwa [buffersOf, ← hplugin]⟩
  | makes b' hfresh hout hplugin hpool hkept =>
      rcases hb with hb | ⟨i, e, hb⟩
      · rw [hout, Multiset.mem_add, Multiset.mem_singleton] at hb
        rcases hb with hb | rfl
        · exact Or.inl (Or.inl hb)
        · exact Or.inr hfresh
      · exact Or.inl (Or.inr ⟨i, e, by rwa [buffersOf, ← hplugin]⟩)
  | submits b' i e hout hself hother hpool hkept =>
      refine Or.inl ?_
      rw [← hout]
      rcases hb with hb | ⟨i', e', hb⟩
      · exact Or.inl (Multiset.mem_add.mpr (Or.inl hb))
      · by_cases hmine : i = i' ∧ e = e'
        · obtain ⟨rfl, rfl⟩ := hmine
          rw [hself, Multiset.mem_add] at hb
          exact hb.symm.imp (fun hb => Multiset.mem_add.mpr (Or.inr hb)) fun hb => ⟨i, e, hb⟩
        · exact Or.inr ⟨i', e', by rwa [← hother i' e' hmine]⟩
  | exchanges evs hout hbalance hpool =>
      refine Or.inl ?_
      rcases hb with hb | ⟨i, e, hb⟩
      · rw [hout, Multiset.mem_add] at hb
        refine hb.imp id fun hb => ?_
        obtain ⟨i, e, hb⟩ := mem_handedBuffers.mp (Multiset.mem_coe.mp hb)
        refine ⟨i, e, ?_⟩
        rw [← hbalance i e]
        exact Multiset.mem_add.mpr (Or.inl (Multiset.mem_add.mpr (Or.inr hb)))
      · refine Or.inr ⟨i, e, ?_⟩
        rw [← hbalance i e]
        exact Multiset.mem_add.mpr (Or.inl (Multiset.mem_add.mpr (Or.inl hb)))

/-- What is erased was allocated, and has no holder afterwards. -/
theorem gone (hflow : BufferFlow x action y) (h : Owned x.dataMempool.allocated x.buffersOf)
    {i : Fin threads} {e : endpoint} (hb : b ∈ x.erased i e action) :
    b ∈ x.dataMempool.allocated ∧ ¬ y.Held b := by
  cases hflow with
  | moves hout hplugin hpool hkept => exact absurd (hkept i e ▸ hb) (Multiset.notMem_zero b)
  | makes b' hfresh hout hplugin hpool hkept => exact absurd (hkept i e ▸ hb) (Multiset.notMem_zero b)
  | submits b' i' e' hout hself hother hpool hkept =>
      exact absurd (hkept i e ▸ hb) (Multiset.notMem_zero b)
  | exchanges evs hout hbalance hpool =>
      have hmine : b ∈ x.buffersOf (.plugin i e) := by
        rw [← hbalance i e]
        exact Multiset.mem_add.mpr (Or.inr hb)
      refine ⟨h.allocated hmine, fun hheld => ?_⟩
      -- who holds it now, or gave it to the user, held it before, and is the one it was erased from
      have hnodup := h.nodup (.plugin i e)
      rw [← hbalance i e, Multiset.nodup_add] at hnodup
      have hsame : ∀ {i' e'}, b ∈ y.buffersOf (.plugin i' e') +
          (total (fun ev => (ev.handed i' e' : Multiset (buffer × object))) evs).map Prod.fst → False := by
        intro i' e' hin
        have hother : b ∈ x.buffersOf (.plugin i' e') := by
          rw [← hbalance i' e']
          exact Multiset.mem_add.mpr (Or.inl hin)
        obtain ⟨rfl, rfl⟩ := Holder.plugin.inj (h.unique hother hmine)
        exact Multiset.disjoint_left.mp hnodup.2.2 hin hb
      rcases held_iff.mp hheld with hout' | ⟨i', e', hin⟩
      · rw [hout, Multiset.mem_add] at hout'
        rcases hout' with hold | hhanded
        · obtain ⟨holder, hnot, hin⟩ := mem_outsidePlugin.mp hold
          exact hnot i e (h.unique hin hmine)
        · obtain ⟨i', e', hin⟩ := mem_handedBuffers.mp (Multiset.mem_coe.mp hhanded)
          exact hsame (Multiset.mem_add.mpr (Or.inr hin))
      · exact hsame (Multiset.mem_add.mpr (Or.inl hin))

end BufferFlow

/-- **The fate of the buffers** of a run: an allocated buffer is held unless it is lost, and what is lost was
allocated. -/
structure Fates (visited : List (Config (CoreLoop threads endpoint object buffer)
    (PluginEvent threads endpoint (buffer × object)) × CoreLoopAction threads endpoint object buffer))
    (x : CoreLoop threads endpoint object buffer) : Prop where
  held_iff : ∀ b ∈ x.dataMempool.allocated, x.Held b ↔ ¬ LostIn visited b
  allocated : ∀ b, LostIn visited b → b ∈ x.dataMempool.allocated

theorem lostIn_snoc {visited : List (Config (CoreLoop threads endpoint object buffer)
    (PluginEvent threads endpoint (buffer × object)) × CoreLoopAction threads endpoint object buffer)}
    {x : Config (CoreLoop threads endpoint object buffer) (PluginEvent threads endpoint (buffer × object))}
    {action : CoreLoopAction threads endpoint object buffer} {b : buffer} :
    LostIn (visited ++ [(x, action)]) b ↔ LostIn visited b ∨ ∃ i e, b ∈ x.state.erased i e action := by
  simp only [LostIn, List.mem_append, List.mem_singleton, or_and_right, exists_or, exists_eq_left]

theorem fates_run [DecidableEq object] [DecidableEq buffer] {networkThreads : UInt16}
    {visited : List (Config (CoreLoop threads endpoint object buffer)
      (PluginEvent threads endpoint (buffer × object)) × CoreLoopAction threads endpoint object buffer)}
    {x : Config (CoreLoop threads endpoint object buffer)
      (PluginEvent threads endpoint (buffer × object))}
    (hrun : Run (CoreLoop.step networkThreads) initial visited x) : Fates visited x.state := by
  induction hrun with
  | start =>
      refine ⟨fun b hb => absurd hb (Finset.notMem_empty b), ?_⟩
      rintro b ⟨p, hp, -⟩
      exact absurd hp List.not_mem_nil
  | @snoc visited x y action hinit hnext ih =>
      obtain ⟨s, evs, hstep, rfl⟩ := Step.next_eq_some.mp hnext
      have hcustody := custody_run hinit
      have hflow := bufferFlow_of_step hcustody hstep
      refine ⟨fun b hb => ?_, fun b hlost => ?_⟩
      · rw [lostIn_snoc, not_or]
        constructor
        · intro hheld
          refine ⟨fun hlost => ?_, ?_⟩
          · have hold := ih.allocated b hlost
            rcases hflow.held_before hheld with hbefore | hfresh
            · exact (ih.held_iff b hold).mp hbefore hlost
            · exact hfresh hold
          · rintro ⟨i, e, herased⟩
            exact (hflow.gone hcustody.exclusive.1 herased).2 hheld
        · rintro ⟨hnot, hkept⟩
          rcases hflow.allocated.2 hb with hold | hheld
          · exact (hflow.kept ((ih.held_iff b hold).mpr hnot)).resolve_right hkept
          · exact hheld
      · rcases lostIn_snoc.mp hlost with hold | ⟨i, e, herased⟩
        · exact hflow.allocated.1 (ih.allocated b hold)
        · exact hflow.allocated.1 (hflow.gone hcustody.exclusive.1 herased).1

/-- **One holder, or lost for ever.** After every run of the receive loop, a buffer the pool has ever allocated
has exactly one holder, which has it once (for a thread and a client: in one packet task or in one slot of their
two vectors), unless some disconnect, as it released a local mutex, erased it from what was pending there; then
nobody has it, now or later. -/
theorem one_holder_or_lost [DecidableEq object] [DecidableEq buffer] {networkThreads : UInt16}
    {visited : List (Config (CoreLoop threads endpoint object buffer)
      (PluginEvent threads endpoint (buffer × object)) × CoreLoopAction threads endpoint object buffer)}
    {x : Config (CoreLoop threads endpoint object buffer)
      (PluginEvent threads endpoint (buffer × object))}
    (hrun : Run (CoreLoop.step networkThreads) initial visited x) {b : buffer}
    (hb : b ∈ x.state.dataMempool.allocated) :
    (¬ LostIn visited b ∧ ∃ holder, (x.state.buffersOf holder).count b = 1 ∧
        ∀ other, b ∈ x.state.buffersOf other → other = holder) ∨
      LostIn visited b ∧ ∀ later y, Run (CoreLoop.step networkThreads) x later y →
        ∀ holder, b ∉ y.state.buffersOf holder := by
  by_cases hlost : LostIn visited b
  · refine Or.inr ⟨hlost, fun later y hlater holder hheld => ?_⟩
    have hfates := fates_run (hrun.trans hlater)
    obtain ⟨p, hp, hin⟩ := hlost
    have hlost' : LostIn (visited ++ later) b := ⟨p, List.mem_append_left later hp, hin⟩
    exact (hfates.held_iff b (hfates.allocated b hlost')).mp ⟨holder, hheld⟩ hlost'
  · obtain ⟨holder, hheld⟩ := ((fates_run hrun).held_iff b hb).mpr hlost
    have howned := (custody_run hrun).exclusive.1
    exact Or.inl ⟨hlost, holder, Multiset.count_eq_one_of_mem (howned.nodup holder) hheld,
      fun other hother => howned.unique hother hheld⟩

/-- Two packets of one client; the second lands after the tick has drained its thread, and the client is
disconnected in the same tick. -/
def latePacket : List (CoreLoopAction 1 Nat Nat Nat) :=
  [.startThread (.malloced 100), .startReceive (.malloced 10), .started,
    .completed 0 (some 7), .handlerBuffer 0 (.malloced 101), .handlerReceive 0 (.malloced 11),
    .plugin (.lockLocal 0), .plugin (.registerShared (Fin.last 0)), .plugin (.storeLocal (Fin.last 0)), .taskEnds 0,
    .plugin (.newClients [7]), .plugin .tick,
    .completed 0 (some 7), .handlerBuffer 0 (.malloced 102), .handlerReceive 0 (.dequeued 0),
    .plugin (.lockLocal 0), .plugin (.storeLocal (Fin.last 0)), .plugin .tick, .plugin (.clientInputs 7),
    .plugin (.disconnect 7)] ++ List.replicate 10 (.plugin .tick)

theorem one_holder_or_lost_late_packet :
    ∃ (visited : List (Config (CoreLoop 1 Nat Nat Nat) (PluginEvent 1 Nat (Nat × Nat)) ×
        CoreLoopAction 1 Nat Nat Nat))
      (x : Config (CoreLoop 1 Nat Nat Nat) (PluginEvent 1 Nat (Nat × Nat))),
      visited.map Prod.snd = latePacket ∧ Run (CoreLoop.step 1) initial visited x ∧
        (∃ holder, (x.state.buffersOf holder).count 100 = 1 ∧
          ∀ other, 100 ∈ x.state.buffersOf other → other = holder) ∧
        ∀ later y, Run (CoreLoop.step 1) x later y → ∀ holder, 101 ∉ y.state.buffersOf holder := by
  obtain ⟨x, hx⟩ := Option.isSome_iff_exists.mp (show (exec (CoreLoop.step 1)
    (initial : Config (CoreLoop 1 Nat Nat Nat) _) latePacket).isSome = true by decide)
  have hplaces : (some x).map (fun x => (decide (100 ∈ x.state.dataMempool.allocated),
      decide (101 ∈ x.state.dataMempool.allocated), x.state.user)) = some (true, true, [100]) := by
    rw [← hx]
    decide
  have herased : ((trace (CoreLoop.step 1) (initial : Config (CoreLoop 1 Nat Nat Nat) _) latePacket).any
      fun p => decide (101 ∈ p.1.state.erased (Fin.last 0) 7 p.2)) = true := by decide
  simp only [Option.map_some, Option.some.injEq, Prod.mk.injEq, decide_eq_true_eq] at hplaces
  obtain ⟨hfirst, hsecond, huser⟩ := hplaces
  obtain ⟨p, hp, hin⟩ := List.any_eq_true.mp herased
  have hlost : LostIn (trace (CoreLoop.step 1) (initial : Config (CoreLoop 1 Nat Nat Nat) _) latePacket)
      101 := ⟨p, hp, Fin.last 0, 7, of_decide_eq_true hin⟩
  have hheld : 100 ∈ x.state.buffersOf .user := by
    show 100 ∈ (x.state.user : Multiset Nat)
    rw [huser]
    decide
  refine ⟨_, x, actions_trace hx, run_trace hx, ?_, ?_⟩
  · rcases one_holder_or_lost (run_trace hx) hfirst with ⟨-, hone⟩ | ⟨-, hnobody⟩
    · exact hone
    · exact absurd hheld (hnobody [] x .start .user)
  · rcases one_holder_or_lost (run_trace hx) hsecond with ⟨hkept, -⟩ | ⟨-, hnobody⟩
    · exact absurd hlost hkept
    · exact hnobody

end CoreLoop

end Sekkeizu
