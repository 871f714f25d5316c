/-
# Sekkeizu.Network.Units — what one unit of `core_loop` does.

`Units` lists the units with their effect, and `units_of_step` is the inversion of `step`; nothing after it
unfolds the step again.
-/
import Sekkeizu.Network.Coreloop

namespace Sekkeizu

open PartialSystem

variable {threads : Nat} {endpoint object buffer : Type*}

namespace CoreLoop

/-- A unit of which the plugin shows nothing. -/
theorem eq_some_of_map {r : Option (CoreLoop threads endpoint object buffer)}
    (h : r.map (·, ([] : List (PluginEvent threads endpoint (buffer × object)))) = some (y, evs)) :
    r = some y ∧ evs = [] := by
  obtain ⟨y', hy, heq⟩ := Option.map_eq_some_iff.mp h
  obtain ⟨rfl, rfl⟩ := Prod.mk.inj heq
  exact ⟨hy, rfl⟩

variable [DecidableEq endpoint] [DecidableEq object] [DecidableEq buffer]

/-- **One unit**: the action, the state afterwards and what the plugin shows. -/
inductive Units (networkThreads : UInt16) (x : CoreLoop threads endpoint object buffer) :
    CoreLoopAction threads endpoint object buffer → CoreLoop threads endpoint object buffer →
      List (PluginEvent threads endpoint (buffer × object)) → Prop
  | startThread (source : PoolSource buffer) (b : buffer) (pool : PerThreadPool buffer)
      (hstart : x.start = .loop) (hlt : x.receives.length < networkThreads.toNat)
      (hget : x.dataMempool.get source = some (b, pool)) :
      Units networkThreads x (.startThread source)
        { x with dataMempool := pool, start := .getEndpoint b } []
  | startReceive (source : PoolSource object) (b : buffer) (o : object) (pool : PerThreadPool object)
      (hstart : x.start = .getEndpoint b) (hget : x.endpointsMempool.get source = some (o, pool)) :
      Units networkThreads x (.startReceive source)
        { x with
          endpointsMempool := pool
          receives := x.receives ++ [.outstanding b o]
          start := .loop } []
  | started (hstart : x.start = .loop) (hall : networkThreads.toNat ≤ x.receives.length) :
      Units networkThreads x .started { x with start := .done } []
  | failed (k : Nat) (b : buffer) (o : object) (hstage : x.receives[k]? = some (.outstanding b o)) :
      Units networkThreads x (.completed k none)
        { x with receives := x.receives.set k (.releaseBuffer b o) } []
  | received (k : Nat) (b : buffer) (o : object) (e : endpoint) (i : Fin threads)
      (plugin : CoreloopNetworkPlugin threads endpoint (buffer × object))
      (evs : List (PluginEvent threads endpoint (buffer × object)))
      (hstage : x.receives[k]? = some (.outstanding b o)) (hi : ↑i = (uniqueId k).toNat)
      (hunit : x.plugin.step (.handleNetworkPacket i e (b, o)) = some (plugin, evs)) :
      Units networkThreads x (.completed k (some e))
        { x with plugin := plugin, receives := x.receives.set k .getBuffer } evs
  | asserted (k : Nat) (e : endpoint) (hid : threads ≤ (uniqueId k).toNat) :
      Units networkThreads x (.completed k (some e)) { x with aborted := true } []
  | releaseBuffer (k : Nat) (b : buffer) (o : object)
      (hstage : x.receives[k]? = some (.releaseBuffer b o)) :
      Units networkThreads x (.handlerReleases k)
        { x with
          dataMempool := x.dataMempool.release b
          receives := x.receives.set k (.releaseEndpoint o) } []
  | releaseEndpoint (k : Nat) (o : object) (hstage : x.receives[k]? = some (.releaseEndpoint o)) :
      Units networkThreads x (.handlerReleases k)
        { x with
          endpointsMempool := x.endpointsMempool.release o
          receives := x.receives.set k .getBuffer } []
  | handlerBuffer (k : Nat) (source : PoolSource buffer) (b : buffer) (pool : PerThreadPool buffer)
      (hstage : x.receives[k]? = some .getBuffer) (hget : x.dataMempool.get source = some (b, pool)) :
      Units networkThreads x (.handlerBuffer k source)
        { x with dataMempool := pool, receives := x.receives.set k (.getEndpoint b) } []
  | handlerReceive (k : Nat) (source : PoolSource object) (b : buffer) (o : object)
      (pool : PerThreadPool object) (hstage : x.receives[k]? = some (.getEndpoint b))
      (hget : x.endpointsMempool.get source = some (o, pool)) :
      Units networkThreads x (.handlerReceive k source)
        { x with endpointsMempool := pool, receives := x.receives.set k (.outstanding b o) } []
  | plugin (action : PluginAction threads endpoint (buffer × object))
      (plugin : CoreloopNetworkPlugin threads endpoint (buffer × object))
      (evs : List (PluginEvent threads endpoint (buffer × object))) (hstart : x.start = .done)
      (haction : action.isSubmission = false) (hunit : x.plugin.step action = some (plugin, evs)) :
      Units networkThreads x (.plugin action)
        { x with
          plugin := plugin
          ending := x.ending ++ evs.flatMap PluginEvent.storedObject
          user := x.user ++ evs.flatMap PluginEvent.handedBuffers } evs
  | taskEnds (position : Nat) (o : object) (hobject : x.ending[position]? = some o) :
      Units networkThreads x (.taskEnds position)
        { x with
          endpointsMempool := x.endpointsMempool.release o
          ending := x.ending.eraseIdx position } []
  | releaseNetworkBuffer (b : buffer) (huser : b ∈ x.user) :
      Units networkThreads x (.releaseNetworkBuffer b)
        { x with dataMempool := x.dataMempool.release b, user := x.user.erase b } []

variable {x y : CoreLoop threads endpoint object buffer} {networkThreads : UInt16}
variable {evs : List (PluginEvent threads endpoint (buffer × object))}

theorem units_of_completed {k : Nat} {sender : Option endpoint}
    (h : x.completed k sender = some (y, evs)) : Units networkThreads x (.completed k sender) y evs := by
  unfold CoreLoop.completed at h
  split at h
  · next b o hstage =>
      obtain ⟨rfl, rfl⟩ := Prod.mk.inj (Option.some.inj h)
      exact .failed k b o hstage
  · next b o e hstage =>
      split_ifs at h with hid
      · obtain ⟨⟨plugin, evs'⟩, hunit, heq⟩ := Option.map_eq_some_iff.mp h
        obtain ⟨rfl, rfl⟩ := Prod.mk.inj heq
        exact .received k b o e _ plugin _ hstage rfl hunit
      · obtain ⟨rfl, rfl⟩ := Prod.mk.inj (Option.some.inj h)
        exact .asserted k e (Nat.le_of_not_lt hid)
  · exact absurd h (by simp)

/-- **The inversion of `step`.** -/
theorem units_of_step {action : CoreLoopAction threads endpoint object buffer}
    (h : CoreLoop.step networkThreads x action = some (y, evs)) : Units networkThreads x action y evs := by
  unfold CoreLoop.step at h
  split_ifs at h
  cases action with
  | startThread source =>
      obtain ⟨hy, rfl⟩ := eq_some_of_map h
      unfold CoreLoop.startThread at hy
      split at hy
      · next hstart =>
          split_ifs at hy with hlt
          obtain ⟨⟨b, pool⟩, hget, rfl⟩ := Option.map_eq_some_iff.mp hy
          exact .startThread source b pool hstart hlt hget
      · exact absurd hy (by simp)
  | startReceive source =>
      obtain ⟨hy, rfl⟩ := eq_some_of_map h
      unfold CoreLoop.startReceive at hy
      split at hy
      · next b hstart =>
          obtain ⟨⟨o, pool⟩, hget, rfl⟩ := Option.map_eq_some_iff.mp hy
          exact .startReceive source b o pool hstart hget
      · exact absurd hy (by simp)
  | started =>
      obtain ⟨hy, rfl⟩ := eq_some_of_map h
      unfold CoreLoop.started at hy
      split at hy
      · next hstart =>
          split_ifs at hy with hlt
          obtain rfl := Option.some.inj hy
          exact .started hstart (Nat.le_of_not_lt hlt)
      · exact absurd hy (by simp)
  | completed k sender => exact units_of_completed h
  | handlerReleases k =>
      obtain ⟨hy, rfl⟩ := eq_some_of_map h
      unfold CoreLoop.handlerReleases at hy
      split at hy
      · next b o hstage =>
          obtain rfl := Option.some.inj hy
          exact .releaseBuffer k b o hstage
      · next o hstage =>
          obtain rfl := Option.some.inj hy
          exact .releaseEndpoint k o hstage
      · exact absurd hy (by simp)
  | handlerBuffer k source =>
      obtain ⟨hy, rfl⟩ := eq_some_of_map h
      unfold CoreLoop.handlerBuffer at hy
      split at hy
      · next hstage =>
          obtain ⟨⟨b, pool⟩, hget, rfl⟩ := Option.map_eq_some_iff.mp hy
          exact .handlerBuffer k source b pool hstage hget
      · exact absurd hy (by simp)
  | handlerReceive k source =>
      obtain ⟨hy, rfl⟩ := eq_some_of_map h
      unfold CoreLoop.handlerReceive at hy
      split at hy
      · next b hstage =>
          obtain ⟨⟨o, pool⟩, hget, rfl⟩ := Option.map_eq_some_iff.mp hy
          exact .handlerReceive k source b o pool hstage hget
      · exact absurd hy (by simp)
  | plugin action =>
      have hy : x.pluginUnit action = some (y, evs) := h
      unfold CoreLoop.pluginUnit at hy
      split at hy
      · next hstart =>
          split_ifs at hy with haction
          obtain ⟨⟨plugin, evs'⟩, hunit, heq⟩ := Option.map_eq_some_iff.mp hy
          obtain ⟨rfl, rfl⟩ := Prod.mk.inj heq
          exact .plugin action plugin _ hstart (Bool.eq_false_of_not_eq_true haction) hunit
      · exact absurd hy (by simp)
  | taskEnds position =>
      obtain ⟨hy, rfl⟩ := eq_some_of_map h
      unfold CoreLoop.taskEnds at hy
      split at hy
      · exact absurd hy (by simp)
      · next o hobject =>
          obtain rfl := Option.some.inj hy
          exact .taskEnds position o hobject
  | releaseNetworkBuffer b =>
      obtain ⟨hy, rfl⟩ := eq_some_of_map h
      unfold CoreLoop.releaseNetworkBuffer at hy
      split_ifs at hy with huser
      obtain rfl := Option.some.inj hy
      exact .releaseNetworkBuffer b huser

end CoreLoop

end Sekkeizu
