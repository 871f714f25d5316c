/-
# Sekkeizu.Network.Representation — how the containers of the plugin represent the clients.

Between ticks four equations tie the containers together: a thread knows exactly the endpoints it has a
vector for, all of these are registered, and a registered endpoint is either new or a client, never both.
While a disconnect erases one endpoint from five containers they hold in part only: a thread whose mutex
has been given back may register the endpoint again before the other threads are cleared.

The two invariants of the plugin carry this: `Sections` for the threads, the table of `Registry` for the
partition of `_endpoints`. Nothing is proved by induction here.
-/
import Sekkeizu.Network.Lifecycle


namespace Sekkeizu

open PartialSystem

variable {threads : Nat} {endpoint buffer : Type*} [DecidableEq endpoint]

namespace CoreloopNetworkPlugin

/-- What a thread knows: `_local_endpoints[i]` is the key set of `_pending_inputs[i]`, and registered. -/
structure RepresentsThread (x : CoreloopNetworkPlugin threads endpoint buffer) (i : Fin threads) :
    Prop where
  keys : (x.pendingInputs i).keys = x.localEndpoints i
  registered : x.localEndpoints i ⊆ x.endpoints

/-- **The representation**: every thread's, and the registered endpoints are the new ones and the
clients, disjointly. -/
structure Represents (x : CoreloopNetworkPlugin threads endpoint buffer) : Prop where
  thread : ∀ i, x.RepresentsThread i
  union : x.newEndpoints ∪ x.endpointData.keys = x.endpoints
  disjoint : Disjoint x.newEndpoints x.endpointData.keys

/-- A thread represents its endpoints unless it is one the disconnect has still to clear. -/
theorem Sections.representsThread {x : CoreloopNetworkPlugin threads endpoint buffer}
    (h : Sections x) {i : Fin threads} (hclear : ∀ e, ¬ x.stage.Clearing i e) :
    x.RepresentsThread i where
  keys := by
    ext e
    rw [Finmap.mem_keys, h.mem_iff]
  registered := by
    intro e he
    exact (h.registered he).resolve_right (hclear e)

end CoreloopNetworkPlugin

open CoreloopNetworkPlugin

variable {x : Config (CoreloopNetworkPlugin threads endpoint buffer)
  (PluginEvent threads endpoint buffer)}

/-- Outside the disconnect loop no endpoint has progress, and the table has two rows left. -/
theorem Registry.row (h : Registry x) (hunlocked : x.state.disconnectLocked = false) (e : endpoint) :
    (e ∈ x.state.endpointData ∧ e ∈ x.state.endpoints ∧ e ∉ x.state.newEndpoints) ∨
      (e ∉ x.state.endpointData ∧ (e ∈ x.state.endpoints ↔ e ∈ x.state.newEndpoints)) := by
  have hprogress : x.state.stage.progress e = none := by
    unfold disconnectLocked at hunlocked
    cases hstage : x.state.stage with
    | disconnecting => simp [hstage] at hunlocked
    | _ => rfl
  have hstatus := h.status e
  rw [HasStatus, hprogress] at hstatus
  rcases hstatus with ⟨hdata, hreg, hnew, -⟩ | ⟨hdata, hiff, -, -⟩
  · exact Or.inl ⟨hdata, hreg, hnew⟩
  · exact Or.inr ⟨hdata, hiff⟩

theorem Registry.represents (h : Registry x) (hunlocked : x.state.disconnectLocked = false) :
    x.state.Represents where
  thread := by
    intro i
    apply h.sections.representsThread
    intro e hclearing
    unfold disconnectLocked at hunlocked
    cases hstage : x.state.stage with
    | disconnecting => simp [hstage] at hunlocked
    | _ =>
        rw [hstage] at hclearing
        exact hclearing
  union := by
    ext e
    rw [Finset.mem_union, Finmap.mem_keys]
    rcases h.row hunlocked e with ⟨hdata, hreg, -⟩ | ⟨hdata, hiff⟩
    · exact iff_of_true (Or.inr hdata) hreg
    · rw [hiff]
      exact or_iff_left hdata
  disjoint := by
    rw [Finset.disjoint_left]
    intro e hnew hdata
    rcases h.row hunlocked e with ⟨-, -, hnot⟩ | ⟨hnot, -⟩
    · exact hnot hnew
    · exact hnot (Finmap.mem_keys.mp hdata)

/-- **The representation holds in every run** with one disconnect for each session: as a whole outside
the disconnect loop, and inside it for the threads whose mutex the loop has given back. No step the
plugin can take fails an assertion. -/
theorem representation_of_run
    {visited : List (Config (CoreloopNetworkPlugin threads endpoint buffer)
      (PluginEvent threads endpoint buffer) × PluginAction threads endpoint buffer)}
    (hrun : Run CoreloopNetworkPlugin.step CoreloopNetworkPlugin.start visited x)
    (honce : Throughout OncePerSession visited) :
    (x.state.disconnectLocked = false → x.state.Represents) ∧
      (∀ j e rest, x.state.stage = .disconnecting (.unlock j) e rest →
        ∀ i : Fin threads, (i : Nat) < j → x.state.RepresentsThread i) ∧
      (∀ a y evs, CoreloopNetworkPlugin.step x.state a = some (y, evs) →
        y.stage.isAborted = false) := by
  have h := Registry.of_run hrun honce
  refine ⟨h.represents, ?_, ?_⟩
  · intro j e rest hstage i hreleased
    apply h.sections.representsThread
    intro e' hclearing
    rw [hstage] at hclearing
    exact Nat.not_lt.mpr hclearing.2 hreleased
  · intro a y evs hstep
    have hrunning := h.running_step (acts_of_step h.sections.toLocals hstep)
    cases hstage : y.stage with
    | aborted => exact absurd hstage hrunning
    | _ => rfl

/-- Two threads: the disconnect has given the first mutex back, and the endpoint is registered again by a
packet on that thread, before the second one is cleared. -/
theorem representation_of_run_half_released :
    ∃ (visited : List (Config (CoreloopNetworkPlugin 2 Nat Nat) (PluginEvent 2 Nat Nat) ×
        PluginAction 2 Nat Nat))
      (x : Config (CoreloopNetworkPlugin 2 Nat Nat) (PluginEvent 2 Nat Nat)),
      Run CoreloopNetworkPlugin.step CoreloopNetworkPlugin.start visited x ∧
        x.state.stage = .disconnecting (.unlock 1) 7 [] ∧ x.state.localEndpoints 0 = {7} ∧
        x.state.RepresentsThread 0 := by
  let packet (b : Nat) : List (PluginAction 2 Nat Nat) :=
    [.handleNetworkPacket 0 7 b, .lockLocal 0, .registerShared 0, .storeLocal 0]
  let actions : List (PluginAction 2 Nat Nat) :=
    packet 100 ++ [.newClients [7]] ++ List.replicate 3 .tick ++ [.clientInputs 7, .disconnect 7] ++
      List.replicate 9 .tick ++ packet 101
  obtain ⟨x, hx⟩ := Option.isSome_iff_exists.mp (show (exec CoreloopNetworkPlugin.step
    CoreloopNetworkPlugin.start actions).isSome = true by decide)
  have hrun := run_trace hx
  have hlocal : (some x).map (fun x => x.state.localEndpoints 0) = some {7} := by
    rw [← hx]
    decide
  have hstage : (some x).map (fun x => x.state.stage) = some (.disconnecting (.unlock 1) 7 []) := by
    rw [← hx]
    rfl
  have hstage := Option.some.inj hstage
  exact ⟨_, x, hrun, hstage, Option.some.inj hlocal,
    (representation_of_run hrun (by decide)).2.1 1 7 [] hstage 0 Nat.one_pos⟩

end Sekkeizu
