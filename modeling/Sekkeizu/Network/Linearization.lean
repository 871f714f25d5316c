/-
# Sekkeizu.Network.Linearization — where the sections of the plugin take effect.

`PluginLocks` goes from one `lock` or `unlock` to the next, `CoreloopNetworkPlugin` from one section to the
next. `Refines` relates the two: how much of a section has taken effect for the second follows from where
its party stands in the first.

* A packet task takes its local mutex, registers and stores at the units of the same name.
* The new clients take effect at the `unlock` after the loop; so do the inputs of a thread.
* A `client_inputs` task takes effect when the callback has returned and the vector is cleared.
* A disconnect takes effect unit by unit; of the last one, `on_disconnected` together with the `unlock`.
* `disconnect` takes effect with its `push_back`.

So the second is behind with the callbacks of a section that is not finished, and with nothing else.
-/
import Sekkeizu.Network.Holding
import Sekkeizu.Network.Sections
import Sekkeizu.Semantics.Accounts
import Sekkeizu.Semantics.Simulations


namespace Sekkeizu

open PartialSystem Mutexes

variable {threads : Nat} {endpoint buffer : Type*} [DecidableEq endpoint]

/-! ## What an observer sees -/

/-- What is asked of the plugin, and what the plugin calls. -/
inductive Side where
  | requests
  | callbacks
  deriving DecidableEq, Repr

/-- What an observer sees who does not know the threads of the buffers a client gets. -/
inductive Observation (threads : Nat) (endpoint buffer : Type*) where
  | submitted (uniqueId : Fin threads) (e : endpoint) (b : buffer)
  | registered (e : endpoint)
  | received (uniqueId : Fin threads) (e : endpoint) (b : buffer)
  | disconnect (e : endpoint)
  | newClient (e : endpoint)
  | clientInputs (e : endpoint) (data : List buffer)
  | postNetworkTick
  | onDisconnected (e : endpoint)

def Observation.side : Observation threads endpoint buffer → Side
  | .submitted .. | .registered _ | .received .. | .disconnect _ => .requests
  | .newClient _ | .clientInputs .. | .postNetworkTick | .onDisconnected _ => .callbacks

def PluginEvent.observation : PluginEvent threads endpoint buffer →
    Option (Observation threads endpoint buffer)
  | .submitted i e b => some (.submitted i e b)
  | .registered e => some (.registered e)
  | .received i e b => some (.received i e b)
  | .newClient e => some (.newClient e)
  | .clientInputs e data => some (.clientInputs e (data.map Prod.snd))
  | .postNetworkTick => some .postNetworkTick
  | .disconnect e => some (.disconnect e)
  | .released .. => none
  | .onDisconnected e => some (.onDisconnected e)

/-- A call of `disconnect` shows when it pushes. -/
def callShows : Option (DisconnectCall endpoint) → List (Observation threads endpoint buffer)
  | some (.push e) => [.disconnect e]
  | _ => []

namespace PluginLocks

def packetShows (x : PluginLocks threads endpoint buffer) (t : PacketTask threads endpoint buffer) :
    List (Observation threads endpoint buffer) :=
  match t.point with
  | .registerShared => if t.e ∈ x.endpoints then [] else [.registered t.e]
  | .store _ => [.received t.uniqueId t.e t.b]
  | _ => []

/-- `client_inputs` shows when it returns, with the vector it was given. -/
def inputShows (x : PluginLocks threads endpoint buffer) (choice : Choice endpoint)
    (t : InputTask endpoint) : List (Observation threads endpoint buffer) :=
  match t, choice with
  | .clientInputs e none, .goesOn => [.clientInputs e ((x.endpointData.lookup e).getD [])]
  | .clientInputs _ call, _ => callShows call
  | .done, _ => []

/-- `new_client` shows when it is called, `post_network_tick` when it returns. -/
def tickShows (point : TickPoint threads endpoint) (choice : Choice endpoint) :
    List (Observation threads endpoint buffer) :=
  match point, choice with
  | .newClients _, .picks e => [.newClient e]
  | .newClient _ call, _ => callShows call
  | .postNetworkTick none, .goesOn => [.postNetworkTick]
  | .postNetworkTick call, _ => callShows call
  | .onDisconnected e _, _ => [.onDisconnected e]
  | _, _ => []

/-- What the next unit of a party shows. -/
def partyShows (x : PluginLocks threads endpoint buffer) (p : Party) (choice : Choice endpoint) :
    List (Observation threads endpoint buffer) :=
  match p with
  | .tick => tickShows x.tick choice
  | .packet n => (x.packets[n]?).elim [] x.packetShows
  | .caller n => (x.callers[n]?).elim [] callShows
  | .input n => (x.inputs[n]?).elim [] (x.inputShows choice)

/-- What a step shows. -/
def shows (x : PluginLocks threads endpoint buffer) (action : LocksAction threads endpoint buffer) :
    List (Observation threads endpoint buffer) :=
  match action with
  | .handleNetworkPacket i e b => [.submitted i e b]
  | .party p choice => x.partyShows p choice
  | .disconnect _ | .tick => []

end PluginLocks

/-! ## What has taken effect -/

/-- The local mutex for the sections, when this task has it. -/
def PacketTask.localMutex (t : PacketTask threads endpoint buffer) : LocalMutex endpoint buffer :=
  match t.point with
  | .lockShared | .registerShared => .packet t.e t.b .register
  | .store fresh => .packet t.e t.b (.store fresh)
  | .lockLocal | .done => .free

/-- The job of a task that has not started. -/
def PacketTask.waiting (t : PacketTask threads endpoint buffer) : Option (Fin threads × endpoint × buffer) :=
  match t.point with
  | .lockLocal => some (t.uniqueId, t.e, t.b)
  | _ => none

/-- The client of a task that has not ended. -/
def InputTask.client : InputTask endpoint → Multiset endpoint
  | .clientInputs e _ => {e}
  | .done => 0

/-- A local mutex for the sections, when `tick` has it: the collection is one section. -/
def TickPoint.localMutex : TickPoint threads endpoint → LocalMutex endpoint buffer
  | .collect _ => .free
  | _ => .tick

/-- The stage of `tick`, outside the sections that have not taken effect and the wait for the inputs. -/
def TickPoint.stage : TickPoint threads endpoint → Option (TickStage endpoint)
  | .idle | .testNew | .lockNew => some .idle
  | .newClients _ | .newClient .. => none
  | .accumulate idx => some (.accumulate idx)
  | .lockLocal idx | .collect idx => some (.accumulate idx)
  | .execute _ | .wait => none
  | .postNetworkTick _ => some .post
  | .testDisconnects | .lockDisconnects => some .disconnects
  | .disconnects [] => none
  | .disconnects (e :: rest) => some (.disconnecting .eraseData e rest)
  | .lockAll i e rest => some (.disconnecting (.lock i) e rest)
  | .lockShared e rest | .eraseShared e rest => some (.disconnecting .eraseShared e rest)
  | .unlockAll i e rest => some (.disconnecting (.unlock i) e rest)
  | .onDisconnected e rest => some (.disconnecting .callback e rest)

/-- `_endpoint_data` as the source has it. -/
def withoutThreads (data : Finmap fun _ : endpoint => List (Fin threads × buffer)) :
    Finmap fun _ : endpoint => List buffer :=
  data.mapVals fun _ => List.map Prod.snd

namespace PluginLocks

/-- The local mutex of a thread for the sections. -/
def localMutexOf (x : PluginLocks threads endpoint buffer) (i : Fin threads) :
    LocalMutex endpoint buffer :=
  match x.owner (.localMutex i) with
  | some (.packet n) => (x.packets[n]?).elim .free PacketTask.localMutex
  | some .tick => x.tick.localMutex
  | _ => .free

/-- The tasks that have not started. -/
def waiting (x : PluginLocks threads endpoint buffer) : List (Fin threads × endpoint × buffer) :=
  x.packets.filterMap PacketTask.waiting

/-- The clients whose `client_inputs` has not ended. -/
def unfinished (x : PluginLocks threads endpoint buffer) : Multiset endpoint :=
  Account.total InputTask.client x.inputs

end PluginLocks

/-- **Where the two ticks stand**: the place, the new endpoints, the unfinished clients and the vectors of
the one; the stage and the vectors of the other; and what the other owes. -/
inductive Stands : TickPoint threads endpoint → Finset endpoint → Multiset endpoint →
    (Finmap fun _ : endpoint => List buffer) → TickStage endpoint →
    (Finmap fun _ : endpoint => List (Fin threads × buffer)) →
    List (Observation threads endpoint buffer) → Prop
  | between {point : TickPoint threads endpoint} {new : Finset endpoint} {stage : TickStage endpoint}
      {data : Finmap fun _ : endpoint => List (Fin threads × buffer)} (hstage : point.stage = some stage) :
      Stands point new 0 (withoutThreads data) stage data []
  /-- The clients before `todo` have been created. -/
  | clients {point : TickPoint threads endpoint} {new todo : Finset endpoint}
      {data : Finmap fun _ : endpoint => List (Fin threads × buffer)} (created : List endpoint)
      (hpoint : point = .newClients todo ∨ ∃ call, point = .newClient todo call)
      (hnodup : created.Nodup) (hnew : ∀ e, e ∈ new ↔ e ∈ created ∨ e ∈ todo)
      (hnot : ∀ e ∈ created, e ∉ todo) :
      Stands point new 0 (created.foldl (fun data e => data.emplace e []) (withoutThreads data)) .idle data
        (created.map .newClient)
  /-- The clients left have no task, or one that has not ended. -/
  | inputs {point : TickPoint threads endpoint} {new : Finset endpoint} {unfinished : Multiset endpoint}
      {data : Finmap fun _ : endpoint => List (Fin threads × buffer)} (todo left : Finset endpoint)
      (hpoint : point = .execute todo ∨ point = .wait ∧ todo = ∅)
      (hleft : left.val = todo.val + unfinished) (hkeys : left ⊆ data.keys) :
      Stands point new unfinished (withoutThreads data) (.inputs left) data []
  /-- Before the `unlock` after the loop over the disconnects. -/
  | answered {new : Finset endpoint} {data : Finmap fun _ : endpoint => List (Fin threads × buffer)}
      (e : endpoint) :
      Stands (.disconnects []) new 0 (withoutThreads data) (.disconnecting .callback e []) data
        [.onDisconnected e]

/-- **The sections have taken effect** as far as the parties have come, and these observations are owed. -/
structure Refines (owed : List (Observation threads endpoint buffer))
    (x : PluginLocks threads endpoint buffer) (s : CoreloopNetworkPlugin threads endpoint buffer) :
    Prop where
  running : x.aborted = false
  localMutex : s.localMutex = x.localMutexOf
  localEndpoints : s.localEndpoints = x.localEndpoints
  pendingInputs : s.pendingInputs = x.pendingInputs
  newEndpoints : s.newEndpoints = x.newEndpoints
  endpoints : s.endpoints = x.endpoints
  pendingDisconnects : s.pendingDisconnects = x.pendingDisconnects
  packets : s.packets = x.waiting
  counter : x.inputsCounter = x.unfinished.card
  /-- What `tick` found before it locked is still so. -/
  tested : ∀ idx, x.tick = .lockLocal idx ∨ x.tick = .collect idx → (x.pendingInputs idx).keys ≠ ∅
  requested : x.tick = .lockDisconnects → x.pendingDisconnects ≠ []
  stands : Stands x.tick x.newEndpoints x.unfinished x.endpointData s.stage s.endpointData owed

/-- `Refines`, or both have failed an assertion. -/
def RefinesOrAborted (owed : List (Observation threads endpoint buffer))
    (x : PluginLocks threads endpoint buffer) (s : CoreloopNetworkPlugin threads endpoint buffer) : Prop :=
  Refines owed x s ∨ x.aborted = true ∧ s.stage = .aborted ∧ owed = []

end Sekkeizu
