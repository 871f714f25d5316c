/-
# Sekkeizu.Network.Plugin — packets, ticks and disconnects of `coreloop_network_plugin`.

A received packet is handled by a task of the core pool, which stores the buffer in the map of the
network thread it came from; `tick` collects these maps into one vector for each client, hands the
vectors to the clients and processes the disconnects requested meanwhile. The three parties meet under
`_local_mutex[i]`, `_shared_mutex` and `_disconnect_mutex`.

The unit of interleaving is one section under a mutex, or less where a mutex is held across sections:

* A packet task takes `_local_mutex[i]` (`lockLocal`), registers an endpoint it does not know under
  `_shared_mutex` (`registerShared`), and stores the buffer and unlocks (`storeLocal`).
* `tick` is a program counter (`TickStage`). The new clients are one section, so is the collection of
  one thread's map, and so is every `client_inputs` task; a disconnect takes the local mutexes one
  after the other, erases the endpoint, and gives them back one after the other.
* `_shared_mutex` is never held from one unit to the next, and `_disconnect_mutex` is held exactly
  while `tick` is inside the disconnect loop, so neither needs a variable.

Modelling choices:

* The tests for empty containers that `tick` makes outside the mutexes read the container at one moment.
* `_endpoint_data` remembers of each buffer the thread it came from. The source does not; nothing the
  plugin does depends on it.
* A failed `assert` ends the run (`aborted`).
* The loop over a map whose body touches nothing but its own entry is a map of the entries; the loop
  over `_new_endpoints` goes in an order the hash table picks.
* `release_network_endpoint` gives back the packet's copy of the endpoint, which no container holds;
  it is left out.
-/
import Sekkeizu.Semantics.Runs
import Sekkeizu.Semantics.Lists
import Sekkeizu.Semantics.Tables

namespace Sekkeizu

open PartialSystem

/-- Where a packet task that holds its local mutex stands: before the section that registers an
endpoint the thread does not know, or before storing the buffer, `fresh` after such a section. -/
inductive PacketStage where
  | register
  | store (fresh : Bool)
  deriving DecidableEq, Repr

/-- Who holds `_local_mutex[i]`. -/
inductive LocalMutex (endpoint buffer : Type*) where
  | free
  | tick
  | packet (e : endpoint) (b : buffer) (stage : PacketStage)

def LocalMutex.isFree {endpoint buffer : Type*} : LocalMutex endpoint buffer → Bool
  | .free => true
  | _ => false

/-- Where the processing of one disconnect stands. -/
inductive DisconnectStage where
  /-- Before `_endpoint_data.erase(endpoint)`. -/
  | eraseData
  /-- Before `_local_mutex[i].lock()`. -/
  | lock (i : Nat)
  /-- Before the section under `_shared_mutex`. -/
  | eraseShared
  /-- Before thread `i` is cleared and `_local_mutex[i].unlock()`. -/
  | unlock (i : Nat)
  /-- Before `on_disconnected`. -/
  | callback
  deriving DecidableEq, Repr

/-- Where `tick` stands. -/
inductive TickStage (endpoint : Type*) where
  | idle
  /-- Before collecting the inputs of thread `idx`. -/
  | accumulate (idx : Nat)
  /-- Waiting for the `client_inputs` tasks of these endpoints. -/
  | inputs (todo : Finset endpoint)
  /-- Before `post_network_tick`. -/
  | post
  /-- Before the test of `_pending_disconnects`. -/
  | disconnects
  /-- In the disconnect loop, at this endpoint, with those after it still to come. -/
  | disconnecting (stage : DisconnectStage) (e : endpoint) (rest : List endpoint)
  | aborted

/-- `coreloop_network_plugin`, with the packet tasks the core pool has not started. -/
structure CoreloopNetworkPlugin (threads : Nat) (endpoint buffer : Type*) where
  localMutex : Fin threads → LocalMutex endpoint buffer
  localEndpoints : Fin threads → Finset endpoint
  pendingInputs : Fin threads → Finmap fun _ : endpoint => List buffer
  newEndpoints : Finset endpoint
  endpoints : Finset endpoint
  endpointData : Finmap fun _ : endpoint => List (Fin threads × buffer)
  pendingDisconnects : List endpoint
  stage : TickStage endpoint
  packets : List (Fin threads × endpoint × buffer)

/-- What the parties do, one unit at a time. -/
inductive PluginAction (threads : Nat) (endpoint buffer : Type*) where
  /-- `handle_network_packet` submits a task. -/
  | handleNetworkPacket (uniqueId : Fin threads) (e : endpoint) (b : buffer)
  /-- The pool starts the task at this position. -/
  | lockLocal (position : Nat)
  /-- The task on this thread registers its endpoint. -/
  | registerShared (uniqueId : Fin threads)
  /-- The task on this thread stores its buffer and ends. -/
  | storeLocal (uniqueId : Fin threads)
  | disconnect (e : endpoint)
  /-- `tick` starts, and creates the new clients in this order. -/
  | newClients (order : List endpoint)
  /-- One `client_inputs` task runs. -/
  | clientInputs (e : endpoint)
  /-- `tick` goes on, anywhere else. -/
  | tick

/-- What an observer sees. -/
inductive PluginEvent (threads : Nat) (endpoint buffer : Type*) where
  | submitted (uniqueId : Fin threads) (e : endpoint) (b : buffer)
  /-- A packet task inserted the endpoint into `_endpoints`. -/
  | registered (e : endpoint)
  /-- A packet task stored its buffer. -/
  | received (uniqueId : Fin threads) (e : endpoint) (b : buffer)
  | newClient (e : endpoint)
  | clientInputs (e : endpoint) (data : List (Fin threads × buffer))
  | postNetworkTick
  /-- `disconnect` was called. -/
  | disconnect (e : endpoint)
  /-- The disconnect of the endpoint released `_local_mutex[uniqueId]`. -/
  | released (uniqueId : Fin threads) (e : endpoint)
  | onDisconnected (e : endpoint)

variable {threads : Nat} {endpoint buffer : Type*} [DecidableEq endpoint]

namespace CoreloopNetworkPlugin

/-- The constructor. -/
def new : CoreloopNetworkPlugin threads endpoint buffer where
  localMutex _ := .free
  localEndpoints _ := ∅
  pendingInputs _ := ∅
  newEndpoints := ∅
  endpoints := ∅
  endpointData := ∅
  pendingDisconnects := []
  stage := .idle
  packets := []

/-- The vector `_pending_inputs[i][e]`; empty when there is none. -/
def pendingOf (x : CoreloopNetworkPlugin threads endpoint buffer) (i : Fin threads) (e : endpoint) :
    List buffer :=
  ((x.pendingInputs i).lookup e).getD []

/-! ## The packet task -/

/-- The task at this position takes its local mutex and looks its endpoint up. -/
def lockLocal (position : Nat) (x : CoreloopNetworkPlugin threads endpoint buffer) :
    Option (CoreloopNetworkPlugin threads endpoint buffer ×
      List (PluginEvent threads endpoint buffer)) :=
  match x.packets[position]? with
  | none => none
  | some (i, e, b) =>
    if (x.localMutex i).isFree then
      -- `local_endpoints.find(*endpoint)`
      let stage := if e ∈ x.localEndpoints i then .store false else .register
      some ({ x with
        localMutex := Function.update x.localMutex i (.packet e b stage)
        packets := x.packets.eraseIdx position }, [])
    else none

/-- The section under `_shared_mutex`. -/
def registerShared (i : Fin threads) (x : CoreloopNetworkPlugin threads endpoint buffer) :
    Option (CoreloopNetworkPlugin threads endpoint buffer ×
      List (PluginEvent threads endpoint buffer)) :=
  match x.localMutex i with
  | .packet e b .register =>
    let x' := { x with localMutex := Function.update x.localMutex i (.packet e b (.store true)) }
    if e ∈ x.endpoints then some (x', [])
    else some ({ x' with
      endpoints := insert e x.endpoints
      newEndpoints := insert e x.newEndpoints }, [.registered e])
  | _ => none

/-- The rest of the task: with `fresh`, the endpoint is added to the maps of the thread; then the buffer
is appended, if the endpoint is there as asserted. -/
def storeLocal (i : Fin threads) (x : CoreloopNetworkPlugin threads endpoint buffer) :
    Option (CoreloopNetworkPlugin threads endpoint buffer ×
      List (PluginEvent threads endpoint buffer)) :=
  match x.localMutex i with
  | .packet e b (.store fresh) =>
    let known := if fresh then insert e (x.localEndpoints i) else x.localEndpoints i
    let pending := if fresh then (x.pendingInputs i).emplace e [] else x.pendingInputs i
    match pending.lookup e with
    -- "Client should be already added during local map"
    | none => some ({ x with stage := .aborted }, [])
    | some buffers =>
      some ({ x with
        localMutex := Function.update x.localMutex i .free
        localEndpoints := Function.update x.localEndpoints i known
        pendingInputs := Function.update x.pendingInputs i (pending.insert e (buffers ++ [b])) },
        [.received i e b])
  | _ => none

/-! ## `tick` -/

/-- The first section: every new endpoint gets its vector and the callback. -/
def newClients (order : List endpoint) (x : CoreloopNetworkPlugin threads endpoint buffer) :
    Option (CoreloopNetworkPlugin threads endpoint buffer ×
      List (PluginEvent threads endpoint buffer)) :=
  match x.stage with
  | .idle =>
    if order.Nodup ∧ order.toFinset = x.newEndpoints then
      some ({ x with
        endpointData := order.foldl (fun data e => data.emplace e []) x.endpointData
        newEndpoints := ∅
        stage := .accumulate 0 }, order.map .newClient)
    else none
  | _ => none

/-- The section under `_local_mutex[idx]`: what is pending for a client moves to the client's vector,
what is pending for an endpoint without one stays. -/
def collect (idx : Fin threads) (x : CoreloopNetworkPlugin threads endpoint buffer) :
    CoreloopNetworkPlugin threads endpoint buffer :=
  -- both maps are read as they are before the section: no entry's body touches another's
  { x with
    endpointData := x.endpointData.mapVals fun e data =>
      data ++ (x.pendingOf idx e).map fun b => (idx, b)
    pendingInputs := Function.update x.pendingInputs idx
      ((x.pendingInputs idx).mapVals fun e buffers => if e ∈ x.endpointData then [] else buffers) }

/-- One `client_inputs` task: the client gets its vector, which is then cleared. -/
def clientInputs (e : endpoint) (x : CoreloopNetworkPlugin threads endpoint buffer) :
    Option (CoreloopNetworkPlugin threads endpoint buffer ×
      List (PluginEvent threads endpoint buffer)) :=
  match x.stage with
  | .inputs todo =>
    if e ∈ todo then
      match x.endpointData.lookup e with
      | none => none
      | some data =>
        -- `buffers.clear()` after the callback
        some ({ x with
          endpointData := x.endpointData.insert e []
          stage := .inputs (todo.erase e) }, [.clientInputs e data])
    else none
  | _ => none

/-- The next unit of a disconnect. -/
def disconnectStep (stage : DisconnectStage) (e : endpoint) (rest : List endpoint)
    (x : CoreloopNetworkPlugin threads endpoint buffer) :
    Option (CoreloopNetworkPlugin threads endpoint buffer ×
      List (PluginEvent threads endpoint buffer)) :=
  match stage with
  | .eraseData =>
    some ({ x with
      endpointData := x.endpointData.erase e
      stage := .disconnecting (.lock 0) e rest }, [])
  | .lock i =>
    if h : i < threads then
      if (x.localMutex ⟨i, h⟩).isFree then
        some ({ x with
          localMutex := Function.update x.localMutex ⟨i, h⟩ .tick
          stage := .disconnecting (.lock (i + 1)) e rest }, [])
      else none
    else some ({ x with stage := .disconnecting .eraseShared e rest }, [])
  | .eraseShared =>
    -- `assert(it != _endpoints.end())`
    if e ∈ x.endpoints then
      some ({ x with
        endpoints := x.endpoints.erase e
        stage := .disconnecting (.unlock 0) e rest }, [])
    else some ({ x with stage := .aborted }, [])
  | .unlock i =>
    if h : i < threads then
      -- the maps are cleared only where the thread knows the endpoint; the mutex is unlocked anyway
      let x' :=
        if e ∈ x.localEndpoints ⟨i, h⟩ then { x with
          localEndpoints := Function.update x.localEndpoints ⟨i, h⟩ ((x.localEndpoints ⟨i, h⟩).erase e)
          pendingInputs := Function.update x.pendingInputs ⟨i, h⟩ ((x.pendingInputs ⟨i, h⟩).erase e) }
        else x
      some ({ x' with
        localMutex := Function.update x.localMutex ⟨i, h⟩ .free
        stage := .disconnecting (.unlock (i + 1)) e rest }, [.released ⟨i, h⟩ e])
    else some ({ x with stage := .disconnecting .callback e rest }, [])
  | .callback =>
    match rest with
    | [] => some ({ x with pendingDisconnects := [], stage := .idle }, [.onDisconnected e])
    | e' :: rest' =>
      some ({ x with stage := .disconnecting .eraseData e' rest' }, [.onDisconnected e])

/-- `tick` where its next unit is determined. -/
def tick (x : CoreloopNetworkPlugin threads endpoint buffer) :
    Option (CoreloopNetworkPlugin threads endpoint buffer ×
      List (PluginEvent threads endpoint buffer)) :=
  match x.stage with
  | .accumulate idx =>
    if h : idx < threads then
      -- the test is made without the mutex
      if (x.pendingInputs ⟨idx, h⟩).keys = ∅ then
        some ({ x with stage := .accumulate (idx + 1) }, [])
      else if (x.localMutex ⟨idx, h⟩).isFree then
        some ({ x.collect ⟨idx, h⟩ with stage := .accumulate (idx + 1) }, [])
      else none
    else some ({ x with stage := .inputs x.endpointData.keys }, [])
  | .inputs todo => if todo = ∅ then some ({ x with stage := .post }, []) else none
  | .post => some ({ x with stage := .disconnects }, [.postNetworkTick])
  | .disconnects =>
    match x.pendingDisconnects with
    | [] => some ({ x with stage := .idle }, [])
    | e :: rest => some ({ x with stage := .disconnecting .eraseData e rest }, [])
  | .disconnecting stage e rest => x.disconnectStep stage e rest
  | _ => none

/-! ## One step -/

/-- `_disconnect_mutex` is held. -/
def disconnectLocked (x : CoreloopNetworkPlugin threads endpoint buffer) : Bool :=
  match x.stage with
  | .disconnecting .. => true
  | _ => false

/-- One unit of one party. Nothing happens after a failed `assert`. -/
def step : Step (CoreloopNetworkPlugin threads endpoint buffer)
    (PluginAction threads endpoint buffer) (PluginEvent threads endpoint buffer) := fun x action =>
  match x.stage with
  | .aborted => none
  | _ =>
    match action with
    | .handleNetworkPacket i e b =>
      some ({ x with packets := x.packets ++ [(i, e, b)] }, [.submitted i e b])
    | .lockLocal position => x.lockLocal position
    | .registerShared i => x.registerShared i
    | .storeLocal i => x.storeLocal i
    | .disconnect e =>
      -- the caller waits for `_disconnect_mutex`
      if x.disconnectLocked then none
      else some ({ x with pendingDisconnects := x.pendingDisconnects ++ [e] }, [.disconnect e])
    | .newClients order => x.newClients order
    | .clientInputs e => x.clientInputs e
    | .tick => x.tick

/-- The plugin before its first packet. -/
def start : Config (CoreloopNetworkPlugin threads endpoint buffer)
    (PluginEvent threads endpoint buffer) where
  state := new
  history := []

end CoreloopNetworkPlugin

end Sekkeizu
