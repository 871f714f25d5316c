/-
# Sekkeizu.Network.Locks — `coreloop_network_plugin`, one `lock` or `unlock` at a time.

`Sekkeizu.Network.Plugin` takes a section under a mutex as one unit. Here every mutex has an owner, and a
party that stands before a locked mutex waits: the packet tasks of the core pool, the fibers that call
`disconnect`, the `client_inputs` tasks, and the one fiber that ticks.

A unit goes from one `lock`, `unlock`, `wait` or callback to the next. The callbacks `new_client`,
`client_inputs` and `post_network_tick` may call `disconnect` as often as they like and with any endpoint
before they return; `on_disconnected` takes no lock.

Modelling choices:

* A fiber that calls `disconnect` is gone when the call returns, as is a task when it ends. The lists of
  the parties only grow, and a party goes by its position.
* A mutex is not reentrant: its owner too waits for it.
* The `unique_id` of a packet is below `max_concurrent_threads`, as asserted.
* Any endpoint that is left may be the next one in a loop over a hash table.
* The tests for empty containers that `tick` makes outside the mutexes read the container at one moment.
* A failed `assert` ends the process (`aborted`).
* `_inputs_counter` counts the tasks that were submitted with it and have not ended.
-/
import Sekkeizu.Semantics.Runs
import Sekkeizu.Semantics.Tables

namespace Sekkeizu

open PartialSystem

/-! ## Parties -/

/-- The mutexes of the plugin. -/
inductive PluginMutex (threads : Nat) where
  | localMutex (i : Fin threads)
  | sharedMutex
  | disconnectMutex
  deriving DecidableEq, Repr

/-- Who may hold a mutex. -/
inductive Party where
  | tick
  | packet (n : Nat)
  | caller (n : Nat)
  | input (n : Nat)
  deriving DecidableEq, Repr

/-- Where a call of `disconnect` stands. -/
inductive DisconnectCall (endpoint : Type*) where
  /-- Before `_disconnect_mutex.lock()`. -/
  | lock (e : endpoint)
  /-- Before `push_back` and `_disconnect_mutex.unlock()`. -/
  | push (e : endpoint)

/-- Where a packet task stands. -/
inductive PacketPoint where
  /-- Before `_local_mutex[unique_id].lock()`. -/
  | lockLocal
  /-- Before `_shared_mutex.lock()`. -/
  | lockShared
  /-- Before `_shared_mutex.unlock()` and what it protects. -/
  | registerShared
  /-- Before the buffer is stored and `_local_mutex[unique_id].unlock()`; `fresh` after a registration. -/
  | store (fresh : Bool)
  | done
  deriving DecidableEq, Repr

structure PacketTask (threads : Nat) (endpoint buffer : Type*) where
  uniqueId : Fin threads
  e : endpoint
  b : buffer
  point : PacketPoint

/-- A `client_inputs` task: in the callback for this endpoint, with the `disconnect` it is calling if any,
or done. -/
inductive InputTask (endpoint : Type*) where
  | clientInputs (e : endpoint) (call : Option (DisconnectCall endpoint))
  | done

def InputTask.isDone {endpoint : Type*} : InputTask endpoint → Bool
  | .done => true
  | _ => false

/-- Where `tick` stands. A `call` is the `disconnect` that the callback is calling. -/
inductive TickPoint (threads : Nat) (endpoint : Type*) where
  | idle
  /-- Before the test of `_new_endpoints`. -/
  | testNew
  | lockNew
  /-- In the loop over `_new_endpoints`, with these still to come. -/
  | newClients (todo : Finset endpoint)
  | newClient (todo : Finset endpoint) (call : Option (DisconnectCall endpoint))
  /-- Before the test of `_pending_inputs[idx]`. -/
  | accumulate (idx : Nat)
  | lockLocal (idx : Fin threads)
  /-- Before the inputs are moved and `_local_mutex[idx].unlock()`. -/
  | collect (idx : Fin threads)
  /-- In the loop over `_endpoint_data`, with these still to come. -/
  | execute (todo : Finset endpoint)
  /-- Before `_inputs_counter.wait()`. -/
  | wait
  | postNetworkTick (call : Option (DisconnectCall endpoint))
  /-- Before the test of `_pending_disconnects`. -/
  | testDisconnects
  | lockDisconnects
  /-- In the loop over `_pending_disconnects`, with these still to come. -/
  | disconnects (rest : List endpoint)
  /-- Before `_local_mutex[i].lock()`. -/
  | lockAll (i : Nat) (e : endpoint) (rest : List endpoint)
  | lockShared (e : endpoint) (rest : List endpoint)
  /-- Before the endpoint is erased and `_shared_mutex.unlock()`. -/
  | eraseShared (e : endpoint) (rest : List endpoint)
  /-- Before thread `i` is cleared and `_local_mutex[i].unlock()`. -/
  | unlockAll (i : Nat) (e : endpoint) (rest : List endpoint)
  | onDisconnected (e : endpoint) (rest : List endpoint)

/-- `coreloop_network_plugin` with the parties that use it. -/
structure PluginLocks (threads : Nat) (endpoint buffer : Type*) where
  owner : PluginMutex threads → Option Party
  localEndpoints : Fin threads → Finset endpoint
  pendingInputs : Fin threads → Finmap fun _ : endpoint => List buffer
  newEndpoints : Finset endpoint
  endpoints : Finset endpoint
  endpointData : Finmap fun _ : endpoint => List buffer
  inputsCounter : Nat
  pendingDisconnects : List endpoint
  tick : TickPoint threads endpoint
  packets : List (PacketTask threads endpoint buffer)
  /-- The `disconnect` a fiber is calling; `none` when it has returned. -/
  callers : List (Option (DisconnectCall endpoint))
  inputs : List (InputTask endpoint)
  aborted : Bool

/-- What a party decides where the code leaves it open. -/
inductive Choice (endpoint : Type*) where
  /-- Nothing; in a callback, to return. -/
  | goesOn
  /-- A loop over a hash table comes to this endpoint. -/
  | picks (e : endpoint)
  /-- A callback calls `disconnect`. -/
  | disconnects (e : endpoint)

inductive LocksAction (threads : Nat) (endpoint buffer : Type*) where
  /-- `handle_network_packet` submits a task. -/
  | handleNetworkPacket (i : Fin threads) (e : endpoint) (b : buffer)
  /-- A fiber calls `disconnect`. -/
  | disconnect (e : endpoint)
  /-- `tick` is called. -/
  | tick
  /-- A party goes on. -/
  | party (p : Party) (choice : Choice endpoint)

namespace PluginLocks

variable {threads : Nat} {endpoint buffer : Type*} [DecidableEq endpoint]

/-- The constructor. -/
def new : PluginLocks threads endpoint buffer where
  owner _ := none
  localEndpoints _ := ∅
  pendingInputs _ := ∅
  newEndpoints := ∅
  endpoints := ∅
  endpointData := ∅
  inputsCounter := 0
  pendingDisconnects := []
  tick := .idle
  packets := []
  callers := []
  inputs := []
  aborted := false

/-! ## `np::mutex` -/

def lock (p : Party) (m : PluginMutex threads) (x : PluginLocks threads endpoint buffer) :
    Option (PluginLocks threads endpoint buffer) :=
  match x.owner m with
  | none => some { x with owner := Function.update x.owner m (some p) }
  | some _ => none

def unlock (m : PluginMutex threads) (x : PluginLocks threads endpoint buffer) :
    PluginLocks threads endpoint buffer :=
  { x with owner := Function.update x.owner m none }

/-! ## `disconnect` -/

/-- The next unit of a call of `disconnect` by this party, with where the call then stands. -/
def disconnectStep (p : Party) (call : DisconnectCall endpoint)
    (x : PluginLocks threads endpoint buffer) :
    Option (Option (DisconnectCall endpoint) × PluginLocks threads endpoint buffer) :=
  match call with
  | .lock e => (x.lock p .disconnectMutex).map fun y => (some (.push e), y)
  | .push e =>
    some (none,
      { x.unlock .disconnectMutex with pendingDisconnects := x.pendingDisconnects ++ [e] })

/-- The next unit of a callback that has not returned, if it is in `disconnect` or calls it. -/
def callbackStep (p : Party) (call : Option (DisconnectCall endpoint)) (choice : Choice endpoint)
    (x : PluginLocks threads endpoint buffer) :
    Option (Option (DisconnectCall endpoint) × PluginLocks threads endpoint buffer) :=
  match call, choice with
  | some c, .goesOn => x.disconnectStep p c
  | none, .disconnects e => some (some (.lock e), x)
  | _, _ => none

def callerStep (n : Nat) (x : PluginLocks threads endpoint buffer) :
    Option (PluginLocks threads endpoint buffer) :=
  match x.callers[n]? with
  | some (some call) =>
    (x.disconnectStep (.caller n) call).map fun r => { r.2 with callers := x.callers.set n r.1 }
  | _ => none

/-! ## The packet task -/

def packetStep (n : Nat) (x : PluginLocks threads endpoint buffer) :
    Option (PluginLocks threads endpoint buffer) :=
  match x.packets[n]? with
  | none => none
  | some t =>
    let goes (point : PacketPoint) := x.packets.set n { t with point := point }
    match t.point with
    | .lockLocal =>
      -- `local_endpoints.find(*endpoint)`
      let next := if t.e ∈ x.localEndpoints t.uniqueId then .store false else .lockShared
      (x.lock (.packet n) (.localMutex t.uniqueId)).map fun y => { y with packets := goes next }
    | .lockShared => (x.lock (.packet n) .sharedMutex).map fun y => { y with packets := goes .registerShared }
    | .registerShared =>
      let y := { x.unlock .sharedMutex with packets := goes (.store true) }
      if t.e ∈ x.endpoints then some y
      else some { y with
        endpoints := insert t.e x.endpoints
        newEndpoints := insert t.e x.newEndpoints }
    | .store fresh =>
      let i := t.uniqueId
      let known := if fresh then insert t.e (x.localEndpoints i) else x.localEndpoints i
      let pending := if fresh then (x.pendingInputs i).emplace t.e [] else x.pendingInputs i
      match pending.lookup t.e with
      -- "Client should be already added during local map"
      | none => some { x with aborted := true }
      | some buffers =>
        some { x.unlock (.localMutex i) with
          localEndpoints := Function.update x.localEndpoints i known
          pendingInputs := Function.update x.pendingInputs i (pending.insert t.e (buffers ++ [t.b]))
          packets := goes .done }
    | .done => none

/-! ## The `client_inputs` task -/

def inputStep (n : Nat) (choice : Choice endpoint) (x : PluginLocks threads endpoint buffer) :
    Option (PluginLocks threads endpoint buffer) :=
  match x.inputs[n]?, choice with
  | some (.clientInputs e none), .goesOn =>
    -- `buffers.clear()`
    some { x with
      endpointData := x.endpointData.mapVals fun e' data => if e' = e then [] else data
      inputsCounter := x.inputsCounter - 1
      inputs := x.inputs.set n .done }
  | some (.clientInputs e call), choice =>
    (x.callbackStep (.input n) call choice).map fun r =>
      { r.2 with inputs := x.inputs.set n (.clientInputs e r.1) }
  | _, _ => none

/-! ## `tick` -/

/-- The vector `_pending_inputs[i][e]`; empty when there is none. -/
def pendingOf (x : PluginLocks threads endpoint buffer) (i : Fin threads) (e : endpoint) : List buffer :=
  ((x.pendingInputs i).lookup e).getD []

/-- What is pending for a client moves to the client's vector, what is pending for an endpoint without one
stays. -/
def moveInputs (idx : Fin threads) (x : PluginLocks threads endpoint buffer) :
    PluginLocks threads endpoint buffer :=
  -- both maps are read as they are before the section: no entry's body touches another's
  { x with
    endpointData := x.endpointData.mapVals fun e data => data ++ x.pendingOf idx e
    pendingInputs := Function.update x.pendingInputs idx
      ((x.pendingInputs idx).mapVals fun e buffers => if e ∈ x.endpointData then [] else buffers) }

/-- The maps of thread `i` without the endpoint, where the thread knows it. -/
def clearLocal (i : Fin threads) (e : endpoint) (x : PluginLocks threads endpoint buffer) :
    PluginLocks threads endpoint buffer :=
  if e ∈ x.localEndpoints i then { x with
    localEndpoints := Function.update x.localEndpoints i ((x.localEndpoints i).erase e)
    pendingInputs := Function.update x.pendingInputs i ((x.pendingInputs i).erase e) }
  else x

/-- The new clients. -/
def tickClients (point : TickPoint threads endpoint) (choice : Choice endpoint)
    (x : PluginLocks threads endpoint buffer) : Option (PluginLocks threads endpoint buffer) :=
  match point, choice with
  | .testNew, .goesOn =>
    some { x with tick := if x.newEndpoints = ∅ then .accumulate 0 else .lockNew }
  | .lockNew, .goesOn =>
    (x.lock .tick .sharedMutex).map fun y => { y with tick := .newClients x.newEndpoints }
  | .newClients todo, .picks e =>
    if e ∈ todo then
      some { x with
        endpointData := x.endpointData.emplace e []
        tick := .newClient (todo.erase e) none }
    else none
  | .newClients todo, .goesOn =>
    if todo = ∅ then some { x.unlock .sharedMutex with newEndpoints := ∅, tick := .accumulate 0 } else none
  | .newClient todo none, .goesOn => some { x with tick := .newClients todo }
  | .newClient todo call, choice =>
    (x.callbackStep .tick call choice).map fun r => { r.2 with tick := .newClient todo r.1 }
  | _, _ => none

/-- The pending inputs and the tasks that hand them out. -/
def tickInputs (point : TickPoint threads endpoint) (choice : Choice endpoint)
    (x : PluginLocks threads endpoint buffer) : Option (PluginLocks threads endpoint buffer) :=
  match point, choice with
  | .accumulate idx, .goesOn =>
    if h : idx < threads then
      -- the test is made without the mutex
      if (x.pendingInputs ⟨idx, h⟩).keys = ∅ then some { x with tick := .accumulate (idx + 1) }
      else some { x with tick := .lockLocal ⟨idx, h⟩ }
    else some { x with inputsCounter := 0, tick := .execute x.endpointData.keys }
  | .lockLocal idx, .goesOn =>
    (x.lock .tick (.localMutex idx)).map fun y => { y with tick := .collect idx }
  | .collect idx, .goesOn =>
    some { (x.moveInputs idx).unlock (.localMutex idx) with tick := .accumulate (idx + 1) }
  | .execute todo, .picks e =>
    if e ∈ todo then
      some { x with
        inputsCounter := x.inputsCounter + 1
        inputs := x.inputs ++ [.clientInputs e none]
        tick := .execute (todo.erase e) }
    else none
  | .execute todo, .goesOn => if todo = ∅ then some { x with tick := .wait } else none
  | .wait, .goesOn => if x.inputsCounter = 0 then some { x with tick := .postNetworkTick none } else none
  | .postNetworkTick none, .goesOn => some { x with tick := .testDisconnects }
  | .postNetworkTick call, choice =>
    (x.callbackStep .tick call choice).map fun r => { r.2 with tick := .postNetworkTick r.1 }
  | _, _ => none

/-- The pending disconnects. -/
def tickDisconnects (point : TickPoint threads endpoint) (x : PluginLocks threads endpoint buffer) :
    Option (PluginLocks threads endpoint buffer) :=
  match point with
  | .testDisconnects =>
    some { x with tick := if x.pendingDisconnects = [] then .idle else .lockDisconnects }
  | .lockDisconnects =>
    (x.lock .tick .disconnectMutex).map fun y => { y with tick := .disconnects x.pendingDisconnects }
  | .disconnects [] =>
    some { x.unlock .disconnectMutex with pendingDisconnects := [], tick := .idle }
  | .disconnects (e :: rest) =>
    some { x with endpointData := x.endpointData.erase e, tick := .lockAll 0 e rest }
  | .lockAll i e rest =>
    if h : i < threads then
      (x.lock .tick (.localMutex ⟨i, h⟩)).map fun y => { y with tick := .lockAll (i + 1) e rest }
    else some { x with tick := .lockShared e rest }
  | .lockShared e rest =>
    (x.lock .tick .sharedMutex).map fun y => { y with tick := .eraseShared e rest }
  | .eraseShared e rest =>
    -- `assert(it != _endpoints.end())`
    if e ∈ x.endpoints then
      some { x.unlock .sharedMutex with
        endpoints := x.endpoints.erase e
        tick := .unlockAll 0 e rest }
    else some { x with aborted := true }
  | .unlockAll i e rest =>
    if h : i < threads then
      some { (x.clearLocal ⟨i, h⟩ e).unlock (.localMutex ⟨i, h⟩) with tick := .unlockAll (i + 1) e rest }
    else some { x with tick := .onDisconnected e rest }
  | .onDisconnected _ rest => some { x with tick := .disconnects rest }
  | _ => none

def tickStep (choice : Choice endpoint) (x : PluginLocks threads endpoint buffer) :
    Option (PluginLocks threads endpoint buffer) :=
  match x.tick with
  | .idle => none
  | .testNew | .lockNew | .newClients _ | .newClient _ _ => x.tickClients x.tick choice
  | .accumulate _ | .lockLocal _ | .collect _ | .execute _ | .wait | .postNetworkTick _ =>
    x.tickInputs x.tick choice
  | _ =>
    match choice with
    | .goesOn => x.tickDisconnects x.tick
    | _ => none

/-! ## One step -/

/-- The next unit of a party. -/
def partyStep (p : Party) (choice : Choice endpoint) (x : PluginLocks threads endpoint buffer) :
    Option (PluginLocks threads endpoint buffer) :=
  match p, choice with
  | .tick, choice => x.tickStep choice
  | .input n, choice => x.inputStep n choice
  | .packet n, .goesOn => x.packetStep n
  | .caller n, .goesOn => x.callerStep n
  | _, _ => none

/-- One unit of one party, or a party more. -/
def step : Step (PluginLocks threads endpoint buffer) (LocksAction threads endpoint buffer) Empty :=
  fun x action =>
    if x.aborted then none
    else
      match action with
      | .handleNetworkPacket i e b =>
        some ({ x with packets := x.packets ++ [⟨i, e, b, .lockLocal⟩] }, [])
      | .disconnect e => some ({ x with callers := x.callers ++ [some (.lock e)] }, [])
      | .tick =>
        match x.tick with
        | .idle => some ({ x with tick := .testNew }, [])
        | _ => none
      | .party p choice => (x.partyStep p choice).map (·, [])

/-- The plugin before its first packet. -/
def start : Config (PluginLocks threads endpoint buffer) Empty where
  state := new
  history := []

end PluginLocks

end Sekkeizu
