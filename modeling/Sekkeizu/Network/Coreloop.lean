/-
# Sekkeizu.Network.Coreloop — the receive loop of `core_loop`, its two pools, and the plugin behind it.

Every network thread has a receive going. `handle_connections` takes a buffer and an endpoint object from
their pools and starts one; its completion handler gives both to the plugin, or back to the pools if there
was an error, and calls `handle_connections` again. The plugin's packet task gives the endpoint object
back, the client who gets the buffer gives that one back.

Modelling choices:

* The unit of interleaving in the receive loop is one call of a pool, or the completion of a receive up to
  the first such call. The plugin keeps its own units.
* An object of a pool is its address. `boost::pool` hands out an address that is not allocated, and nothing
  is ever freed there; the concurrent queue may miss elements, so `get` may allocate at any time.
* A packet of the plugin is the buffer with the endpoint object its task holds. Where a container of the
  plugin holds a packet, the source holds the buffer.
* `start` arms the receives one after the other, and starts the core pool when that is done. The number of
  network threads is 16 bits wide, the `unique_id` of a receive is 8.
* The value that the socket writes into the endpoint object belongs to the completion.
-/
import Sekkeizu.Network.Plugin

namespace Sekkeizu

open PartialSystem

/-! ## `per_thread_pool` -/

/-- A `per_thread_pool`: what its `boost::pool`s have handed out, and the free queue. -/
structure PerThreadPool (α : Type*) where
  allocated : Finset α
  freeObjects : List α

/-- Where `get` finds an object. -/
inductive PoolSource (α : Type*) where
  /-- In the free queue, at this position. -/
  | dequeued (position : Nat)
  /-- In a `boost::pool`, at this address. -/
  | malloced (object : α)

namespace PerThreadPool

variable {α : Type*} [DecidableEq α]

def get (source : PoolSource α) (pool : PerThreadPool α) : Option (α × PerThreadPool α) :=
  match source with
  | .dequeued position =>
    match pool.freeObjects[position]? with
    | none => none
    | some object => some (object, { pool with freeObjects := pool.freeObjects.eraseIdx position })
  | .malloced object =>
    if object ∈ pool.allocated then none
    else some (object, { pool with allocated := insert object pool.allocated })

def release (object : α) (pool : PerThreadPool α) : PerThreadPool α :=
  { pool with freeObjects := pool.freeObjects ++ [object] }

end PerThreadPool

/-! ## `core_loop` -/

/-- Where `start` stands. -/
inductive StartStage (buffer : Type*) where
  /-- Before the test of the loop. -/
  | loop
  /-- In `handle_connections`, before the endpoint is taken. -/
  | getEndpoint (b : buffer)
  | done

/-- Where the receive of a network thread stands. -/
inductive ReceiveStage (object buffer : Type*) where
  /-- `async_receive_from` has been called and has not completed. -/
  | outstanding (b : buffer) (o : object)
  /-- In the handler, before the buffer is given back. -/
  | releaseBuffer (b : buffer) (o : object)
  /-- In the handler, before the endpoint is given back. -/
  | releaseEndpoint (o : object)
  /-- In the handler, at the start of `handle_connections`. -/
  | getBuffer
  /-- In the handler, before the endpoint is taken. -/
  | getEndpoint (b : buffer)

def ReceiveStage.isOutstanding {object buffer : Type*} : ReceiveStage object buffer → Bool
  | .outstanding .. => true
  | _ => false

/-- `core_loop` with one plugin, at most `threads` of whose `unique_id`s are valid. -/
structure CoreLoop (threads : Nat) (endpoint object buffer : Type*) where
  plugin : CoreloopNetworkPlugin threads endpoint (buffer × object)
  dataMempool : PerThreadPool buffer
  endpointsMempool : PerThreadPool object
  start : StartStage buffer
  /-- By network thread. -/
  receives : List (ReceiveStage object buffer)
  /-- The endpoints of the packet tasks that have stored their buffer and not yet ended. -/
  ending : List object
  /-- What `client_inputs` got and the user has not given back. -/
  user : List buffer
  /-- An `assert` of `handle_network_packet` has failed. -/
  aborted : Bool

/-- What the parties do, one unit at a time. -/
inductive CoreLoopAction (threads : Nat) (endpoint object buffer : Type*) where
  /-- `start` enters `handle_connections` for one more network thread. -/
  | startThread (source : PoolSource buffer)
  /-- `start` arms the receive. -/
  | startReceive (source : PoolSource object)
  /-- `start` leaves its loop. -/
  | started
  /-- The receive of this network thread completes: with a packet from this endpoint, or with an error. -/
  | completed (k : Nat) (sender : Option endpoint)
  /-- The handler gives the next object back. -/
  | handlerReleases (k : Nat)
  /-- The handler takes a buffer. -/
  | handlerBuffer (k : Nat) (source : PoolSource buffer)
  /-- The handler takes an endpoint and arms the receive. -/
  | handlerReceive (k : Nat) (source : PoolSource object)
  /-- A unit of the plugin. -/
  | plugin (action : PluginAction threads endpoint (buffer × object))
  /-- The packet task at this position calls `release_network_endpoint` and ends. -/
  | taskEnds (position : Nat)
  /-- The user calls `release_network_buffer`. -/
  | releaseNetworkBuffer (b : buffer)

/-- The `unique_id` that the receive of a network thread carries. -/
def uniqueId (k : Nat) : UInt8 := UInt8.ofNat k

/-- The endpoint object of the task that has stored its buffer. -/
def PluginEvent.storedObject {threads : Nat} {endpoint object buffer : Type*} :
    PluginEvent threads endpoint (buffer × object) → List object
  | .received _ _ p => [p.2]
  | _ => []

/-- The buffers the user gets. -/
def PluginEvent.handedBuffers {threads : Nat} {endpoint object buffer : Type*} :
    PluginEvent threads endpoint (buffer × object) → List buffer
  | .clientInputs _ data => data.map fun p => p.2.1
  | _ => []

/-- The packet a plugin action submits is submitted by a handler only. -/
def PluginAction.isSubmission {threads : Nat} {endpoint buffer : Type*} :
    PluginAction threads endpoint buffer → Bool
  | .handleNetworkPacket .. => true
  | _ => false

namespace CoreLoop

variable {threads : Nat} {endpoint object buffer : Type*}
variable [DecidableEq endpoint] [DecidableEq object] [DecidableEq buffer]

/-- The constructor. -/
def new : CoreLoop threads endpoint object buffer where
  plugin := .new
  dataMempool := ⟨∅, []⟩
  endpointsMempool := ⟨∅, []⟩
  start := .loop
  receives := []
  ending := []
  user := []
  aborted := false

/-- The process has ended in a failed `assert`. -/
def halted (x : CoreLoop threads endpoint object buffer) : Bool :=
  x.aborted || match x.plugin.stage with
    | .aborted => true
    | _ => false

/-- `start`, the first half of `handle_connections`. -/
def startThread (networkThreads : UInt16) (source : PoolSource buffer)
    (x : CoreLoop threads endpoint object buffer) : Option (CoreLoop threads endpoint object buffer) :=
  match x.start with
  | .loop =>
    if x.receives.length < networkThreads.toNat then
      (x.dataMempool.get source).map fun r =>
        { x with dataMempool := r.2, start := .getEndpoint r.1 }
    else none
  | _ => none

/-- `start`, the second half. -/
def startReceive (source : PoolSource object) (x : CoreLoop threads endpoint object buffer) :
    Option (CoreLoop threads endpoint object buffer) :=
  match x.start with
  | .getEndpoint b =>
    (x.endpointsMempool.get source).map fun r =>
      { x with
        endpointsMempool := r.2
        receives := x.receives ++ [.outstanding b r.1]
        start := .loop }
  | _ => none

def started (networkThreads : UInt16) (x : CoreLoop threads endpoint object buffer) :
    Option (CoreLoop threads endpoint object buffer) :=
  match x.start with
  | .loop => if x.receives.length < networkThreads.toNat then none else some { x with start := .done }
  | _ => none

/-- The handler of a receive, up to its first call of a pool. -/
def completed (k : Nat) (sender : Option endpoint) (x : CoreLoop threads endpoint object buffer) :
    Option (CoreLoop threads endpoint object buffer ×
      List (PluginEvent threads endpoint (buffer × object))) :=
  match x.receives[k]?, sender with
  | some (.outstanding b o), none =>
    some ({ x with receives := x.receives.set k (.releaseBuffer b o) }, [])
  | some (.outstanding b o), some e =>
    -- "Increase max_concurrent_threads in coreloop_network_plugin"
    if h : (uniqueId k).toNat < threads then
      (x.plugin.step (.handleNetworkPacket ⟨(uniqueId k).toNat, h⟩ e (b, o))).map fun r =>
        ({ x with plugin := r.1, receives := x.receives.set k .getBuffer }, r.2)
    else some ({ x with aborted := true }, [])
  | _, _ => none

def handlerReleases (k : Nat) (x : CoreLoop threads endpoint object buffer) :
    Option (CoreLoop threads endpoint object buffer) :=
  match x.receives[k]? with
  | some (.releaseBuffer b o) =>
    some { x with
      dataMempool := x.dataMempool.release b
      receives := x.receives.set k (.releaseEndpoint o) }
  | some (.releaseEndpoint o) =>
    some { x with
      endpointsMempool := x.endpointsMempool.release o
      receives := x.receives.set k .getBuffer }
  | _ => none

/-- `handle_connections` in the handler, the first half. -/
def handlerBuffer (k : Nat) (source : PoolSource buffer) (x : CoreLoop threads endpoint object buffer) :
    Option (CoreLoop threads endpoint object buffer) :=
  match x.receives[k]? with
  | some .getBuffer =>
    (x.dataMempool.get source).map fun r =>
      { x with dataMempool := r.2, receives := x.receives.set k (.getEndpoint r.1) }
  | _ => none

/-- `handle_connections` in the handler, the second half. -/
def handlerReceive (k : Nat) (source : PoolSource object)
    (x : CoreLoop threads endpoint object buffer) : Option (CoreLoop threads endpoint object buffer) :=
  match x.receives[k]? with
  | some (.getEndpoint b) =>
    (x.endpointsMempool.get source).map fun r =>
      { x with endpointsMempool := r.2, receives := x.receives.set k (.outstanding b r.1) }
  | _ => none

/-- A unit of the plugin, which only starts with the core pool. -/
def pluginUnit (action : PluginAction threads endpoint (buffer × object))
    (x : CoreLoop threads endpoint object buffer) :
    Option (CoreLoop threads endpoint object buffer ×
      List (PluginEvent threads endpoint (buffer × object))) :=
  match x.start with
  | .done =>
    if action.isSubmission then none
    else (x.plugin.step action).map fun r =>
      ({ x with
        plugin := r.1
        ending := x.ending ++ r.2.flatMap PluginEvent.storedObject
        user := x.user ++ r.2.flatMap PluginEvent.handedBuffers }, r.2)
  | _ => none

def taskEnds (position : Nat) (x : CoreLoop threads endpoint object buffer) :
    Option (CoreLoop threads endpoint object buffer) :=
  match x.ending[position]? with
  | none => none
  | some o =>
    some { x with
      endpointsMempool := x.endpointsMempool.release o
      ending := x.ending.eraseIdx position }

/-- The user gives back a buffer it got, once. -/
def releaseNetworkBuffer (b : buffer) (x : CoreLoop threads endpoint object buffer) :
    Option (CoreLoop threads endpoint object buffer) :=
  if b ∈ x.user then
    some { x with dataMempool := x.dataMempool.release b, user := x.user.erase b }
  else none

/-- One unit of one party, with what the plugin shows of it. -/
def step (networkThreads : UInt16) : Step (CoreLoop threads endpoint object buffer)
    (CoreLoopAction threads endpoint object buffer) (PluginEvent threads endpoint (buffer × object)) :=
  fun x action =>
    if x.halted then none
    else
      match action with
      | .startThread source => (x.startThread networkThreads source).map (·, [])
      | .startReceive source => (x.startReceive source).map (·, [])
      | .started => (x.started networkThreads).map (·, [])
      | .completed k sender => x.completed k sender
      | .handlerReleases k => (x.handlerReleases k).map (·, [])
      | .handlerBuffer k source => (x.handlerBuffer k source).map (·, [])
      | .handlerReceive k source => (x.handlerReceive k source).map (·, [])
      | .plugin action => x.pluginUnit action
      | .taskEnds position => (x.taskEnds position).map (·, [])
      | .releaseNetworkBuffer b => (x.releaseNetworkBuffer b).map (·, [])

/-- The loop before `start`. -/
def initial : Config (CoreLoop threads endpoint object buffer)
    (PluginEvent threads endpoint (buffer × object)) where
  state := new
  history := []

end CoreLoop

end Sekkeizu
