/-
# Sekkeizu.Database.Transaction — the per-owner queue of database operations (`transaction.hpp`).

A transaction object keeps, for every collection, a queue of entries: write operations, callables and
dependencies on entries of other owners. `pushOperation`, `pushCallable` and `pushDependency` append;
`update`, called once per tick, hands the entries that may run to the database as tasks; a task marks
its entries done when it has run (`runTask`).

Modelling choices:

* Entry ids are `Nat`: fewer than 2^64 entries are ever pushed to one collection. The deletion check
  computes `current_id - 1` in 64 bits, so there the wrap at zero is kept.
* `_pending_callables` is the 8-bit counter of the source; the two clocks are 64-bit words.
* A vector of `transaction_info*` is a list of ids: entries are never erased, so a pointer and an id
  name the same entry.
* The documents and the callables are opaque. Of documents only `BSON_INITIALIZER` and validation
  matter here; what a bulk does with them is not part of this module.
* `_collections` is iterated in an order the hash table picks; `update` takes that order.
* The build is one without `NDEBUG`. Its assertions are checked, and `database::execute` looks whether there is
  a connection and drops what it is handed if not; with `NDEBUG` that check is compiled out.
* `id_to_transaction_getter` is a callback. It is called at most once per slot in one `update`, so it
  is modelled by its answers, indexed by the collection and the slot of the call.
-/
import Sekkeizu.Semantics.Tables
import Mathlib.Data.UInt

namespace Sekkeizu

/-- `enum class op_type`. -/
inductive OpType where
  | insert
  | deleteOne
  | deleteMany
  | updateOne
  | updateMany
  | upsertOne
  | upsertMany
  deriving DecidableEq, Repr

/-- What the queue asks of a `bson_t`. -/
class Bson (doc : Type*) where
  /-- `BSON_INITIALIZER`. -/
  initializer : doc
  /-- `bson_validate_with_error(.., BSON_VALIDATE_NONE, ..)`. -/
  validate : doc → Bool

/-- Documents without content. -/
instance : Bson Unit where
  initializer := ()
  validate _ := true

/-- `transaction_info::dependency`: entry `id` of another owner's queue for the same collection. -/
structure Dependency where
  owner : UInt64
  id : Nat
  deriving DecidableEq, Repr

/-- `transaction_info`: one entry of a queue. -/
structure TransactionInfo (doc callable : Type*) where
  dependency : Option Dependency
  type : OpType
  operationOp1 : doc
  operationOp2 : doc
  callable : Option callable
  pending : Bool
  done : Bool

/-- The queue of one collection: entries `0 .. currentId - 1`, of which those below `firstId` have
been consumed by `update`. -/
structure CollectionInfo (doc callable : Type*) where
  firstId : Nat
  currentId : Nat
  transactions : Finmap fun _ : Nat => TransactionInfo doc callable

structure Transaction (doc callable : Type*) where
  collections : Finmap fun _ : UInt8 => CollectionInfo doc callable
  executeEvery : UInt64
  sinceLastExecution : UInt64
  pendingCallables : UInt8
  flagged : Bool
  scheduled : Bool

/-- The part of `database` the queue uses. `collectionsMap` lists `_collections_map` in the order it
iterates. -/
structure Database where
  isConnected : Bool
  collectionsMap : List (UInt8 × String)

/-- The work handed to `database::execute`: the entries of one collection, all callables or all
writes. -/
structure Task where
  collection : UInt8
  callables : Bool
  transactions : List Nat
  deriving DecidableEq, Repr

variable {doc callable : Type*} [Bson doc]

/-! ## Entries and queues -/

/-- A value-initialized entry, what `transactions[id]` creates for an absent id. -/
def TransactionInfo.new : TransactionInfo doc callable where
  dependency := none
  type := .insert
  operationOp1 := Bson.initializer
  operationOp2 := Bson.initializer
  callable := none
  pending := false
  done := false

/-- `collection_info::collection_info`. -/
def CollectionInfo.new : CollectionInfo doc callable where
  firstId := 0
  currentId := 0
  transactions := ∅

/-- The entry a reference `transactions[id]` reads. -/
def CollectionInfo.entry (info : CollectionInfo doc callable) (id : Nat) :
    TransactionInfo doc callable :=
  (info.transactions.lookup id).getD .new

/-! ## `init` -/

/-- A transaction object that has no collections yet. -/
def Transaction.blank : Transaction doc callable where
  collections := ∅
  executeEvery := 0
  sinceLastExecution := 0
  pendingCallables := 0
  flagged := false
  scheduled := false

/-- `database::get_all_collections`. -/
def Database.getAllCollections (database : Database) : List (UInt8 × String) :=
  database.collectionsMap

/-- `transaction::init`: create the missing collections, clear all of them, reset the rest. -/
def Transaction.init (database : Database) (executeEvery : UInt64)
    (t : Transaction doc callable) : Transaction doc callable where
  collections :=
    (database.getAllCollections.foldl (fun collections entry =>
      collections.emplace entry.1 CollectionInfo.new) t.collections).mapVals
        fun _ info => { info with firstId := 0, currentId := 0, transactions := ∅ }
  executeEvery := executeEvery
  sinceLastExecution := 0
  pendingCallables := 0
  flagged := false
  scheduled := false

/-! ## Pushing -/

/-- The part the four `push_*` functions share: take the next slot of the collection and write the
entry there. `none` is a crash: `_collections[collection]` is a null pointer for a collection the
database does not have. -/
def Transaction.pushEntry (collection : UInt8)
    (write : TransactionInfo doc callable → TransactionInfo doc callable)
    (t : Transaction doc callable) : Option (Nat × Transaction doc callable) :=
  match t.collections.lookup collection with
  | none => none
  | some info =>
    let slot := info.currentId
    let info' := { info with
      currentId := slot + 1
      transactions := info.transactions.insert slot (write (info.entry slot)) }
    some (slot, { t with collections := t.collections.insert collection info' })

/-- `push_operation` with one document. A document that does not validate trips `BSON_ASSERT`. -/
def Transaction.pushOperation (collection : UInt8) (type : OpType) (operation : doc)
    (t : Transaction doc callable) : Option (Nat × Transaction doc callable) :=
  if Bson.validate operation then
    t.pushEntry collection fun transaction => { transaction with
      dependency := none
      type := type
      operationOp1 := operation
      operationOp2 := Bson.initializer
      callable := none
      done := false
      pending := false }
  else none

/-- `push_operation` with a selector and an update document. -/
def Transaction.pushOperation₂ (collection : UInt8) (type : OpType) (operation₁ operation₂ : doc)
    (t : Transaction doc callable) : Option (Nat × Transaction doc callable) :=
  if Bson.validate operation₁ && Bson.validate operation₂ then
    t.pushEntry collection fun transaction => { transaction with
      dependency := none
      type := type
      operationOp1 := operation₁
      operationOp2 := operation₂
      callable := none
      done := false
      pending := false }
  else none

/-- `push_callable`; the counter of pending callables is 8 bits wide. -/
def Transaction.pushCallable (collection : UInt8) (function : callable)
    (t : Transaction doc callable) : Option (Nat × Transaction doc callable) :=
  (t.pushEntry collection fun transaction => { transaction with
    dependency := none
    operationOp1 := Bson.initializer
    operationOp2 := Bson.initializer
    callable := some function
    done := false
    pending := false }).map fun (slot, t') =>
      (slot, { t' with pendingCallables := t'.pendingCallables + 1 })

/-- `push_dependency`; it returns nothing in the source, the slot is the one it takes. -/
def Transaction.pushDependency (collection : UInt8) (owner : UInt64) (id : Nat)
    (t : Transaction doc callable) : Option (Nat × Transaction doc callable) :=
  t.pushEntry collection fun transaction => { transaction with
    dependency := some { owner := owner, id := id }
    callable := none
    done := false
    pending := false }

/-! ## `get_transaction` and `get_pending_operations` -/

/-- `transaction::get_transaction`. -/
def Transaction.getTransaction (t : Transaction doc callable) (collection : UInt8) (id : Nat) :
    Option (TransactionInfo doc callable) :=
  match t.collections.lookup collection with
  | none => none
  | some info => info.transactions.lookup id

/-- The answers of `id_to_transaction_getter` during one `update`: which object it returns for an
owner, when the scan of `collection` calls it for the dependency at `slot`. -/
abbrev Getter (doc callable : Type*) :=
  (collection : UInt8) → (slot : Nat) → (owner : UInt64) → Option (Transaction doc callable)

/-- The dependency branch of the scan: a dependency holds the queue back exactly when its owner and
its entry are found and the entry is not done. -/
def dependencyMet (getter : Getter doc callable) (collection : UInt8) (slot : Nat)
    (dependency : Dependency) : Bool :=
  match getter collection slot dependency.owner with
  | none => true
  | some other =>
    match other.getTransaction collection dependency.id with
    | none => true
    | some info => info.done

/-- The local variables of `get_pending_operations`, with the two members it writes. -/
structure Scan (doc callable : Type*) where
  entries : Finmap fun _ : Nat => TransactionInfo doc callable
  pendingCallables : UInt8
  transactions : List Nat
  hasNonCallable : Bool
  hasCallable : Bool
  id : Nat

/-- `transaction.pending = true`. -/
def TransactionInfo.setPending (e : TransactionInfo doc callable) : TransactionInfo doc callable :=
  { e with pending := true }

/-- The body of the scan for the entry at `s.id`: `none` is `break`. -/
def scanEntry (getter : Getter doc callable) (collection : UInt8) (s : Scan doc callable) :
    Option (Scan doc callable) :=
  let transaction := (s.entries.lookup s.id).getD .new
  -- sent and not finished: the scan looks at nothing behind it
  if transaction.pending then none
  else if transaction.done then some s
  else
    match transaction.dependency with
    | some dependency =>
      if dependencyMet getter collection s.id dependency then some s else none
    | none =>
      match transaction.callable with
      | some _ =>
        -- a callable never joins a batch of writes
        if s.hasNonCallable then none
        else some { s with
          hasCallable := true
          pendingCallables := s.pendingCallables - 1
          entries := s.entries.modify TransactionInfo.setPending s.id
          transactions := s.transactions ++ [s.id] }
      | none =>
        -- nor a write a batch of callables
        if s.hasCallable then none
        else some { s with
          hasNonCallable := true
          entries := s.entries.modify TransactionInfo.setPending s.id
          transactions := s.transactions ++ [s.id] }

/-- The scan loop, for the `remaining` ids up to `current_id`. `info->transactions[id]` creates the
entry when it is absent. -/
def scanLoop (getter : Getter doc callable) (collection : UInt8) :
    (remaining : Nat) → Scan doc callable → Scan doc callable
  | 0, s => s
  | remaining + 1, s =>
    let s := { s with entries := s.entries.emplace s.id .new }
    match scanEntry getter collection s with
    | none => s
    | some s' => scanLoop getter collection remaining { s' with id := s'.id + 1 }

/-- `transaction::get_pending_operations`: the entries to send, whether they are writes, and the
object after the scan. -/
def Transaction.getPendingOperations (collection : UInt8) (getter : Getter doc callable)
    (t : Transaction doc callable) : List Nat × Bool × Transaction doc callable :=
  match t.collections.lookup collection with
  | none => ([], false, t)
  | some info =>
    let s := scanLoop getter collection (info.currentId - info.firstId)
      { entries := info.transactions
        pendingCallables := t.pendingCallables
        transactions := []
        hasNonCallable := false
        hasCallable := false
        id := info.firstId }
    (s.transactions, s.hasNonCallable, { t with
      collections :=
        t.collections.insert collection { info with firstId := s.id, transactions := s.entries }
      pendingCallables := s.pendingCallables })

/-! ## `update` -/

/-- `current_id - 1` in 64 bits. -/
def lastId (currentId : Nat) : Nat := (currentId + (2 ^ 64 - 1)) % 2 ^ 64

/-- One round of the deletion check: everything consumed, and the last entry, if any, done. -/
def CollectionInfo.canDelete (info : CollectionInfo doc callable) : Bool :=
  info.firstId == info.currentId &&
    match info.transactions.lookup (lastId info.currentId) with
    | none => true
    | some e => e.done

/-- The deletion check of `update`, over the collections in iteration order. -/
def Transaction.canDelete (order : List UInt8) (t : Transaction doc callable) : Bool :=
  order.all fun collection =>
    match t.collections.lookup collection with
    | none => true
    | some info => info.canDelete

/-- The dispatch loop of `update`: one task per collection, until a collection with unsent entries has
nothing to send (`break`). -/
def Transaction.dispatch (getter : Getter doc callable) :
    (order : List UInt8) → Transaction doc callable → Transaction doc callable × List Task
  | [], t => (t, [])
  | collection :: order, t =>
    match t.collections.lookup collection with
    | none => t.dispatch getter order
    | some info =>
      -- nothing queued: `continue`
      if info.firstId = info.currentId then t.dispatch getter order
      else
        match t.getPendingOperations collection getter with
        -- nothing to send: `break`, and the collections after it are not looked at
        | ([], _, t') => (t', [])
        | (id :: ids, hasNonCallable, t') =>
          let r := t'.dispatch getter order
          (r.1, ⟨collection, !hasNonCallable, id :: ids⟩ :: r.2)

/-- The deletion branch of `update` is taken and answers `false`. -/
def Transaction.deletes (order : List UInt8) (t : Transaction doc callable) : Bool :=
  t.flagged && (t.scheduled || t.canDelete order)

/-- The early return: no callable pending and not enough time elapsed. -/
def Transaction.idles (diff : UInt64) (t : Transaction doc callable) : Bool :=
  t.pendingCallables == 0 && decide (t.sinceLastExecution + diff < t.executeEvery)

/-- `transaction::update`: the answer, the object afterwards and the tasks handed to
`database::execute`, in order. -/
def Transaction.update (diff : UInt64) (order : List UInt8) (getter : Getter doc callable)
    (t : Transaction doc callable) : Bool × Transaction doc callable × List Task :=
  if t.deletes order then (false, { t with scheduled := true }, [])
  -- the time of an idle update still counts
  else if t.idles diff then
    (true, { t with sinceLastExecution := t.sinceLastExecution + diff }, [])
  else
    let r := { t with sinceLastExecution := 0 }.dispatch getter order
    (true, r.1, r.2)

/-! ## Deletion flags and tasks -/

/-- `transaction::flag_deletion`. -/
def Transaction.flagDeletion (t : Transaction doc callable) : Transaction doc callable :=
  { t with flagged := true }

/-- `transaction::unflag_deletion`. -/
def Transaction.unflagDeletion (t : Transaction doc callable) : Transaction doc callable :=
  { t with flagged := false, scheduled := false }

/-- `t->done = true; t->pending = false`. -/
def TransactionInfo.finish (e : TransactionInfo doc callable) : TransactionInfo doc callable :=
  { e with done := true, pending := false }

/-- The effect of a submitted task on the queue it was built from: every entry of it is flagged. The
result of `mongoc_bulk_operation_execute` is discarded by the source. -/
def Transaction.runTask (task : Task) (t : Transaction doc callable) : Transaction doc callable :=
  { t with
    collections := t.collections.modify
      (fun info => { info with
        transactions := info.transactions.modifyAll TransactionInfo.finish task.transactions })
      task.collection }

/-- `database::execute`, built without `NDEBUG`: without a connection the task is dropped. -/
def Database.execute (database : Database) (submitted : List Task) (task : Task) : List Task :=
  if database.isConnected then submitted ++ [task] else submitted

end Sekkeizu
