/-
# Sekkeizu.Database.World — one transaction object together with the tasks the fiber pool holds.

The unit of interleaving is one call of a public member of `transaction`, or one submitted task run to
its end. The pool picks any submitted task next. `update` may meet any iteration order of
`_collections` and any answers of the getter, and both are part of the call.

`Reached` says when the dispatch loop gets as far as a collection, and `dispatch_of_reached` /
`dispatch_of_not_reached` give the effect of one whole `update` on one collection: a scan or nothing.
-/
import Sekkeizu.Database.Queue
import Sekkeizu.Semantics.Lists
import Sekkeizu.Semantics.Runs


namespace Sekkeizu

open Finmap (Enumerates)
open PartialSystem

/-- A transaction object and the tasks submitted for it that have not run, oldest first. -/
structure World (doc callable : Type*) where
  object : Transaction doc callable
  submitted : List Task

/-- One uninterrupted action on the object or of the pool. -/
inductive Call (doc callable : Type*) where
  | pushOperation (collection : UInt8) (type : OpType) (operation : doc)
  | pushOperation₂ (collection : UInt8) (type : OpType) (operation₁ operation₂ : doc)
  | pushCallable (collection : UInt8) (function : callable)
  | pushDependency (collection : UInt8) (owner : UInt64) (id : Nat)
  | update (diff : UInt64) (order : List UInt8) (getter : Getter doc callable)
  | flagDeletion
  | unflagDeletion
  | runTask (position : Nat)

/-- What a caller or the database sees of a step. -/
inductive Event where
  /-- `push_operation` or `push_callable` returned this id. -/
  | slot (collection : UInt8) (id : Nat)
  /-- `update` handed the task to `database::execute`. -/
  | dispatched (task : Task)
  /-- `update` returned. -/
  | returned (keep : Bool)
  /-- The pool ran the task. -/
  | ran (task : Task)
  deriving DecidableEq, Repr

variable {doc callable : Type*} [Bson doc]

/-- One step. A push to a collection that does not exist, or of an invalid document, is a crash and
has no successor; so has a position no task is at, and an order that does not iterate `_collections`. -/
def World.step (database : Database) : Step (World doc callable) (Call doc callable) Event :=
  fun w call =>
    match call with
    | .pushOperation collection type operation =>
      (w.object.pushOperation collection type operation).map fun (id, t) =>
        ({ w with object := t }, [.slot collection id])
    | .pushOperation₂ collection type operation₁ operation₂ =>
      (w.object.pushOperation₂ collection type operation₁ operation₂).map fun (id, t) =>
        ({ w with object := t }, [.slot collection id])
    | .pushCallable collection function =>
      (w.object.pushCallable collection function).map fun (id, t) =>
        ({ w with object := t }, [.slot collection id])
    | .pushDependency collection owner id =>
      (w.object.pushDependency collection owner id).map fun (_, t) => ({ w with object := t }, [])
    | .update diff order getter =>
      -- `_collections` is a hash table: any order of its keys may come up
      if Enumerates order w.object.collections then
        let r := w.object.update diff order getter
        some ({ object := r.2.1, submitted := r.2.2.foldl database.execute w.submitted },
          r.2.2.map .dispatched ++ [.returned r.1])
      else none
    | .flagDeletion => some ({ w with object := w.object.flagDeletion }, [])
    | .unflagDeletion => some ({ w with object := w.object.unflagDeletion }, [])
    | .runTask position =>
      match w.submitted[position]? with
      | none => none
      | some task =>
        some ({ object := w.object.runTask task, submitted := w.submitted.eraseIdx position },
          [.ran task])

/-- The world after `init` of an object, whatever it held before. -/
def World.start (database : Database) (executeEvery : UInt64) (t : Transaction doc callable) :
    Config (World doc callable) Event where
  state := { object := t.init database executeEvery, submitted := [] }
  history := []

/-- One collection, with a connection. -/
def Database.single : Database where
  isConnected := true
  collectionsMap := [(0, "a")]

/-- A getter that knows no owner. -/
def Getter.unknown : Getter doc callable := fun _ _ _ => none

/-! ## The dispatch loop, collection by collection -/

section Dispatch

variable (getter : Getter doc callable)

/-- The dispatch loop ends at this queue: entries are left and none can be sent. -/
def CollectionInfo.Halts (collection : UInt8) (info : CollectionInfo doc callable) : Prop :=
  info.firstId ≠ info.currentId ∧ info.batch getter collection = []

/-- The dispatch loop gets as far as `collection`: no queue before it in the order ends the loop. -/
def Reached (t : Transaction doc callable) (order : List UInt8) (collection : UInt8) : Prop :=
  ∀ earlier ∈ order.takeWhile (· ≠ collection), ∀ info,
    t.collections.lookup earlier = some info → ¬ info.Halts getter earlier

/-- The task a scan of the queue gives rise to, if it sends anything. -/
def CollectionInfo.sentTasks (collection : UInt8) (info : CollectionInfo doc callable) :
    List Task :=
  match info.batch getter collection with
  | [] => []
  | id :: ids => [⟨collection, !info.hasNonCallable getter collection, id :: ids⟩]

variable {getter}

theorem reached_head (t : Transaction doc callable) (order : List UInt8) (collection : UInt8) :
    Reached getter t (collection :: order) collection := by
  intro earlier hmem
  simp at hmem

theorem reached_cons {t : Transaction doc callable} {order : List UInt8}
    {first collection : UInt8} (hne : first ≠ collection) :
    Reached getter t (first :: order) collection ↔
      (∀ info, t.collections.lookup first = some info → ¬ info.Halts getter first) ∧
        Reached getter t order collection := by
  simp only [Reached, List.takeWhile_cons, decide_eq_true hne, if_true, List.mem_cons, forall_eq_or_imp]

/-- `Reached` looks at the queues before the collection only. -/
theorem reached_congr {t t' : Transaction doc callable} {order : List UInt8} {collection : UInt8}
    (h : ∀ earlier ∈ order, t'.collections.lookup earlier = t.collections.lookup earlier) :
    Reached getter t' order collection ↔ Reached getter t order collection := by
  unfold Reached
  apply forall₂_congr
  intro earlier hmem
  rw [h earlier ((List.takeWhile_prefix _).subset hmem)]

/-- Scanning a drained queue changes nothing. -/
theorem CollectionInfo.scanned_drained (getter : Getter doc callable) {info : CollectionInfo doc callable} 
    (collection : UInt8) (h : info.firstId = info.currentId) :
    info.batch getter collection = [] ∧ info.scanned getter collection = info := by
  have hqueue : info.queue = [] := by
    simp [CollectionInfo.queue, entriesFrom, h]
  have hconsumed : info.consumed getter collection = [] := by
    rw [CollectionInfo.consumed, hqueue, Scanner.consumed_nil]
  have hbatch : info.batch getter collection = [] := by
    rw [CollectionInfo.batch, hconsumed]
    rfl
  refine ⟨hbatch, ?_⟩
  rw [CollectionInfo.scanned, hconsumed, hbatch]
  rfl

/-- Every queue has its entries; all that the closed form of the scan asks. -/
def Transaction.AllPresent (t : Transaction doc callable) : Prop :=
  ∀ {collection info}, t.collections.lookup collection = some info →
    ∀ id < info.currentId, id ∈ info.transactions

/-- The object after `get_pending_operations` on one collection. -/
def Transaction.scan (getter : Getter doc callable) (collection : UInt8)
    (info : CollectionInfo doc callable) (t : Transaction doc callable) : Transaction doc callable :=
  { t with
    collections := t.collections.insert collection (info.scanned getter collection)
    pendingCallables := t.pendingCallables -
      UInt8.ofNat (sentCallables (info.consumed getter collection)) }

theorem Transaction.AllPresent.scan {t : Transaction doc callable} (h : t.AllPresent)
    {collection : UInt8} {info : CollectionInfo doc callable}
    (hlookup : t.collections.lookup collection = some info) :
    (t.scan getter collection info).AllPresent := by
  intro c info' hc id hid
  rw [Transaction.scan, Finmap.lookup_insert_eq] at hc
  split_ifs at hc with heq
  · obtain rfl := Option.some.inj hc
    rw [CollectionInfo.scanned, Finmap.mem_modifyAll]
    exact h hlookup id hid
  · exact h hc id hid

/-! The four ways one round of the dispatch loop goes. -/

theorem dispatch_absent {t : Transaction doc callable} {collection : UInt8} {order : List UInt8}
    (h : t.collections.lookup collection = none) :
    t.dispatch getter (collection :: order) = t.dispatch getter order := by
  simp only [Transaction.dispatch, h]

theorem dispatch_drained {t : Transaction doc callable} {collection : UInt8} {order : List UInt8}
    {info : CollectionInfo doc callable} (h : t.collections.lookup collection = some info)
    (hdrained : info.firstId = info.currentId) :
    t.dispatch getter (collection :: order) = t.dispatch getter order := by
  simp only [Transaction.dispatch, h, if_pos hdrained]

theorem dispatch_halts {t : Transaction doc callable} {collection : UInt8} {order : List UInt8}
    {info : CollectionInfo doc callable} (ht : t.AllPresent)
    (h : t.collections.lookup collection = some info) (hhalts : info.Halts getter collection) :
    t.dispatch getter (collection :: order) = (t.scan getter collection info, []) := by
  unfold Transaction.dispatch
  simp only [h, if_neg hhalts.1, getPendingOperations_eq h (ht h), hhalts.2]
  rfl

theorem dispatch_sends {t : Transaction doc callable} {collection : UInt8} {order : List UInt8}
    {info : CollectionInfo doc callable} (ht : t.AllPresent)
    (h : t.collections.lookup collection = some info)
    (hsends : info.batch getter collection ≠ []) :
    t.dispatch getter (collection :: order) =
      (((t.scan getter collection info).dispatch getter order).1,
        info.sentTasks getter collection ++
          ((t.scan getter collection info).dispatch getter order).2) := by
  have hundrained : info.firstId ≠ info.currentId := fun hdrained =>
    hsends (CollectionInfo.scanned_drained getter collection hdrained).1
  rw [Transaction.dispatch]
  simp only [h, if_neg hundrained, getPendingOperations_eq h (ht h), CollectionInfo.sentTasks]
  cases hbatch : info.batch getter collection with
  | nil => exact absurd hbatch hsends
  | cons id ids => rfl

theorem sentTasks_filter_self (collection : UInt8) (info : CollectionInfo doc callable) :
    (info.sentTasks getter collection).filter (·.collection = collection) =
      info.sentTasks getter collection := by
  unfold CollectionInfo.sentTasks
  cases info.batch getter collection <;> simp

theorem sentTasks_filter_ne {collection other : UInt8} (h : other ≠ collection)
    (info : CollectionInfo doc callable) :
    (info.sentTasks getter other).filter (·.collection = collection) = [] := by
  unfold CollectionInfo.sentTasks
  cases info.batch getter other <;> simp [h]

theorem sentTasks_nil {collection : UInt8} {info : CollectionInfo doc callable}
    (h : info.batch getter collection = []) : info.sentTasks getter collection = [] := by
  simp only [CollectionInfo.sentTasks, h]

/-- The one task of a scan. -/
theorem mem_sentTasks {collection : UInt8} {info : CollectionInfo doc callable} {task : Task}
    (h : task ∈ info.sentTasks getter collection) :
    info.batch getter collection ≠ [] ∧
      task = ⟨collection, !info.hasNonCallable getter collection, info.batch getter collection⟩ := by
  rw [CollectionInfo.sentTasks] at h
  cases hbatch : info.batch getter collection with
  | nil => simp [hbatch] at h
  | cons id ids =>
      simp only [hbatch, List.mem_singleton] at h
      exact ⟨List.cons_ne_nil id ids, h⟩

theorem lookup_scan_self (t : Transaction doc callable) (collection : UInt8)
    (info : CollectionInfo doc callable) :
    (t.scan getter collection info).collections.lookup collection =
      some (info.scanned getter collection) :=
  Finmap.lookup_insert _

theorem lookup_scan_ne (t : Transaction doc callable) {collection other : UInt8}
    (h : other ≠ collection) (info : CollectionInfo doc callable) :
    (t.scan getter collection info).collections.lookup other = t.collections.lookup other :=
  Finmap.lookup_insert_of_ne _ h

/-- A scan leaves the queues still to come alone. -/
theorem lookup_scan_later (getter : Getter doc callable) (t : Transaction doc callable)
    {first : UInt8} {order : List UInt8} (hfirst : first ∉ order)
    (info : CollectionInfo doc callable) :
    ∀ later ∈ order, (t.scan getter first info).collections.lookup later =
      t.collections.lookup later := by
  intro later hlater
  exact lookup_scan_ne t (ne_of_mem_of_not_mem hlater hfirst) info

/-- The dispatch loop writes no deletion flag. -/
theorem dispatch_flags (getter : Getter doc callable) (order : List UInt8)
    {t : Transaction doc callable} (ht : t.AllPresent) :
    (t.dispatch getter order).1.flagged = t.flagged ∧
      (t.dispatch getter order).1.scheduled = t.scheduled := by
  induction order generalizing t with
  | nil => exact ⟨rfl, rfl⟩
  | cons first order ih =>
      cases hlookup : t.collections.lookup first with
      | none =>
          rw [dispatch_absent hlookup]
          exact ih ht
      | some info =>
          by_cases hdrained : info.firstId = info.currentId
          · rw [dispatch_drained hlookup hdrained]
            exact ih ht
          · by_cases hbatch : info.batch getter first = []
            · rw [dispatch_halts ht hlookup ⟨hdrained, hbatch⟩]
              exact ⟨rfl, rfl⟩
            · rw [dispatch_sends ht hlookup hbatch]
              exact ih (ht.scan hlookup)

/-- A collection outside the order is not touched. -/
theorem dispatch_of_notMem (getter : Getter doc callable) {order : List UInt8}
    {t : Transaction doc callable} (ht : t.AllPresent) {collection : UInt8}
    (hmem : collection ∉ order) :
    (t.dispatch getter order).1.collections.lookup collection = t.collections.lookup collection ∧
      (t.dispatch getter order).2.filter (·.collection = collection) = [] := by
  induction order generalizing t with
  | nil => exact ⟨rfl, rfl⟩
  | cons first order ih =>
      rw [List.mem_cons, not_or] at hmem
      obtain ⟨hne, hmem⟩ := hmem
      cases hlookup : t.collections.lookup first with
      | none =>
          rw [dispatch_absent hlookup]
          exact ih ht hmem
      | some info =>
          by_cases hdrained : info.firstId = info.currentId
          · rw [dispatch_drained hlookup hdrained]
            exact ih ht hmem
          · by_cases hbatch : info.batch getter first = []
            · rw [dispatch_halts ht hlookup ⟨hdrained, hbatch⟩]
              exact ⟨lookup_scan_ne t hne info, rfl⟩
            · rw [dispatch_sends ht hlookup hbatch]
              obtain ⟨hsame, hnone⟩ := ih (ht.scan hlookup) hmem
              refine ⟨hsame.trans (lookup_scan_ne t hne info), ?_⟩
              rw [List.filter_append, sentTasks_filter_ne (Ne.symm hne), hnone, List.append_nil]

/-- **A collection the dispatch loop reaches is scanned once**, and its only task is the one the scan
gives rise to. -/
theorem dispatch_of_reached {order : List UInt8} {t : Transaction doc callable} (ht : t.AllPresent)
    (hnodup : order.Nodup) {collection : UInt8} {info : CollectionInfo doc callable}
    (hmem : collection ∈ order) (hlookup : t.collections.lookup collection = some info)
    (hreached : Reached getter t order collection) :
    (t.dispatch getter order).1.collections.lookup collection =
        some (info.scanned getter collection) ∧
      (t.dispatch getter order).2.filter (·.collection = collection) =
        info.sentTasks getter collection := by
  induction order generalizing t with
  | nil => exact absurd hmem List.not_mem_nil
  | cons first order ih =>
      obtain ⟨hfirst, hnodup⟩ := List.nodup_cons.mp hnodup
      by_cases heq : first = collection
      · -- the collection's own turn; the rest of the order does not touch it again
        subst heq
        by_cases hdrained : info.firstId = info.currentId
        · obtain ⟨hbatch, hscanned⟩ := CollectionInfo.scanned_drained getter first hdrained
          rw [dispatch_drained hlookup hdrained, hscanned, sentTasks_nil hbatch, ← hlookup]
          exact dispatch_of_notMem getter ht hfirst
        · by_cases hbatch : info.batch getter first = []
          · rw [dispatch_halts ht hlookup ⟨hdrained, hbatch⟩, sentTasks_nil hbatch]
            exact ⟨lookup_scan_self t first info, rfl⟩
          · rw [dispatch_sends ht hlookup hbatch]
            obtain ⟨hsame, hnone⟩ := dispatch_of_notMem getter (ht.scan hlookup) hfirst
            refine ⟨hsame.trans (lookup_scan_self t first info), ?_⟩
            rw [List.filter_append, sentTasks_filter_self, hnone, List.append_nil]
      · have hmem : collection ∈ order := (List.mem_cons.mp hmem).resolve_left (Ne.symm heq)
        obtain ⟨hopen, hreached⟩ := (reached_cons heq).mp hreached
        cases hlook : t.collections.lookup first with
        | none =>
            rw [dispatch_absent hlook]
            exact ih ht hnodup hmem hlookup hreached
        | some other =>
            by_cases hdrained : other.firstId = other.currentId
            · rw [dispatch_drained hlook hdrained]
              exact ih ht hnodup hmem hlookup hreached
            · -- an undrained queue before a reached one does not end the loop, so it sends
              have hbatch : other.batch getter first ≠ [] := fun hnil =>
                hopen other hlook ⟨hdrained, hnil⟩
              have hlater := lookup_scan_later getter t hfirst other
              obtain ⟨hsame, htasks⟩ := ih (ht.scan hlook) hnodup hmem
                ((lookup_scan_ne t (Ne.symm heq) other).trans hlookup)
                ((reached_congr hlater).mpr hreached)
              rw [dispatch_sends ht hlook hbatch]
              refine ⟨hsame, ?_⟩
              rw [List.filter_append, sentTasks_filter_ne heq, htasks, List.nil_append]

/-- **A collection the dispatch loop does not reach is left as it is.** -/
theorem dispatch_of_not_reached {order : List UInt8} {t : Transaction doc callable}
    (ht : t.AllPresent) (hnodup : order.Nodup) {collection : UInt8}
    (hreached : ¬ Reached getter t order collection) :
    (t.dispatch getter order).1.collections.lookup collection = t.collections.lookup collection ∧
      (t.dispatch getter order).2.filter (·.collection = collection) = [] := by
  induction order generalizing t with
  | nil => exact ⟨rfl, rfl⟩
  | cons first order ih =>
      obtain ⟨hfirst, hnodup⟩ := List.nodup_cons.mp hnodup
      by_cases heq : first = collection
      · subst heq
        exact absurd (reached_head t order first) hreached
      · rw [reached_cons heq] at hreached
        cases hlook : t.collections.lookup first with
        | none =>
            rw [dispatch_absent hlook]
            exact ih ht hnodup fun h => hreached ⟨fun _ hinfo => absurd (hlook.symm.trans hinfo)
              (by simp), h⟩
        | some other =>
            by_cases hdrained : other.firstId = other.currentId
            · rw [dispatch_drained hlook hdrained]
              refine ih ht hnodup fun h => hreached ⟨fun info hinfo hhalts => ?_, h⟩
              obtain rfl := Option.some.inj (hlook.symm.trans hinfo)
              exact hhalts.1 hdrained
            · by_cases hbatch : other.batch getter first = []
              · rw [dispatch_halts ht hlook ⟨hdrained, hbatch⟩]
                exact ⟨lookup_scan_ne t (Ne.symm heq) other, rfl⟩
              · have hlater := lookup_scan_later getter t hfirst other
                obtain ⟨hsame, hnone⟩ := ih (ht.scan hlook) hnodup fun h =>
                  hreached ⟨fun info hinfo hhalts => hbatch
                    (Option.some.inj (hlook.symm.trans hinfo) ▸ hhalts.2),
                    (reached_congr hlater).mp h⟩
                rw [dispatch_sends ht hlook hbatch]
                refine ⟨hsame.trans (lookup_scan_ne t (Ne.symm heq) other), ?_⟩
                rw [List.filter_append, sentTasks_filter_ne heq, hnone, List.append_nil]

end Dispatch

end Sekkeizu
