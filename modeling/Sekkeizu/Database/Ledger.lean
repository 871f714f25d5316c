/-
# Sekkeizu.Database.Ledger — the books of one transaction object: sent, outstanding, done.

`Ledger` relates one queue to two lists: the ids `update` has handed to the database so far, and the
ids of the tasks still in the pool. The first list is exactly the operations below `firstId`; the
second is a sublist of it; and, with a connection, an operation below `firstId` is done exactly when
it is in no outstanding task. `Accounted` says so for every collection, and `accounted_run` that it
holds after every run.
-/
import Sekkeizu.Database.Moves


namespace Sekkeizu

open Finmap (Enumerates)
open PartialSystem

variable {doc callable : Type*}

/-! ## One queue against the two lists -/

/-- The `done` flag of an entry; `false` when there is none. -/
def CollectionInfo.isDone (info : CollectionInfo doc callable) (id : Nat) : Bool :=
  match info.transactions.lookup id with
  | none => false
  | some e => e.done

/-- **The books of one queue.** -/
structure Ledger (connected : Bool) (info : CollectionInfo doc callable)
    (sent outstanding : List Nat) : Prop where
  sound : info.Sound
  sent_eq : sent = info.operationsBelow info.firstId
  sublist : outstanding.Sublist sent
  done_iff : connected = true → ∀ id ∈ sent, info.isDone id = true ↔ id ∉ outstanding
  offline : connected = false → ∀ id, info.isDone id = false

theorem isDone_eq_false_of_fresh {info : CollectionInfo doc callable} (h : info.Sound) {id : Nat}
    (hid : info.firstId ≤ id) : info.isDone id = false := by
  unfold CollectionInfo.isDone
  cases he : info.transactions.lookup id with
  | none => rfl
  | some e => exact (h.fresh hid he).2

theorem isDone_scanned [Bson doc] (getter : Getter doc callable) (collection : UInt8)
    (info : CollectionInfo doc callable) (id : Nat) :
    (info.scanned getter collection).isDone id = info.isDone id := by
  unfold CollectionInfo.isDone
  rw [CollectionInfo.Sound.lookup_scanned]
  split_ifs
  · cases info.transactions.lookup id <;> rfl
  · rfl

theorem isDone_finished (info : CollectionInfo doc callable) (ids : List Nat) {id : Nat}
    (hid : id ∈ info.transactions) :
    (info.finished ids).isDone id = true ↔ info.isDone id = true ∨ id ∈ ids := by
  obtain ⟨e, he⟩ := Finmap.mem_iff.mp hid
  unfold CollectionInfo.isDone
  rw [CollectionInfo.Sound.lookup_finished]
  split_ifs with hmem
  · simp [he, hmem, TransactionInfo.finish]
  · simp [hmem]

theorem isDone_pushed [Bson doc] {info : CollectionInfo doc callable}
    {write : TransactionInfo doc callable → TransactionInfo doc callable}
    (hfresh : ∀ e, (write e).pending = false ∧ (write e).done = false) {id : Nat} (h : info.Sound) :
    (info.pushed write).isDone id = info.isDone id := by
  unfold CollectionInfo.isDone
  rw [CollectionInfo.pushed, Finmap.lookup_insert_eq]
  split_ifs with hslot
  · subst hslot
    have hnone : info.transactions.lookup info.currentId = none := by
      rw [Finmap.lookup_eq_none, h.mem_iff]
      exact Nat.lt_irrefl _
    simp [hnone, (hfresh _).2]
  · rfl

namespace Ledger

variable {connected : Bool} {info : CollectionInfo doc callable} {sent outstanding : List Nat}

/-- The ids handed over are strictly increasing. -/
theorem sent_pairwise (h : Ledger connected info sent outstanding) : sent.Pairwise (· < ·) :=
  h.sent_eq ▸ info.operationsBelow_pairwise _

theorem outstanding_pairwise (h : Ledger connected info sent outstanding) :
    outstanding.Pairwise (· < ·) :=
  h.sent_pairwise.sublist h.sublist

theorem lt_first (h : Ledger connected info sent outstanding) {id : Nat} (hid : id ∈ sent) :
    id < info.firstId :=
  (CollectionInfo.mem_operationsBelow.mp (h.sent_eq ▸ hid)).1

/-- A task that has run takes its ids out of the outstanding ones and marks them done. -/
theorem finish {before after ids : List Nat}
    (h : Ledger true info sent (before ++ ids ++ after)) :
    Ledger true (info.finished ids) sent (before ++ after) where
  sound := h.sound.finished fun id hid =>
    h.sent_eq ▸ h.sublist.subset (by simp [hid])
  sent_eq := by
    rw [h.sent_eq]
    exact (CollectionInfo.Sound.operationsBelow_finished ids _).symm
  sublist := by
    refine List.Sublist.trans ?_ h.sublist
    exact List.Sublist.append (List.sublist_append_left _ _) (List.Sublist.refl _)
  done_iff := by
    intro _ id hid
    have hmem : id ∈ info.transactions := by
      rw [h.sound.mem_iff]
      exact Nat.lt_of_lt_of_le (h.lt_first hid) h.sound.first_le
    rw [isDone_finished info ids hmem, h.done_iff rfl id hid]
    -- the ids of a task occur nowhere else in the pool
    have hnodup : (before ++ ids ++ after).Nodup :=
      h.outstanding_pairwise.imp fun hlt => Nat.ne_of_lt hlt
    rw [List.nodup_append, List.nodup_append] at hnodup
    obtain ⟨⟨-, -, hbi⟩, -, hia⟩ := hnodup
    simp only [List.mem_append, not_or]
    constructor
    · rintro (⟨⟨hb, -⟩, ha⟩ | hids)
      · exact ⟨hb, ha⟩
      · exact ⟨fun hb => hbi id hb id hids rfl,
          fun ha => hia id (List.mem_append_right _ hids) id ha rfl⟩
    · rintro ⟨hb, ha⟩
      by_cases hids : id ∈ ids
      · exact Or.inr hids
      · exact Or.inl ⟨⟨hb, hids⟩, ha⟩
  offline := fun hconn => absurd hconn (by simp)

variable [Bson doc]

theorem push (h : Ledger connected info sent outstanding) {call : Call doc callable}
    {collection : UInt8} {write : TransactionInfo doc callable → TransactionInfo doc callable}
    (hwrite : PushWrite call collection write) :
    Ledger connected (info.pushed write) sent outstanding where
  sound := h.sound.pushed hwrite.fresh hwrite.callable
  sent_eq := h.sent_eq.trans h.sound.operationsBelow_pushed.symm
  sublist := h.sublist
  done_iff := by
    intro hconn id hid
    rw [isDone_pushed hwrite.fresh h.sound]
    exact h.done_iff hconn id hid
  offline := by
    intro hconn id
    rw [isDone_pushed hwrite.fresh h.sound]
    exact h.offline hconn id

/-- A scan sends the next operations; with a connection they become outstanding. -/
theorem scan (h : Ledger connected info sent outstanding) (getter : Getter doc callable)
    (collection : UInt8) :
    Ledger connected (info.scanned getter collection) (sent ++ info.batch getter collection)
      (if connected then outstanding ++ info.batch getter collection else outstanding) where
  sound := h.sound.scanned getter collection
  sent_eq := by rw [h.sound.operationsBelow_scanned, h.sent_eq]
  sublist := by
    cases connected with
    | true => exact h.sublist.append (List.Sublist.refl _)
    | false => exact h.sublist.trans (List.sublist_append_left _ _)
  done_iff := by
    intro hconn id hid
    rw [isDone_scanned, if_pos hconn, List.mem_append, not_or]
    rcases List.mem_append.mp hid with hold | hnew
    · have hlt := h.lt_first hold
      have hnot : id ∉ info.batch getter collection := by
        intro hmem
        have := ((h.sound.mem_batch getter collection).mp hmem).1
        omega
      rw [h.done_iff hconn id hold]
      exact ⟨fun hout => ⟨hout, hnot⟩, And.left⟩
    · have hle := ((h.sound.mem_batch getter collection).mp hnew).1
      rw [isDone_eq_false_of_fresh h.sound hle]
      simp [hnew]
  offline := by
    intro hconn id
    rw [isDone_scanned]
    exact h.offline hconn id

/-- Every move keeps the books. A task can only have run with a connection, for without one none is
ever submitted. -/
theorem move (h : Ledger connected info sent outstanding) {call : Call doc callable}
    {collection : UInt8} {info' : CollectionInfo doc callable} {ids outstanding' : List Nat}
    (hmove : QueueMove connected call collection info outstanding info' ids outstanding')
    (hrun : ∀ position, call = .runTask position → connected = true) :
    Ledger connected info' (sent ++ ids) outstanding' := by
  cases hmove with
  | stay => simpa using h
  | push write hwrite => simpa using h.push hwrite
  | scan diff order getter hcall => exact h.scan getter collection
  | finish position before ids after hcall hout =>
      obtain rfl := hrun position hcall
      subst hout
      simpa using h.finish

end Ledger

/-! ## Every queue of an object -/

/-- **The books of an object** after a run: every queue's, no empty task, and no task at all without a
connection. -/
structure Accounted (database : Database) (x : Config (World doc callable) Event) : Prop where
  ledger : ∀ {collection info}, x.state.object.collections.lookup collection = some info →
    Ledger database.isConnected info (dispatched collection x.history)
      (outstanding collection x.state.submitted)
  nonempty : ∀ task ∈ x.state.submitted, task.transactions ≠ []
  exists_collection : ∀ task ∈ x.state.submitted, task.collection ∈ x.state.object.collections
  offline : database.isConnected = false → x.state.submitted = []

namespace Accounted

variable {database : Database} {x y : Config (World doc callable) Event}

theorem allPresent (h : Accounted database x) : x.state.object.AllPresent :=
  fun hlookup id hid => ((h.ledger hlookup).sound.mem_iff id).mpr hid

/-- A task of the pool shows that there is a connection. -/
theorem connected_of_mem (h : Accounted database x) {task : Task}
    (hmem : task ∈ x.state.submitted) : database.isConnected = true := by
  cases hconn : database.isConnected with
  | true => rfl
  | false =>
      rw [h.offline hconn] at hmem
      exact absurd hmem List.not_mem_nil

/-- With an empty pool and a connection, everything consumed is done. -/
theorem done_of_idle (h : Accounted database x) (hconn : database.isConnected = true)
    (hidle : x.state.submitted = []) {collection : UInt8} {info : CollectionInfo doc callable}
    (hlookup : x.state.object.collections.lookup collection = some info) :
    ∀ id ∈ info.operationsBelow info.firstId, info.isDone id = true := by
  intro id hid
  have hledger := h.ledger hlookup
  rw [hledger.done_iff hconn id (hledger.sent_eq ▸ hid), hidle]
  exact List.not_mem_nil

variable [Bson doc]

/-- The tasks an `update` hands over are not empty and belong to collections of the object. -/
theorem update_tasks (h : Accounted database x) {order : List UInt8}
    (horder : Enumerates order x.state.object.collections) (diff : UInt64)
    (getter : Getter doc callable) {task : Task}
    (hmem : task ∈ (x.state.object.update diff order getter).2.2) :
    task.transactions ≠ [] ∧ task.collection ∈ x.state.object.collections := by
  obtain ⟨info, hlookup, hsent, -⟩ := task_of_update h.allPresent horder hmem
  obtain ⟨hbatch, htask⟩ := mem_sentTasks hsent
  refine ⟨?_, Finmap.mem_of_lookup_eq_some hlookup⟩
  rw [htask]
  exact hbatch

theorem mem_of_step (h : Accounted database x) {call : Call doc callable}
    (hnext : (World.step database).next x call = some y) {collection : UInt8}
    (hmem : collection ∈ x.state.object.collections) : collection ∈ y.state.object.collections := by
  obtain ⟨w, ev, hstep, rfl⟩ := Step.next_eq_some.mp hnext
  obtain ⟨info, hlookup⟩ := Finmap.mem_iff.mp hmem
  obtain ⟨info', hlookup', -⟩ := step_move h.allPresent hstep hlookup
  exact Finmap.mem_of_lookup_eq_some hlookup'

/-- **Every step keeps the books.** -/
theorem step (h : Accounted database x) {call : Call doc callable}
    (hnext : (World.step database).next x call = some y) : Accounted database y := by
  have hmem : ∀ {collection : UInt8}, collection ∈ x.state.object.collections →
      collection ∈ y.state.object.collections := fun hin => h.mem_of_step hnext hin
  obtain ⟨w, ev, hstep, rfl⟩ := Step.next_eq_some.mp hnext
  have hrun : ∀ position, call = .runTask position → database.isConnected = true := by
    rintro position rfl
    cases fires_of_step hstep with
    | push _ _ _ _ _ _ hwrite => exact absurd hwrite.isPush (by simp [Call.isPush])
    | run _ task before after hsubmitted _ =>
        have hmem : task ∈ x.state.submitted := by
          rw [hsubmitted]
          exact List.mem_append_right _ List.mem_cons_self
        exact h.connected_of_mem hmem
  have htasks := submitted_of_step hstep
  refine ⟨?_, ?_, ?_, ?_⟩
  · intro collection info' hlookup'
    dsimp only at hlookup' ⊢
    cases hlookup : x.state.object.collections.lookup collection with
    | none =>
        have := step_absent h.allPresent hstep hlookup
        exact absurd (this.symm.trans hlookup') (by simp)
    | some info =>
        obtain ⟨info'', hlookup'', hmove⟩ := step_move h.allPresent hstep hlookup
        obtain rfl := Option.some.inj (hlookup''.symm.trans hlookup')
        rw [dispatched_append]
        exact (h.ledger hlookup).move hmove hrun
  · intro task htask
    rcases htasks task htask with hold | ⟨diff, order, getter, horder, hnew, -, -⟩
    · exact h.nonempty task hold
    · exact (h.update_tasks horder diff getter hnew).1
  · intro task htask
    rcases htasks task htask with hold | ⟨diff, order, getter, horder, hnew, -, -⟩
    · exact hmem (h.exists_collection task hold)
    · exact hmem (h.update_tasks horder diff getter hnew).2
  · intro hoff
    apply List.eq_nil_iff_forall_not_mem.mpr
    intro task htask
    rcases htasks task htask with hold | ⟨-, -, -, -, -, -, hconn⟩
    · rw [h.offline hoff] at hold
      exact absurd hold List.not_mem_nil
    · rw [hoff] at hconn
      exact absurd hconn (by simp)

end Accounted

theorem accounted_start (database : Database) (executeEvery : UInt64)
    (t : Transaction doc callable) :
    Accounted database (World.start database executeEvery t) where
  ledger := by
    intro collection info hlookup
    dsimp only [World.start, Transaction.init] at hlookup
    rw [Finmap.lookup_mapVals] at hlookup
    obtain ⟨info₀, -, rfl⟩ := Option.map_eq_some_iff.mp hlookup
    refine ⟨⟨Nat.le_refl _, ?_, ?_, ?_⟩, rfl, List.Sublist.refl _, ?_, ?_⟩
    · intro id
      exact iff_of_false Finmap.notMem_empty (Nat.not_lt_zero id)
    · intro id e _ he
      simp at he
    · intro id e he
      simp at he
    · intro _ id hid
      exact absurd hid List.not_mem_nil
    · intro _ id
      simp [CollectionInfo.isDone]
  nonempty := by
    intro task htask
    exact absurd htask List.not_mem_nil
  exists_collection := by
    intro task htask
    exact absurd htask List.not_mem_nil
  offline := fun _ => rfl

/-- **The books are right after every run.** -/
theorem accounted_run [Bson doc] {database : Database} {executeEvery : UInt64}
    {t : Transaction doc callable} {visited : List (Config (World doc callable) Event × Call doc callable)}
    {x : Config (World doc callable) Event}
    (hrun : Run (World.step database) (World.start database executeEvery t) visited x) :
    Accounted database x :=
  hrun.invariant' (Accounted database) (fun h hnext => h.step hnext)
    (accounted_start database executeEvery t)

end Sekkeizu
