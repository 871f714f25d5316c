/-
# Sekkeizu.Database.Batches — what `get_pending_operations` returns.

In a reachable state nothing in the queue is pending or done, so two of the branches of the scan are never
taken, and what is left has a description without flags: the scan takes the longest part of the queue in
which no dependency is blocked and the other entries are all callables or all writes (`Sendable`). The
flag it returns says which. `update` builds its task by that flag, and since an entry keeps its callable as
long as it exists, the task still finds what it expects when it runs (`Batched`).
-/
import Sekkeizu.Database.Ledger


namespace Sekkeizu

open Finmap (Enumerates modifyAll)
open PartialSystem
open Scanner

variable {doc callable : Type*}

/-! ## What may be sent -/

/-- The target of a dependency is there and not done. -/
def Blocked (getter : Getter doc callable) (collection : UInt8) (slot : Nat) (d : Dependency) : Prop :=
  ∃ other e, getter collection slot d.owner = some other ∧
    other.getTransaction collection d.id = some e ∧ e.done = false

theorem dependencyMet_iff {getter : Getter doc callable} {collection : UInt8} {slot : Nat}
    {d : Dependency} : dependencyMet getter collection slot d = true ↔
      ¬ Blocked getter collection slot d := by
  unfold dependencyMet Blocked
  cases getter collection slot d.owner with
  | none => simp
  | some other =>
      cases hentry : other.getTransaction collection d.id with
      | none => simp [hentry]
      | some e => simp [hentry]

/-- A callable, not a dependency. -/
def TransactionInfo.isCallable (e : TransactionInfo doc callable) : Bool :=
  e.dependency.isNone && e.callable.isSome

/-- An operation on documents. -/
def TransactionInfo.isWrite (e : TransactionInfo doc callable) : Bool :=
  e.dependency.isNone && e.callable.isNone

/-- **What one scan may take**: no dependency is blocked, and the other entries are all callables or all
writes. -/
structure Sendable (getter : Getter doc callable) (collection : UInt8)
    (entries : List (Nat × TransactionInfo doc callable)) : Prop where
  unblocked : ∀ q ∈ entries, ∀ d, q.2.dependency = some d → ¬ Blocked getter collection q.1 d
  uniform : (∀ q ∈ entries, q.2.dependency = none → q.2.callable.isSome = true) ∨
    (∀ q ∈ entries, q.2.dependency = none → q.2.callable = none)

/-- Neither pending nor done. -/
def Fresh (q : Nat × TransactionInfo doc callable) : Prop := q.2.pending = false ∧ q.2.done = false

/-! ## The automaton on fresh entries -/

section Automaton

variable {getter : Getter doc callable} {collection : UInt8}

/-- **One fresh entry**: the flags record what it is, and exclude what it is not. -/
theorem acceptEntry_fresh {mode mode' : Bool × Bool} {q : Nat × TransactionInfo doc callable}
    (hfresh : Fresh q) :
    acceptEntry getter collection mode q = some mode' ↔
      (∀ d, q.2.dependency = some d → ¬ Blocked getter collection q.1 d) ∧
        (q.2.isCallable = true → mode.1 = false) ∧ (q.2.isWrite = true → mode.2 = false) ∧
        (mode.1 || q.2.isWrite, mode.2 || q.2.isCallable) = mode' := by
  obtain ⟨hpending, hdone⟩ := hfresh
  obtain ⟨wrote, called⟩ := mode
  simp only [acceptEntry, hpending, hdone, TransactionInfo.isCallable, TransactionInfo.isWrite,
    ← dependencyMet_iff]
  cases hdep : q.2.dependency with
  | some d => simp
  | none =>
      cases q.2.callable with
      | some f => cases wrote <;> simp
      | none => cases called <;> simp

theorem exclusive (e : TransactionInfo doc callable) (h : e.isCallable = true) : e.isWrite = false := by
  simp_all [TransactionInfo.isCallable, TransactionInfo.isWrite]

/-- **What the automaton reads of a fresh queue**, from any flags. -/
theorem accepts_fresh_iff {mode : Bool × Bool} {entries : List (Nat × TransactionInfo doc callable)}
    (hfresh : ∀ q ∈ entries, Fresh q) :
    Accepts (acceptEntry getter collection) mode entries ↔
      (∀ q ∈ entries, ∀ d, q.2.dependency = some d → ¬ Blocked getter collection q.1 d) ∧
        (entries.any (·.2.isCallable) = true → mode.1 = false ∧ entries.any (·.2.isWrite) = false) ∧
        (entries.any (·.2.isWrite) = true → mode.2 = false) := by
  induction entries generalizing mode with
  | nil => simp [Accepts]
  | cons q entries ih =>
      obtain ⟨hq, hentries⟩ := List.forall_mem_cons.mp hfresh
      have hexclusive := exclusive q.2
      rw [Accepts, List.forall_mem_cons, List.any_cons, List.any_cons]
      constructor
      · rintro ⟨mode', hq', hrest⟩
        obtain ⟨hunblocked, hcallable, hwrite, rfl⟩ := (acceptEntry_fresh hq).mp hq'
        obtain ⟨hunblocked', hcallable', hwrite'⟩ := (ih hentries).mp hrest
        refine ⟨⟨hunblocked, hunblocked'⟩, ?_, ?_⟩
        · grind
        · grind
      · rintro ⟨⟨hunblocked, hunblocked'⟩, hcallable, hwrite⟩
        refine ⟨_, (acceptEntry_fresh hq).mpr ⟨hunblocked, ?_, ?_, rfl⟩,
          (ih hentries).mpr ⟨hunblocked', ?_, ?_⟩⟩
        · grind
        · grind
        · grind
        · grind

/-- From a fresh start the automaton reads what may be sent. -/
theorem accepts_iff_sendable {entries : List (Nat × TransactionInfo doc callable)}
    (hfresh : ∀ q ∈ entries, Fresh q) :
    Accepts (acceptEntry getter collection) (false, false) entries ↔
      Sendable getter collection entries := by
  have huniform : (entries.any (·.2.isCallable) = true → entries.any (·.2.isWrite) = false) ↔
      (∀ q ∈ entries, q.2.dependency = none → q.2.callable.isSome = true) ∨
        (∀ q ∈ entries, q.2.dependency = none → q.2.callable = none) := by
    rw [← Bool.not_eq_true, List.any_eq_true, List.any_eq_true, imp_iff_not_or, or_comm]
    simp only [TransactionInfo.isCallable, TransactionInfo.isWrite, Bool.and_eq_true,
      Option.isNone_iff_eq_none, Option.isSome_iff_ne_none, not_exists, not_and, not_not, ne_eq]
  rw [accepts_fresh_iff hfresh]
  constructor
  · rintro ⟨hunblocked, hexclusive, -⟩
    exact ⟨hunblocked, huniform.mp fun h => (hexclusive h).2⟩
  · rintro ⟨hunblocked, hsame⟩
    exact ⟨hunblocked, fun h => ⟨rfl, huniform.mpr hsame h⟩, fun _ => rfl⟩

/-- The first flag, after fresh entries, says whether there was a write. -/
theorem finalMode_fresh {mode : Bool × Bool} {entries : List (Nat × TransactionInfo doc callable)}
    (hfresh : ∀ q ∈ entries, Fresh q)
    (haccepts : Accepts (acceptEntry getter collection) mode entries) :
    (finalMode (acceptEntry getter collection) mode entries).1 =
      (mode.1 || entries.any (·.2.isWrite)) := by
  induction entries generalizing mode with
  | nil => simp
  | cons q entries ih =>
      obtain ⟨hq, hentries⟩ := List.forall_mem_cons.mp hfresh
      obtain ⟨mode', hq', hrest⟩ := haccepts
      obtain ⟨-, -, -, rfl⟩ := (acceptEntry_fresh hq).mp hq'
      rw [finalMode_taken hq', ih hentries hrest, List.any_cons, Bool.or_assoc]

end Automaton

/-! ## One scan of a sound queue -/

section Queue

variable [Bson doc] {info : CollectionInfo doc callable} (getter : Getter doc callable) (collection : UInt8)

/-- **Nothing that has not been consumed is pending or done.** -/
theorem CollectionInfo.Sound.fresh_of_mem_queue (h : info.Sound) :
    ∀ q ∈ info.queue, info.transactions.lookup q.1 = some q.2 ∧ info.firstId ≤ q.1 ∧ Fresh q := by
  intro q hq
  obtain ⟨id, hid, rfl⟩ := List.mem_map.mp hq
  obtain ⟨hlo, hhi⟩ := List.mem_range'_1.mp hid
  have hlookup := h.lookup_eq (show id < info.currentId by omega)
  dsimp only
  rw [hlookup, Option.getD_some]
  exact ⟨rfl, hlo, h.fresh hlo hlookup⟩

/-- **What one scan takes.** -/
theorem CollectionInfo.Sound.consumed_isLongestPrefix (h : info.Sound) :
    IsLongestPrefix (Sendable getter collection) info.queue (info.consumed getter collection) := by
  apply isLongestPrefix_consumed
  intro p hp
  apply accepts_iff_sendable
  intro q hq
  exact (h.fresh_of_mem_queue q (hp.subset hq)).2.2

theorem CollectionInfo.Sound.fresh_of_mem_consumed (h : info.Sound) :
    ∀ q ∈ info.consumed getter collection,
      info.transactions.lookup q.1 = some q.2 ∧ info.firstId ≤ q.1 ∧ Fresh q := by
  intro q hq
  exact h.fresh_of_mem_queue q ((consumed_isPrefix _ _).subset hq)

/-- What it sends. -/
theorem CollectionInfo.Sound.batch_eq_operations (h : info.Sound) :
    info.batch getter collection =
      ((info.consumed getter collection).filter (·.2.dependency.isNone)).map Prod.fst := by
  rw [CollectionInfo.batch, sentIds]
  congr 1
  apply List.filter_congr
  intro q hq
  rw [TransactionInfo.sent, (h.fresh_of_mem_consumed getter collection q hq).2.2.2, Bool.not_false,
    Bool.true_and]

/-- What it takes off the counter. -/
theorem CollectionInfo.Sound.sentCallables_eq (h : info.Sound) :
    sentCallables (info.consumed getter collection) =
      (info.consumed getter collection).countP (·.2.isCallable) := by
  apply List.countP_congr
  intro q hq
  rw [TransactionInfo.sent, (h.fresh_of_mem_consumed getter collection q hq).2.2.2, Bool.not_false,
    Bool.true_and, TransactionInfo.isCallable]

/-- What it answers. -/
theorem CollectionInfo.Sound.hasNonCallable_eq (h : info.Sound) :
    info.hasNonCallable getter collection =
      (info.consumed getter collection).any (·.2.isWrite) := by
  have hfresh : ∀ q ∈ info.consumed getter collection, Fresh q := fun q hq =>
    (h.fresh_of_mem_consumed getter collection q hq).2.2
  have hmode := finalMode_fresh hfresh (accepts_consumed (false, false) info.queue)
  rw [Bool.false_or] at hmode
  rw [CollectionInfo.hasNonCallable, ← finalMode_consumed]
  exact hmode

end Queue

/-- **What a call returns** that takes `taken` from the head of a queue: the entries that are no
dependencies, in order, and whether there are writes among them; these are marked pending and no others,
`first_id` moves past what was taken, the counter falls by the callables, and the rest of the object is as it
was. -/
structure Transaction.Takes (t : Transaction doc callable) (collection : UInt8)
    (info : CollectionInfo doc callable) (taken : List (Nat × TransactionInfo doc callable))
    (r : List Nat × Bool × Transaction doc callable) : Prop where
  ids : r.1 = (taken.filter (·.2.dependency.isNone)).map Prod.fst
  hasNonCallable : r.2.1 = true ↔ ∃ q ∈ taken, q.2.isWrite = true
  object : ∃ info', r.2.2 = { t with
      collections := t.collections.insert collection info'
      pendingCallables := t.pendingCallables - UInt8.ofNat (taken.countP (·.2.isCallable)) } ∧
    info'.firstId = info.firstId + taken.length ∧ info'.currentId = info.currentId ∧
    ∀ id, info'.transactions.lookup id =
      if id ∈ r.1 then (info.transactions.lookup id).map TransactionInfo.setPending
      else info.transactions.lookup id

theorem CollectionInfo.Sound.takes [Bson doc] {t : Transaction doc callable} {collection : UInt8}
    {info : CollectionInfo doc callable} (h : info.Sound)
    (hlookup : t.collections.lookup collection = some info) (getter : Getter doc callable) :
    t.Takes collection info (info.consumed getter collection)
      (t.getPendingOperations collection getter) := by
  rw [getPendingOperations_eq hlookup fun id hid => (h.mem_iff id).mpr hid]
  refine ⟨h.batch_eq_operations getter collection, ?_, info.scanned getter collection, ?_, rfl, rfl, ?_⟩
  · rw [h.hasNonCallable_eq getter collection, List.any_eq_true]
  · rw [h.sentCallables_eq getter collection]
  · exact CollectionInfo.Sound.lookup_scanned getter collection

/-! ## Tasks and the entries they hold -/

/-- The ids are entries of the queue and no dependencies, and have callables or not, as is said. -/
def CollectionInfo.Holds (info : CollectionInfo doc callable) (callables : Bool) (ids : List Nat) :
    Prop :=
  ∀ id ∈ ids, ∃ e, info.transactions.lookup id = some e ∧ e.dependency = none ∧
    e.callable.isSome = callables

/-- **The entries of a task are what it takes them for**: each has a callable, if the task calls it, and
none has, if the task puts it into a bulk. -/
def Task.Batched (task : Task) (t : Transaction doc callable) : Prop :=
  ∃ info, t.collections.lookup task.collection = some info ∧ info.Holds task.callables task.transactions

/-- Whatever moves a queue leaves the callables and dependencies of its entries alone. -/
theorem QueueMove.holds [Bson doc] {connected : Bool} {call : Call doc callable} {collection : UInt8}
    {info info' : CollectionInfo doc callable} {out ids out' : List Nat}
    (hmove : QueueMove connected call collection info out info' ids out') (hsound : info.Sound)
    {callables : Bool} {held : List Nat} (h : info.Holds callables held) : info'.Holds callables held := by
  intro id hid
  obtain ⟨e, he, hdep, hcallable⟩ := h id hid
  obtain ⟨e', he', hdep', hcallable', -⟩ := hmove.keeps hsound he
  exact ⟨e', he', hdep'.trans hdep, hcallable' ▸ hcallable⟩

/-- What may be sent together is of one kind, and one write shows which. -/
theorem Sendable.callable_isSome {getter : Getter doc callable} {collection : UInt8}
    {entries : List (Nat × TransactionInfo doc callable)} (h : Sendable getter collection entries)
    {q : Nat × TransactionInfo doc callable} (hq : q ∈ entries) (hdep : q.2.dependency = none) :
    q.2.callable.isSome = !entries.any (·.2.isWrite) := by
  rcases h.uniform with hcallables | hwrites
  · have hnone : entries.any (·.2.isWrite) = false := by
      apply List.any_eq_false.mpr
      intro q' hq' hwrite
      rw [TransactionInfo.isWrite, Bool.and_eq_true, Option.isNone_iff_eq_none,
        Option.isNone_iff_eq_none] at hwrite
      have hsome := hcallables q' hq' hwrite.1
      rw [hwrite.2] at hsome
      exact absurd hsome Bool.false_ne_true
    rw [hnone, hcallables q hq hdep, Bool.not_false]
  · have hnone : q.2.callable = none := hwrites q hq hdep
    have hany : entries.any (·.2.isWrite) = true := by
      refine List.any_eq_true.mpr ⟨q, hq, ?_⟩
      rw [TransactionInfo.isWrite, hdep, hnone]
      rfl
    rw [hany, hnone, Option.isSome_none, Bool.not_true]

/-- A scan hands over entries of the kind its flag says. -/
theorem CollectionInfo.Sound.holds_scanned [Bson doc] {info : CollectionInfo doc callable} (h : info.Sound)
    (getter : Getter doc callable) (collection : UInt8) :
    (info.scanned getter collection).Holds (!info.hasNonCallable getter collection)
      (info.batch getter collection) := by
  intro id hid
  obtain ⟨q, hq, rfl⟩ := List.mem_map.mp (h.batch_eq_operations getter collection ▸ hid)
  obtain ⟨hmem, hdep⟩ := List.mem_filter.mp hq
  have hdep' : q.2.dependency = none := Option.isNone_iff_eq_none.mp hdep
  have hlookup := (h.fresh_of_mem_consumed getter collection q hmem).1
  refine ⟨q.2.setPending, ?_, hdep', ?_⟩
  · rw [CollectionInfo.Sound.lookup_scanned, if_pos hid, hlookup, Option.map_some]
  · rw [h.hasNonCallable_eq getter collection]
    exact (h.consumed_isLongestPrefix getter collection).2.1.callable_isSome hmem hdep'

section Runs

variable [Bson doc] {database : Database} {x y : Config (World doc callable) Event}

/-- **An `update` builds every task of the entries it takes them for.** -/
theorem Accounted.batched_of_update (h : Accounted database x) {order : List UInt8}
    (horder : Enumerates order x.state.object.collections) {diff : UInt64} {getter : Getter doc callable}
    {task : Task} (htask : task ∈ (x.state.object.update diff order getter).2.2) :
    task.Batched (x.state.object.update diff order getter).2.1 := by
  obtain ⟨info, hlookup, hsent, hscanned⟩ := task_of_update h.allPresent horder htask
  have hholds := (h.ledger hlookup).sound.holds_scanned getter task.collection
  refine ⟨_, hscanned, ?_⟩
  rw [(mem_sentTasks hsent).2]
  exact hholds

/-- One step: old tasks keep their entries, and new ones come out of an `update`. -/
theorem Accounted.batched_step (h : Accounted database x)
    (hbatched : ∀ task ∈ x.state.submitted, task.Batched x.state.object) {call : Call doc callable}
    (hnext : (World.step database).next x call = some y) :
    ∀ task ∈ y.state.submitted, task.Batched y.state.object := by
  obtain ⟨w, ev, hstep, rfl⟩ := Step.next_eq_some.mp hnext
  intro task htask
  rcases submitted_of_step hstep task htask with hold | ⟨diff, order, getter, horder, hnew, hobject, -⟩
  · obtain ⟨info, hlookup, hholds⟩ := hbatched task hold
    obtain ⟨info', hlookup', hmove⟩ := step_move h.allPresent hstep hlookup
    exact ⟨info', hlookup', hmove.holds (h.ledger hlookup).sound hholds⟩
  · have hnow := h.batched_of_update horder hnew
    rw [← hobject] at hnow
    exact hnow

theorem batched_run {executeEvery : UInt64} {t : Transaction doc callable}
    {visited : List (Config (World doc callable) Event × Call doc callable)}
    (hrun : Run (World.step database) (World.start database executeEvery t) visited x) :
    ∀ task ∈ x.state.submitted, task.Batched x.state.object := by
  apply hrun.invariant_under (fun haccounted hnext => haccounted.step hnext)
    (fun y => ∀ task ∈ y.state.submitted, task.Batched y.state.object) ?_
    (accounted_start database executeEvery t)
  · intro task htask
    exact absurd htask List.not_mem_nil
  · intro y z call haccounted hbatched hnext
    exact haccounted.batched_step hbatched hnext

/-- **What `get_pending_operations` returns** in a reachable state, and what becomes of it. The queue holds
entries that are neither pending nor done; the call takes the longest part of it that may be sent; and every
task, when `update` builds it and when the pool runs it, has a callable in each of its entries or in none, as
it expects. -/
theorem pending_operations_spec {executeEvery : UInt64} {t : Transaction doc callable}
    {visited : List (Config (World doc callable) Event × Call doc callable)}
    (hrun : Run (World.step database) (World.start database executeEvery t) visited x)
    {collection : UInt8} {info : CollectionInfo doc callable}
    (hinfo : x.state.object.collections.lookup collection = some info) (getter : Getter doc callable) :
    (∀ q ∈ info.queue, info.transactions.lookup q.1 = some q.2 ∧ q.2.pending = false ∧ q.2.done = false) ∧
      (∃ taken, IsLongestPrefix (Sendable getter collection) info.queue taken ∧
        x.state.object.Takes collection info taken
          (x.state.object.getPendingOperations collection getter)) ∧
      (∀ diff order, Enumerates order x.state.object.collections →
        ∀ task ∈ (x.state.object.update diff order getter).2.2,
          task.Batched (x.state.object.update diff order getter).2.1) ∧
      ∀ task ∈ x.state.submitted, task.Batched x.state.object := by
  have haccounted := accounted_run hrun
  have hsound := (haccounted.ledger hinfo).sound
  refine ⟨?_, ?_, ?_, batched_run hrun⟩
  · intro q hq
    obtain ⟨hlookup, -, hfresh⟩ := hsound.fresh_of_mem_queue q hq
    exact ⟨hlookup, hfresh⟩
  · exact ⟨_, hsound.consumed_isLongestPrefix getter collection, hsound.takes hinfo getter⟩
  · intro diff order horder task htask
    exact haccounted.batched_of_update horder htask

end Runs

/-- Two writes around a dependency on an owner nobody knows, and a callable behind them: the writes are
sent. -/
theorem pending_operations_spec_two_writes :
    ∃ (visited : List (Config (World Unit Unit) Event × Call Unit Unit))
      (x : Config (World Unit Unit) Event) (info : CollectionInfo Unit Unit)
      (taken : List (Nat × TransactionInfo Unit Unit)),
      visited.map Prod.snd = [.pushOperation 0 .insert (), .pushDependency 0 7 3,
        .pushOperation 0 .deleteOne (), .pushCallable 0 ()] ∧
      Run (World.step .single) (World.start .single 0 .blank) visited x ∧
      IsLongestPrefix (Sendable .unknown 0) info.queue taken ∧
      x.state.object.Takes 0 info taken (x.state.object.getPendingOperations 0 .unknown) ∧
      (x.state.object.getPendingOperations 0 .unknown).1 = [0, 2] := by
  obtain ⟨x, hx⟩ := Option.isSome_iff_exists.mp (show (exec (World.step .single)
    (World.start .single 0 (Transaction.blank : Transaction Unit Unit))
    [.pushOperation 0 .insert (), .pushDependency 0 7 3, .pushOperation 0 .deleteOne (),
      .pushCallable 0 ()]).isSome = true by decide)
  have hstate : (some x).map (fun x => ((x.state.object.collections.lookup 0).isSome,
      (x.state.object.getPendingOperations 0 .unknown).1)) = some (true, [0, 2]) := by
    rw [← hx]
    decide
  simp only [Option.map_some, Option.some.injEq, Prod.mk.injEq] at hstate
  obtain ⟨hsome, hsent⟩ := hstate
  obtain ⟨info, hinfo⟩ := Option.isSome_iff_exists.mp hsome
  obtain ⟨visited, hrun, hacts⟩ := run_of_exec hx
  obtain ⟨-, ⟨taken, hlongest, htakes⟩, -⟩ := pending_operations_spec hrun hinfo .unknown
  exact ⟨visited, x, info, taken, hacts, hrun, hlongest, htakes, hsent⟩

end Sekkeizu
