/-
# Sekkeizu.Database.Dispatch — in which order entries are handed over, and in which order they run.

Handing over is first in, first out without loss or repetition: after any run, the batches of a
collection, one after the other, are exactly its operations below `first_id` (`dispatch_fifo`).

Running is not. The scan starts at `first_id`, past everything dispatched so far, so its test for
pending entries never sees an entry that is still pending: a second `update` dispatches a second task
of the same collection while the first is outstanding, and the pool may run the second one first
(`callable_overtakes_write`). What an entry may rely on is decided by the pool alone
(`push_order_iff_oldest_first`).
-/
import Sekkeizu.Database.Ledger


namespace Sekkeizu

open PartialSystem

variable {doc callable : Type*}

/-! ## First in, first out -/

theorem QueueMove.first_le [Bson doc] {connected : Bool} {call : Call doc callable} {collection : UInt8}
    {info info' : CollectionInfo doc callable} {out ids out' : List Nat}
    (h : QueueMove connected call collection info out info' ids out') :
    info.firstId ≤ info'.firstId := by
  cases h with
  | stay => exact Nat.le_refl _
  | push => exact Nat.le_refl _
  | scan => exact Nat.le_add_right _ _
  | finish => exact Nat.le_refl _

/-- A queue stays, and its `firstId` never moves back. -/
theorem first_le_of_run [Bson doc] {database : Database} {x y : Config (World doc callable) Event}
    {later : List (Config (World doc callable) Event × Call doc callable)}
    (h : Accounted database x) (hrun : Run (World.step database) x later y) {collection : UInt8}
    {info : CollectionInfo doc callable}
    (hlookup : x.state.object.collections.lookup collection = some info) :
    ∃ info', y.state.object.collections.lookup collection = some info' ∧
      info.firstId ≤ info'.firstId := by
  apply hrun.invariant_under (fun hy hnext => hy.step hnext)
    (fun y => ∃ info', y.state.object.collections.lookup collection = some info' ∧
      info.firstId ≤ info'.firstId) ?_ h ⟨info, hlookup, Nat.le_refl _⟩
  rintro y z call hy ⟨info', hinfo', hle⟩ hnext
  obtain ⟨w, ev, hstep, rfl⟩ := Step.next_eq_some.mp hnext
  obtain ⟨info'', hinfo'', hmove⟩ := step_move hy.allPresent hstep hinfo'
  exact ⟨info'', hinfo'', Nat.le_trans hle hmove.first_le⟩

/-- **First in, first out.** After any run from `init`, for every collection: the dispatched batches in
dispatch order are its operations and callables below `first_id` in id order, each once; no dependency
is among them; `first_id` is at most `current_id` and never decreases; and the ids in the table are
exactly those below `current_id`. -/
theorem dispatch_fifo [Bson doc] {database : Database} {executeEvery : UInt64} {t : Transaction doc callable}
    {visited : List (Config (World doc callable) Event × Call doc callable)}
    {x : Config (World doc callable) Event}
    (hrun : Run (World.step database) (World.start database executeEvery t) visited x)
    {collection : UInt8} {info : CollectionInfo doc callable}
    (hlookup : x.state.object.collections.lookup collection = some info) :
    dispatched collection x.history = (List.range info.firstId).filter info.isOperation ∧
      (dispatched collection x.history).Pairwise (· < ·) ∧
      (∀ id e, info.transactions.lookup id = some e → e.dependency ≠ none →
        id ∉ dispatched collection x.history) ∧
      info.firstId ≤ info.currentId ∧
      (∀ id, id ∈ info.transactions ↔ id < info.currentId) ∧
      (∀ later y info', Run (World.step database) x later y →
        y.state.object.collections.lookup collection = some info' →
        info.firstId ≤ info'.firstId) := by
  have haccounted := accounted_run hrun
  have hledger := haccounted.ledger hlookup
  refine ⟨hledger.sent_eq, hledger.sent_pairwise, ?_, hledger.sound.first_le,
    hledger.sound.mem_iff, ?_⟩
  · intro id e he hdep hmem
    rw [hledger.sent_eq, CollectionInfo.mem_operationsBelow, CollectionInfo.isOperation_iff] at hmem
    obtain ⟨-, e', he', hnone⟩ := hmem
    rw [he] at he'
    exact hdep (Option.some.inj he' ▸ hnone)
  · intro later y info' hlater hinfo'
    obtain ⟨info'', hinfo'', hle⟩ := first_le_of_run haccounted hlater hlookup
    rw [hinfo'] at hinfo''
    exact Option.some.inj hinfo'' ▸ hle

/-- Two writes around a dependency, dispatched by two updates. -/
theorem dispatch_fifo_two_batches :
    ∃ (x : Config (World Unit Unit) Event) (info : CollectionInfo Unit Unit),
      exec (World.step .single) (World.start .single 0 .blank)
        [.pushOperation 0 .insert (), .update 0 [0] .unknown, .pushDependency 0 7 3,
          .pushOperation 0 .deleteOne (), .update 0 [0] .unknown] = some x ∧
      x.state.object.collections.lookup 0 = some info ∧
      dispatched 0 x.history = [0, 2] ∧
      dispatched 0 x.history = (List.range info.firstId).filter info.isOperation := by
  obtain ⟨x, hx⟩ := Option.isSome_iff_exists.mp (show (exec (World.step .single)
    (World.start .single 0 (Transaction.blank : Transaction Unit Unit))
    [.pushOperation 0 .insert (), .update 0 [0] .unknown, .pushDependency 0 7 3,
      .pushOperation 0 .deleteOne (), .update 0 [0] .unknown]).isSome = true by decide)
  have hinfo : ((some x).bind fun x => x.state.object.collections.lookup 0).isSome = true := by
    rw [← hx]
    decide
  obtain ⟨info, hlookup⟩ := Option.isSome_iff_exists.mp hinfo
  have hsent : (some x).map (fun x => dispatched 0 x.history) = some [0, 2] := by
    rw [← hx]
    decide
  obtain ⟨visited, hrun, -⟩ := run_of_exec hx
  exact ⟨x, info, hx, hlookup, Option.some.inj hsent, (dispatch_fifo hrun hlookup).1⟩

/-! ## The order of effects -/

/-- Running `task` now takes effect in push order: every operation of its collection with a smaller id
than one of its entries is done, or belongs to the task. -/
def KeepsPushOrder (w : World doc callable) (task : Task) : Prop :=
  ∀ info, w.object.collections.lookup task.collection = some info →
    ∀ entry ∈ task.transactions, ∀ id < entry, info.isOperation id = true →
      info.isDone id = true ∨ id ∈ task.transactions

/-- Whatever task the step runs, it takes effect in push order. -/
def InPushOrder (x : Config (World doc callable) Event) (call : Call doc callable) : Prop :=
  ∀ position task, call = .runTask position → x.state.submitted[position]? = some task →
    KeepsPushOrder x.state task

/-- Whatever task the step runs, no older task of its collection is still in the pool. -/
def OldestFirst (x : Config (World doc callable) Event) (call : Call doc callable) : Prop :=
  ∀ position task, call = .runTask position → x.state.submitted[position]? = some task →
    ∀ earlier < position, ∀ other, x.state.submitted[earlier]? = some other →
      other.collection ≠ task.collection

instance (x : Config (World doc callable) Event) (call : Call doc callable) :
    Decidable (OldestFirst x call) :=
  match call with
  | .runTask position =>
    decidable_of_iff (∀ task ∈ x.state.submitted[position]?, ∀ earlier < position,
      ∀ other ∈ x.state.submitted[earlier]?, other.collection ≠ task.collection) (by
        constructor
        · rintro h _ task heq htask earlier hlt other hother
          obtain rfl := Call.runTask.inj heq
          exact h task htask earlier hlt other hother
        · intro h task htask earlier hlt other hother
          exact h position task rfl htask earlier hlt other hother)
  | .pushOperation .. => .isTrue (by simp [OldestFirst])
  | .pushOperation₂ .. => .isTrue (by simp [OldestFirst])
  | .pushCallable .. => .isTrue (by simp [OldestFirst])
  | .pushDependency .. => .isTrue (by simp [OldestFirst])
  | .update .. => .isTrue (by simp [OldestFirst])
  | .flagDeletion => .isTrue (by simp [OldestFirst])
  | .unflagDeletion => .isTrue (by simp [OldestFirst])

/-- The pool around a task: the ids outstanding for its collection before it, its own, and after it. -/
theorem outstanding_split {before after : List Task} (task : Task) :
    outstanding task.collection (before ++ task :: after) =
      outstanding task.collection before ++ task.transactions ++
        outstanding task.collection after := by
  rw [outstanding_append, ← List.singleton_append, outstanding_append, outstanding_singleton_self,
    List.append_assoc]

/-- Before the oldest task of a collection nothing is outstanding for it. -/
theorem outstanding_eq_nil_of_oldest {before after : List Task} {task : Task}
    (holdest : ∀ earlier < before.length, ∀ other, (before ++ task :: after)[earlier]? = some other →
      other.collection ≠ task.collection) : outstanding task.collection before = [] := by
  apply List.eq_nil_iff_forall_not_mem.mpr
  intro id hid
  obtain ⟨other, hother, hsame, -⟩ := mem_outstanding.mp hid
  obtain ⟨earlier, hearlier, hget⟩ := List.mem_iff_getElem.mp hother
  refine holdest earlier hearlier other ?_ hsame
  rw [List.getElem?_append_left hearlier, List.getElem?_eq_getElem hearlier, hget]

/-- A task that no older task of its collection precedes takes effect in push order. -/
theorem keepsPushOrder_of_oldest {database : Database} {x : Config (World doc callable) Event}
    (h : Accounted database x) {before after : List Task} {task : Task}
    (hsubmitted : x.state.submitted = before ++ task :: after)
    (holdest : outstanding task.collection before = []) : KeepsPushOrder x.state task := by
  intro info hlookup entry hentry id hlt hop
  have hconn := h.connected_of_mem (show task ∈ x.state.submitted by rw [hsubmitted]; simp)
  have hledger := h.ledger hlookup
  rw [hsubmitted, outstanding_split, holdest, List.nil_append] at hledger
  have hfirst := hledger.lt_first (hledger.sublist.subset (List.mem_append_left _ hentry))
  have hsent : id ∈ dispatched task.collection x.history := by
    rw [hledger.sent_eq]
    exact CollectionInfo.mem_operationsBelow.mpr ⟨by omega, hop⟩
  by_cases hdone : info.isDone id = true
  · exact Or.inl hdone
  · right
    have hout := (hledger.done_iff hconn id hsent).not.mp hdone
    rw [not_not] at hout
    rcases List.mem_append.mp hout with hown | hlater
    · exact hown
    · -- what is outstanding behind the task has larger ids
      have := hledger.outstanding_pairwise.lt_of_append hentry hlater
      omega

/-- A task that an older task of its collection precedes does not. -/
theorem not_keepsPushOrder_of_older {database : Database} {x : Config (World doc callable) Event}
    (h : Accounted database x) {before after : List Task} {task other : Task}
    (hsubmitted : x.state.submitted = before ++ task :: after) (hother : other ∈ before)
    (hsame : other.collection = task.collection) : ¬ KeepsPushOrder x.state task := by
  intro hkeeps
  have htask : task ∈ x.state.submitted := by
    rw [hsubmitted]
    simp
  have hconn := h.connected_of_mem htask
  obtain ⟨info, hlookup⟩ := Finmap.mem_iff.mp (h.exists_collection task htask)
  have hledger := h.ledger hlookup
  rw [hsubmitted, outstanding_split] at hledger
  obtain ⟨entry, hentry⟩ := List.exists_mem_of_ne_nil _ (h.nonempty task htask)
  obtain ⟨id, hid⟩ := List.exists_mem_of_ne_nil _
    (h.nonempty other (by rw [hsubmitted]; exact List.mem_append_left _ hother))
  have hbefore : id ∈ outstanding task.collection before :=
    mem_outstanding.mpr ⟨other, hother, hsame, hid⟩
  have hsorted := (List.pairwise_append.mp hledger.outstanding_pairwise).1
  have hout := List.mem_append_left (outstanding task.collection after)
    (List.mem_append_left task.transactions hbefore)
  have hsent := hledger.sublist.subset hout
  have hop := (CollectionInfo.mem_operationsBelow.mp (hledger.sent_eq ▸ hsent)).2
  rcases hkeeps info hlookup entry hentry id (hsorted.lt_of_append hbefore hentry) hop with
    hdone | hown
  · exact (hledger.done_iff hconn id hsent).mp hdone hout
  · exact Nat.lt_irrefl _ (hsorted.lt_of_append hbefore hown)

/-- **Push order is oldest-first.** A run's tasks all take effect in push order exactly when the pool
ran, each time, the oldest task it held for that collection. -/
theorem push_order_iff_oldest_first [Bson doc] {database : Database} {executeEvery : UInt64}
    {t : Transaction doc callable}
    {visited : List (Config (World doc callable) Event × Call doc callable)}
    {x : Config (World doc callable) Event}
    (hrun : Run (World.step database) (World.start database executeEvery t) visited x) :
    Throughout InPushOrder visited ↔ Throughout OldestFirst visited := by
  refine hrun.forall_iff (Accounted database) InPushOrder OldestFirst
    (fun h _ hnext => h.step hnext) ?_ (accounted_start database executeEvery t)
  intro y z call h _
  refine forall₂_congr fun position task => forall₂_congr fun _ hposition => ?_
  obtain ⟨before, after, hsubmitted, hlen, -⟩ := List.split_of_getElem? hposition
  constructor
  · intro hkeeps earlier hearlier other hother hsame
    refine not_keepsPushOrder_of_older h hsubmitted ?_ hsame hkeeps
    rw [hsubmitted, List.getElem?_append_left (by omega)] at hother
    exact List.mem_of_getElem? hother
  · intro holdest
    apply keepsPushOrder_of_oldest h hsubmitted
    rw [hsubmitted, ← hlen] at holdest
    exact outstanding_eq_nil_of_oldest holdest

/-- The writes of a collection are still pending when a callable pushed after them runs: the second
`update` dispatches it, and the pool picks it first. -/
theorem callable_overtakes_write :
    ∃ (visited : List (Config (World Unit Unit) Event × Call Unit Unit))
      (x : Config (World Unit Unit) Event),
      Run (World.step .single) (World.start .single 0 .blank) visited x ∧
        ¬ Throughout InPushOrder visited := by
  obtain ⟨y, hy⟩ := Option.isSome_iff_exists.mp (show (exec (World.step .single)
    (World.start .single 0 (Transaction.blank : Transaction Unit Unit))
    [.pushOperation 0 .insert (), .update 0 [0] .unknown, .pushCallable 0 (),
      .update 0 [0] .unknown]).isSome = true by decide)
  have hnext : ((some y).bind fun y => (World.step .single).next y (.runTask 1)).isSome = true := by
    rw [← hy]
    decide
  obtain ⟨z, hz⟩ := Option.isSome_iff_exists.mp hnext
  obtain ⟨visited, hrun, -⟩ := run_of_exec_snoc hy hz
  refine ⟨_, z, hrun, fun hall => ?_⟩
  have hstep : InPushOrder y (.runTask 1) := (throughout_snoc.mp hall).2
  have htask : (some y).bind (fun y => y.state.submitted[1]?) = some ⟨0, true, [1]⟩ := by
    rw [← hy]
    decide
  have hinfo : ((some y).bind fun y => y.state.object.collections.lookup 0).map
      (fun info => (info.isOperation 0, info.isDone 0)) = some (true, false) := by
    rw [← hy]
    decide
  obtain ⟨info, hlookup, hflags⟩ := Option.map_eq_some_iff.mp hinfo
  obtain ⟨hop, hpending⟩ := Prod.mk.inj hflags
  rcases hstep 1 _ rfl htask info hlookup 1 (List.mem_singleton_self 1) 0 Nat.one_pos hop with
    hdone | hown
  · exact absurd (hpending.symm.trans hdone) (by simp)
  · simp at hown

/-- The same two tasks, run as they were submitted. -/
theorem push_order_iff_oldest_first_in_turn :
    ∃ (visited : List (Config (World Unit Unit) Event × Call Unit Unit))
      (x : Config (World Unit Unit) Event),
      visited.map Prod.snd = [.pushOperation 0 .insert (), .update 0 [0] .unknown,
        .pushCallable 0 (), .update 0 [0] .unknown, .runTask 0, .runTask 0] ∧
      Run (World.step .single) (World.start .single 0 .blank) visited x ∧
      (Throughout InPushOrder visited ↔ Throughout OldestFirst visited) := by
  obtain ⟨x, hx⟩ := Option.isSome_iff_exists.mp (show (exec (World.step .single)
    (World.start .single 0 (Transaction.blank : Transaction Unit Unit))
    [.pushOperation 0 .insert (), .update 0 [0] .unknown, .pushCallable 0 (),
      .update 0 [0] .unknown, .runTask 0, .runTask 0]).isSome = true by decide)
  obtain ⟨visited, hrun, hacts⟩ := run_of_exec hx
  exact ⟨visited, x, hacts, hrun, push_order_iff_oldest_first hrun⟩

end Sekkeizu
