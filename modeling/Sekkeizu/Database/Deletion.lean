/-
# Sekkeizu.Database.Deletion — when the answer `false` of `update` is safe.

The caller destroys the object once `update` answers `false`, so by then every entry should be done
("We will only delete if all transactions are done"). The check asks less: that every queue is consumed
and that the LAST entry of each is done. With two tasks of one collection in the pool the second may
finish first, and the check passes with the first still outstanding (`deletion_with_task_outstanding`).
And once the deletion is scheduled the answer stays `false` whatever is pushed meanwhile.

`deletion_safe_iff` is the exact boundary: the pool has to be empty when the check passes, and no
operation may be pushed between the check and the answers that follow it. Where the pool takes the tasks of
a collection in turn and nothing is pushed to a flagged object, both are so (`deletion_safe_in_turn`).
-/
import Sekkeizu.Database.Dispatch


namespace Sekkeizu

open PartialSystem

variable {doc callable : Type*}

/-- Every operation and callable of every queue is done, and the pool holds no task of the object. -/
def Settled (w : World doc callable) : Prop :=
  (∀ collection info, w.object.collections.lookup collection = some info →
    ∀ id, info.isOperation id = true → info.isDone id = true) ∧
  w.submitted = []

/-- If the step is an `update` that answers `false`, the object is settled. -/
def SafeDeletion [Bson doc] (x : Config (World doc callable) Event) (call : Call doc callable) : Prop :=
  ∀ diff order getter, call = .update diff order getter →
    (x.state.object.update diff order getter).1 = false → Settled x.state

/-- No operation or callable of any queue waits to be consumed. -/
def NothingQueued (t : Transaction doc callable) : Prop :=
  ∀ collection info, t.collections.lookup collection = some info →
    ∀ id, info.firstId ≤ id → info.isOperation id = false

/-- If the step is an `update` of a flagged object: the pool is empty when the deletion check passes,
and nothing is queued when the deletion is scheduled already (tasks that run in turn see to both,
`InTurn.quiet`). -/
def QuietDeletion (x : Config (World doc callable) Event) (call : Call doc callable) : Prop :=
  ∀ diff order getter, call = .update diff order getter → x.state.object.flagged = true →
    (x.state.object.scheduled = true → NothingQueued x.state.object) ∧
    (x.state.object.scheduled = false → x.state.object.canDelete order = true →
      x.state.submitted = [])

/-! ## The answer of `update` -/

theorem update_of_deletes [Bson doc] {t : Transaction doc callable} {order : List UInt8}
    (h : t.deletes order = true) (diff : UInt64) (getter : Getter doc callable) :
    t.update diff order getter = (false, { t with scheduled := true }, []) := by
  rw [Transaction.update, if_pos h]

/-- Outside the deletion branch the answer is `true` and the deletion flags stay. -/
theorem update_of_keeps [Bson doc] {t : Transaction doc callable} (ht : t.AllPresent) {order : List UInt8}
    (h : t.deletes order = false) (diff : UInt64) (getter : Getter doc callable) :
    (t.update diff order getter).1 = true ∧
      (t.update diff order getter).2.1.flagged = t.flagged ∧
      (t.update diff order getter).2.1.scheduled = t.scheduled := by
  unfold Transaction.update
  rw [if_neg (by simp [h])]
  split_ifs with hidles
  · exact ⟨rfl, rfl, rfl⟩
  · have ht' : { t with sinceLastExecution := 0 }.AllPresent := ht
    exact ⟨rfl, dispatch_flags getter order ht'⟩

/-! ## What the check tells -/

/-- A queue that passes the check without a connection never held an entry: its last one would not be
done. -/
theorem Accounted.empty_of_offline [Bson doc] {database : Database} {x : Config (World doc callable) Event}
    (h : Accounted database x) (hoff : database.isConnected = false) {collection : UInt8}
    {info : CollectionInfo doc callable}
    (hlookup : x.state.object.collections.lookup collection = some info)
    (hcheck : info.canDelete = true) : info.currentId = 0 := by
  by_contra hne
  have hledger := h.ledger hlookup
  have hlast : lastId info.currentId < info.currentId := by
    unfold lastId
    have : (info.currentId + (2 ^ 64 - 1)) % 2 ^ 64 = (info.currentId - 1) % 2 ^ 64 := by
      rw [show info.currentId + (2 ^ 64 - 1) = info.currentId - 1 + 2 ^ 64 by omega,
        Nat.add_mod_right]
    rw [this]
    have := Nat.mod_le (info.currentId - 1) (2 ^ 64)
    omega
  have hlookupLast := hledger.sound.lookup_eq hlast
  have hnotDone := hledger.offline hoff (lastId info.currentId)
  simp only [CollectionInfo.isDone, hlookupLast] at hnotDone
  simp only [CollectionInfo.canDelete, hlookupLast, Bool.and_eq_true] at hcheck
  exact absurd (hnotDone.symm.trans hcheck.2) (by simp)

/-- **The check is enough when the pool is empty.** -/
theorem Accounted.done_of_canDelete [Bson doc] {database : Database} {x : Config (World doc callable) Event}
    (h : Accounted database x) (hidle : x.state.submitted = []) {collection : UInt8}
    {info : CollectionInfo doc callable}
    (hlookup : x.state.object.collections.lookup collection = some info)
    (hcheck : info.canDelete = true) {id : Nat} (hop : info.isOperation id = true) :
    info.isDone id = true := by
  have hledger := h.ledger hlookup
  obtain ⟨e, he, -⟩ := CollectionInfo.isOperation_iff.mp hop
  have hlt := hledger.sound.lt_of_lookup he
  cases hconn : database.isConnected with
  | false =>
      have := h.empty_of_offline hconn hlookup hcheck
      omega
  | true =>
      have hdrained : info.firstId = info.currentId := by
        simp only [CollectionInfo.canDelete, Bool.and_eq_true, beq_iff_eq] at hcheck
        exact hcheck.1
      apply h.done_of_idle hconn hidle hlookup id
      exact CollectionInfo.mem_operationsBelow.mpr ⟨by omega, hop⟩

/-- The check covers every queue, in whatever order it goes through them. -/
theorem canDelete_of_lookup {t : Transaction doc callable} {order : List UInt8}
    (horder : Finmap.Enumerates order t.collections) (h : t.canDelete order = true)
    {collection : UInt8} {info : CollectionInfo doc callable}
    (hlookup : t.collections.lookup collection = some info) : info.canDelete = true := by
  have hmem := horder.mem_iff.mpr (Finmap.mem_of_lookup_eq_some hlookup)
  have hall := List.all_eq_true.mp h collection hmem
  simpa only [hlookup] using hall

/-- In a settled object nothing consumable is left: what waits is not done. -/
theorem Settled.nothingQueued {database : Database} {x : Config (World doc callable) Event}
    (h : Accounted database x) (hsettled : Settled x.state) : NothingQueued x.state.object := by
  intro collection info hlookup id hle
  have hfresh := isDone_eq_false_of_fresh (h.ledger hlookup).sound hle
  by_contra hop
  have hdone := hsettled.1 collection info hlookup id (by simpa using hop)
  exact absurd (hfresh.symm.trans hdone) (by simp)

/-! ## The invariant of the scheduled flag -/

/-- **What `scheduled` stands for** in a run with quiet deletions only: the object is flagged, the pool
is empty, and whatever was consumed is done. -/
structure Retired (database : Database) (x : Config (World doc callable) Event) : Prop where
  accounted : Accounted database x
  flagged : x.state.object.scheduled = true → x.state.object.flagged = true
  idle : x.state.object.scheduled = true → x.state.submitted = []
  done : x.state.object.scheduled = true → ∀ collection info,
    x.state.object.collections.lookup collection = some info →
    ∀ id ∈ info.operationsBelow info.firstId, info.isDone id = true

namespace Retired

variable {database : Database} {x y : Config (World doc callable) Event}

/-- As long as nothing is pushed, the updates after it find it established. -/
theorem settled_of_scheduled (h : Retired database x)
    (hscheduled : x.state.object.scheduled = true) (hqueued : NothingQueued x.state.object) :
    Settled x.state := by
  refine ⟨fun collection info hlookup id hop => ?_, h.idle hscheduled⟩
  by_cases hid : id < info.firstId
  · exact h.done hscheduled collection info hlookup id
      (CollectionInfo.mem_operationsBelow.mpr ⟨hid, hop⟩)
  · have hnone := hqueued collection info hlookup id (by omega)
    exact absurd (hnone.symm.trans hop) (by simp)

variable [Bson doc]

/-- The update that schedules the deletion establishes it. -/
theorem settled_of_canDelete (h : Retired database x) {order : List UInt8}
    (horder : Finmap.Enumerates order x.state.object.collections)
    (hcheck : x.state.object.canDelete order = true) (hidle : x.state.submitted = []) :
    Settled x.state := by
  refine ⟨fun collection info hlookup id hop => ?_, hidle⟩
  exact h.accounted.done_of_canDelete hidle hlookup
    (canDelete_of_lookup horder hcheck hlookup) hop

/-- The deletion branch is the same thing as the answer `false`. -/
theorem update_false_iff (h : Retired database x) (diff : UInt64) (order : List UInt8)
    (getter : Getter doc callable) :
    (x.state.object.update diff order getter).1 = false ↔
      x.state.object.deletes order = true := by
  cases hdeletes : x.state.object.deletes order with
  | true => simp only [update_of_deletes hdeletes]
  | false => simp [(update_of_keeps h.accounted.allPresent hdeletes diff getter).1]

/-- An update that is enabled is safe exactly when it is quiet. -/
theorem safeDeletion_iff (h : Retired database x) {call : Call doc callable}
    (hnext : (World.step database).next x call = some y) :
    SafeDeletion x call ↔ QuietDeletion x call := by
  refine forall₂_congr fun diff order => forall₂_congr fun getter hcall => ?_
  subst hcall
  rw [h.update_false_iff diff order getter, Transaction.deletes, Bool.and_eq_true, Bool.or_eq_true]
  have horder : Finmap.Enumerates order x.state.object.collections := by
    obtain ⟨w, ev, hstep, -⟩ := Step.next_eq_some.mp hnext
    simp only [World.step] at hstep
    split_ifs at hstep with horder
    exact horder
  constructor
  · intro hsafe hflagged
    constructor
    · intro hscheduled
      exact (hsafe ⟨hflagged, Or.inl hscheduled⟩).nothingQueued h.accounted
    · intro _ hcheck
      exact (hsafe ⟨hflagged, Or.inr hcheck⟩).2
  · rintro hquiet ⟨hflagged, hbranch⟩
    cases hscheduled : x.state.object.scheduled with
    | true => exact h.settled_of_scheduled hscheduled ((hquiet hflagged).1 hscheduled)
    | false =>
        have hcheck := hbranch.resolve_left (by simp [hscheduled])
        exact h.settled_of_canDelete horder hcheck ((hquiet hflagged).2 hscheduled hcheck)

/-- A quiet step keeps it. -/
theorem step (h : Retired database x) {call : Call doc callable} (hquiet : QuietDeletion x call)
    (hnext : (World.step database).next x call = some y) : Retired database y := by
  have haccounted := h.accounted.step hnext
  obtain ⟨w, ev, hstep, rfl⟩ := Step.next_eq_some.mp hnext
  cases fires_of_step hstep with
  | push pushedTo info₀ write t ev hpushed hwrite hcollections hflags hev =>
      refine ⟨haccounted, fun hs => ?_, fun hs => h.idle (hflags.2 ▸ hs), ?_⟩
      · show t.flagged = true
        rw [hflags.1]
        exact h.flagged (hflags.2 ▸ hs)
      · intro hs collection info hlookup id hid
        dsimp only at hlookup hs
        rw [hcollections, Finmap.lookup_insert_eq] at hlookup
        split_ifs at hlookup with heq
        · obtain rfl := Option.some.inj hlookup
          have hsound := (h.accounted.ledger hpushed).sound
          rw [isDone_pushed hwrite.fresh hsound]
          apply h.done (hflags.2 ▸ hs) pushedTo info₀ hpushed id
          rw [← hsound.operationsBelow_pushed]
          exact hid
        · exact h.done (hflags.2 ▸ hs) collection info hlookup id hid
  | update diff order getter horder =>
      cases hdeletes : x.state.object.deletes order with
      | false =>
          -- a scheduled object always deletes, so this one is not scheduled, before or after
          have hnot : x.state.object.scheduled = false := by
            by_contra hs
            have hs : x.state.object.scheduled = true := by simpa using hs
            simp [Transaction.deletes, hs, h.flagged hs] at hdeletes
          have hafter := (update_of_keeps h.accounted.allPresent hdeletes diff getter).2.2
          have hcontra : ∀ {p : Prop},
              (x.state.object.update diff order getter).2.1.scheduled = true → p := by
            intro p hs
            rw [hafter, hnot] at hs
            exact absurd hs (by simp)
          exact ⟨haccounted, hcontra, hcontra, hcontra⟩
      | true =>
          have hsafe := (h.safeDeletion_iff hnext).mpr hquiet diff order getter rfl
            ((h.update_false_iff diff order getter).mpr hdeletes)
          have hflagged : x.state.object.flagged = true := by
            simp only [Transaction.deletes, Bool.and_eq_true] at hdeletes
            exact hdeletes.1
          refine ⟨haccounted, fun _ => ?_, fun _ => ?_, fun _ collection info hlookup id hid => ?_⟩
          · simpa only [update_of_deletes hdeletes] using hflagged
          · simpa only [update_of_deletes hdeletes, List.foldl_nil] using hsafe.2
          · simp only [update_of_deletes hdeletes] at hlookup
            exact hsafe.1 collection info hlookup id (CollectionInfo.mem_operationsBelow.mp hid).2
  | flag => exact ⟨haccounted, fun _ => rfl, h.idle, h.done⟩
  | unflag =>
      refine ⟨haccounted, ?_, ?_, ?_⟩ <;>
        (intro hs; exact absurd hs (by simp [Transaction.unflagDeletion]))
  | run position task before after hsubmitted hposition =>
      have hcontra : ∀ {p : Prop}, x.state.object.scheduled = true → p := by
        intro p hs
        rw [h.idle hs] at hsubmitted
        simp at hsubmitted
      exact ⟨haccounted, hcontra, hcontra, hcontra⟩

end Retired

theorem retired_start (database : Database) (executeEvery : UInt64)
    (t : Transaction doc callable) : Retired database (World.start database executeEvery t) where
  accounted := accounted_start database executeEvery t
  flagged := fun hs => absurd hs (by simp [World.start, Transaction.init])
  idle := fun _ => rfl
  done := fun hs => absurd hs (by simp [World.start, Transaction.init])

/-- **When deletion is safe.** In a run, every answer `false` finds the object settled exactly when the
pool is empty each time the deletion check passes and nothing is queued at the updates after it. -/
theorem deletion_safe_iff [Bson doc] {database : Database} {executeEvery : UInt64}
    {t : Transaction doc callable}
    {visited : List (Config (World doc callable) Event × Call doc callable)}
    {x : Config (World doc callable) Event}
    (hrun : Run (World.step database) (World.start database executeEvery t) visited x) :
    Throughout SafeDeletion visited ↔ Throughout QuietDeletion visited :=
  hrun.forall_iff (Retired database) SafeDeletion QuietDeletion
    (fun h hquiet hnext => h.step hquiet hnext) (fun h hnext => h.safeDeletion_iff hnext)
    (retired_start database executeEvery t)

/-- Two writes of one collection are sent by two updates and the second one finishes first: the check
passes, and the object is destroyed under the first task. -/
theorem deletion_with_task_outstanding :
    ∃ (visited : List (Config (World Unit Unit) Event × Call Unit Unit))
      (x : Config (World Unit Unit) Event),
      Run (World.step .single) (World.start .single 0 .blank) visited x ∧
        ¬ Throughout SafeDeletion visited := by
  obtain ⟨y, hy⟩ := Option.isSome_iff_exists.mp (show (exec (World.step .single)
    (World.start .single 0 (Transaction.blank : Transaction Unit Unit))
    [.pushOperation 0 .insert (), .update 0 [0] .unknown, .pushOperation 0 .insert (),
      .update 0 [0] .unknown, .runTask 1, .flagDeletion]).isSome = true by decide)
  have hnext : ((some y).bind fun y =>
      (World.step .single).next y (.update 0 [0] .unknown)).isSome = true := by
    rw [← hy]
    decide
  obtain ⟨z, hz⟩ := Option.isSome_iff_exists.mp hnext
  obtain ⟨visited, hrun, -⟩ := run_of_exec_snoc hy hz
  refine ⟨_, z, hrun, fun hall => ?_⟩
  have hstep : SafeDeletion y (.update 0 [0] .unknown) := (throughout_snoc.mp hall).2
  have hanswer : (some y).map (fun y => ((y.state.object.update 0 [0] .unknown).1,
      y.state.submitted)) = some (false, [⟨0, false, [0]⟩]) := by
    rw [← hy]
    decide
  obtain ⟨hfalse, hpool⟩ := Prod.mk.inj (Option.some.inj hanswer)
  have hempty := (hstep 0 [0] .unknown rfl hfalse).2
  exact absurd (hpool.symm.trans hempty) (by simp)

/-- A write that has run before the object is flagged. -/
theorem deletion_safe_iff_one_write :
    ∃ (visited : List (Config (World Unit Unit) Event × Call Unit Unit))
      (x : Config (World Unit Unit) Event),
      visited.map Prod.snd = [.pushOperation 0 .insert (), .update 0 [0] .unknown, .runTask 0,
        .flagDeletion, .update 0 [0] .unknown] ∧
      Run (World.step .single) (World.start .single 0 .blank) visited x ∧
      (Throughout SafeDeletion visited ↔ Throughout QuietDeletion visited) := by
  obtain ⟨x, hx⟩ := Option.isSome_iff_exists.mp (show (exec (World.step .single)
    (World.start .single 0 (Transaction.blank : Transaction Unit Unit))
    [.pushOperation 0 .insert (), .update 0 [0] .unknown, .runTask 0, .flagDeletion,
      .update 0 [0] .unknown]).isSome = true by decide)
  obtain ⟨visited, hrun, hacts⟩ := run_of_exec hx
  exact ⟨visited, x, hacts, hrun, deletion_safe_iff hrun⟩

/-! ## Tasks in turn -/

/-- Only a push makes a queue longer. -/
theorem QueueMove.currentId_eq [Bson doc] {connected : Bool} {call : Call doc callable} {collection : UInt8}
    {info info' : CollectionInfo doc callable} {out ids out' : List Nat}
    (h : QueueMove connected call collection info out info' ids out') :
    info'.currentId = info.currentId ∨ call.isPush = true ∧ info'.currentId = info.currentId + 1 := by
  cases h with
  | stay => exact Or.inl rfl
  | push write hwrite => exact Or.inr ⟨hwrite.isPush, rfl⟩
  | scan => exact Or.inl rfl
  | finish => exact Or.inl rfl

/-- Nothing is pushed to a flagged object, and no queue runs out of 64-bit ids. -/
def PushesEarly (x : Config (World doc callable) Event) (call : Call doc callable) : Prop :=
  call.isPush = true → x.state.object.flagged = false ∧
    ∀ collection info, x.state.object.collections.lookup collection = some info →
      info.currentId < 2 ^ 64

instance (x : Config (World doc callable) Event) (call : Call doc callable) :
    Decidable (PushesEarly x call) :=
  -- over the keys of the map, not over all bytes
  have keys : Decidable (∀ collection, collection ∈ x.state.object.collections.keys →
      ∀ info ∈ x.state.object.collections.lookup collection, info.currentId < 2 ^ 64) :=
    Finset.decidableDforallFinset
  have early : Decidable (call.isPush = true → x.state.object.flagged = false ∧
      ∀ collection, collection ∈ x.state.object.collections.keys →
        ∀ info ∈ x.state.object.collections.lookup collection, info.currentId < 2 ^ 64) :=
    inferInstance
  @decidable_of_iff _ _ (by
    apply forall_congr'
    intro hpush
    apply and_congr_right
    intro hflagged
    constructor
    · intro h collection info hlookup
      exact h collection (Finmap.mem_keys.mpr (Finmap.mem_of_lookup_eq_some hlookup)) info hlookup
    · intro h collection _ info hlookup
      exact h collection info hlookup) early

/-- **The books when the tasks of a collection run in turn**: what is outstanding was sent last, and nothing
is queued once the deletion is scheduled. -/
structure InTurn (database : Database) (x : Config (World doc callable) Event) : Prop
    extends Retired database x where
  suffix : ∀ collection, outstanding collection x.state.submitted <:+ dispatched collection x.history
  drained : x.state.object.scheduled = true → NothingQueued x.state.object
  bounded : ∀ collection info, x.state.object.collections.lookup collection = some info →
    info.currentId ≤ 2 ^ 64

namespace InTurn

variable [Bson doc] {database : Database} {x y : Config (World doc callable) Event}

/-- **The check is enough**: the last entry is done, so no task of the collection is outstanding. -/
theorem idle_of_canDelete (h : InTurn database x) {order : List UInt8}
    (horder : Finmap.Enumerates order x.state.object.collections)
    (hcheck : x.state.object.canDelete order = true) : x.state.submitted = [] := by
  apply List.eq_nil_iff_forall_not_mem.mpr
  intro task htask
  have hconn := h.accounted.connected_of_mem htask
  obtain ⟨info, hlookup⟩ := Finmap.mem_iff.mp (h.accounted.exists_collection task htask)
  have hledger := h.accounted.ledger hlookup
  obtain ⟨id, hid⟩ := List.exists_mem_of_ne_nil _ (h.accounted.nonempty task htask)
  have hout : id ∈ outstanding task.collection x.state.submitted :=
    mem_outstanding.mpr ⟨task, htask, rfl, hid⟩
  have hlt : id < info.firstId := hledger.lt_first (hledger.sublist.subset hout)
  have hinfo := canDelete_of_lookup horder hcheck hlookup
  simp only [CollectionInfo.canDelete, Bool.and_eq_true, beq_iff_eq] at hinfo
  obtain ⟨hdrained, hlast⟩ := hinfo
  have hbound := h.bounded task.collection info hlookup
  have hlastId : lastId info.currentId = info.currentId - 1 := by
    unfold lastId
    omega
  have hpos : info.currentId - 1 < info.currentId := by omega
  have he := hledger.sound.lookup_eq hpos
  rw [hlastId, he] at hlast
  have hdone : info.isDone (info.currentId - 1) = true := by
    simp only [CollectionInfo.isDone, he]
    exact hlast
  -- it is no dependency, so it was sent
  have hop : info.isOperation (info.currentId - 1) = true := by
    rw [CollectionInfo.isOperation_iff]
    refine ⟨_, he, ?_⟩
    by_contra hdep
    have hnot := (hledger.sound.dependency he hdep).2.1
    exact absurd (hnot.symm.trans hlast) (by simp)
  have hsent : info.currentId - 1 ∈ dispatched task.collection x.history := by
    rw [hledger.sent_eq]
    exact CollectionInfo.mem_operationsBelow.mpr ⟨by omega, hop⟩
  have hnotOut := (hledger.done_iff hconn _ hsent).mp hdone
  obtain ⟨older, hsplit⟩ := h.suffix task.collection
  have holder : info.currentId - 1 ∈ older := by
    rw [← hsplit] at hsent
    exact (List.mem_append.mp hsent).resolve_right hnotOut
  have hsorted := hledger.sent_pairwise
  rw [← hsplit] at hsorted
  have hafter := hsorted.lt_of_append holder hout
  omega

/-- **Every deletion is quiet.** -/
theorem quiet (h : InTurn database x) {call : Call doc callable}
    (hnext : (World.step database).next x call = some y) : QuietDeletion x call := by
  rintro diff order getter rfl hflagged
  obtain ⟨w, ev, hstep, -⟩ := Step.next_eq_some.mp hnext
  simp only [World.step] at hstep
  split_ifs at hstep with horder
  exact ⟨h.drained, fun _ hcheck => h.idle_of_canDelete horder hcheck⟩

theorem suffix_step (h : InTurn database x) {call : Call doc callable} (holdest : OldestFirst x call)
    (hnext : (World.step database).next x call = some y) (collection : UInt8) :
    outstanding collection y.state.submitted <:+ dispatched collection y.history := by
  have hbefore := h.suffix collection
  obtain ⟨w, ev, hstep, rfl⟩ := Step.next_eq_some.mp hnext
  cases fires_of_step hstep with
  | push pushedTo info write t ev hlookup hwrite hcollections hflags hev =>
      rcases hev with rfl | ⟨rfl, -⟩
      · rwa [List.append_nil]
      · rwa [dispatched_append, show dispatched collection [.slot pushedTo info.currentId] = [] from rfl,
          List.append_nil]
  | update diff order getter horder =>
      dsimp only
      rw [dispatched_append, dispatched, dispatched, dispatchedTasks_update, foldl_execute]
      split_ifs with hconn
      · rw [outstanding_append]
        obtain ⟨older, hsplit⟩ := hbefore
        exact ⟨older, by rw [← List.append_assoc, hsplit]; rfl⟩
      · rw [h.accounted.offline (Bool.eq_false_of_not_eq_true hconn)]
        exact List.nil_suffix
  | flag => rwa [List.append_nil]
  | unflag => rwa [List.append_nil]
  | run position task before after hsubmitted hposition =>
      rw [dispatched_append, show dispatched collection [.ran task] = [] from rfl, List.append_nil]
      refine List.IsSuffix.trans ?_ hbefore
      dsimp only
      rw [hsubmitted, outstanding_append]
      by_cases hsame : task.collection = collection
      · subst hsame
        have hfirst : outstanding task.collection before = [] := by
          subst hposition
          have hget : x.state.submitted[before.length]? = some task := by
            rw [hsubmitted]
            simp
          have htask := holdest before.length task rfl hget
          rw [hsubmitted] at htask
          exact outstanding_eq_nil_of_oldest htask
        rw [outstanding_split, hfirst, List.nil_append, List.nil_append]
        exact List.suffix_append _ _
      · rw [outstanding_append, ← List.singleton_append, outstanding_append,
          outstanding_singleton_ne hsame, List.nil_append]

theorem drained_step (h : InTurn database x) {call : Call doc callable} (hearly : PushesEarly x call)
    (hnext : (World.step database).next x call = some y) (hscheduled : y.state.object.scheduled = true) :
    NothingQueued y.state.object := by
  have hquiet := h.quiet hnext
  have hsafe := (h.safeDeletion_iff hnext).mpr hquiet
  obtain ⟨w, ev, hstep, rfl⟩ := Step.next_eq_some.mp hnext
  cases fires_of_step hstep with
  | push pushedTo info write t ev hlookup hwrite hcollections hflags hev =>
      have hflagged := h.flagged (hflags.2 ▸ hscheduled)
      exact absurd ((hearly hwrite.isPush).1.symm.trans hflagged) (by simp)
  | update diff order getter horder =>
      cases hdeletes : x.state.object.deletes order with
      | false =>
          have hafter := (update_of_keeps h.accounted.allPresent hdeletes diff getter).2.2
          have hbefore : x.state.object.scheduled = true := hafter.symm.trans hscheduled
          simp [Transaction.deletes, hbefore, h.flagged hbefore] at hdeletes
      | true =>
          have hsettled := hsafe diff order getter rfl
            ((h.update_false_iff diff order getter).mpr hdeletes)
          simp only [update_of_deletes hdeletes]
          exact hsettled.nothingQueued h.accounted
  | flag => exact h.drained hscheduled
  | unflag => exact absurd hscheduled (by simp [Transaction.unflagDeletion])
  | run position task before after hsubmitted hposition =>
      have hidle := h.idle hscheduled
      rw [hsubmitted] at hidle
      simp at hidle

theorem bounded_step (h : InTurn database x) {call : Call doc callable} (hearly : PushesEarly x call)
    (hnext : (World.step database).next x call = some y) {collection : UInt8}
    {info : CollectionInfo doc callable}
    (hlookup : y.state.object.collections.lookup collection = some info) : info.currentId ≤ 2 ^ 64 := by
  obtain ⟨w, ev, hstep, rfl⟩ := Step.next_eq_some.mp hnext
  cases hbefore : x.state.object.collections.lookup collection with
  | none =>
      have habsent := step_absent h.accounted.allPresent hstep hbefore
      exact absurd (habsent.symm.trans hlookup) (by simp)
  | some info₀ =>
      obtain ⟨info', hlookup', hmove⟩ := step_move h.accounted.allPresent hstep hbefore
      obtain rfl := Option.some.inj (hlookup'.symm.trans hlookup)
      rcases hmove.currentId_eq with hsame | ⟨hpush, hlonger⟩
      · rw [hsame]
        exact h.bounded collection info₀ hbefore
      · rw [hlonger]
        exact (hearly hpush).2 collection info₀ hbefore

/-- A step in turn keeps it. -/
theorem step (h : InTurn database x) {call : Call doc callable} (holdest : OldestFirst x call)
    (hearly : PushesEarly x call) (hnext : (World.step database).next x call = some y) :
    InTurn database y where
  toRetired := h.toRetired.step (h.quiet hnext) hnext
  suffix := h.suffix_step holdest hnext
  drained := h.drained_step hearly hnext
  bounded _ _ := h.bounded_step hearly hnext

end InTurn

theorem inTurn_start (database : Database) (executeEvery : UInt64) (t : Transaction doc callable) :
    InTurn database (World.start database executeEvery t) where
  toRetired := retired_start database executeEvery t
  suffix _ := List.nil_suffix
  drained hs := absurd hs (by simp [World.start, Transaction.init])
  bounded := by
    intro collection info hlookup
    dsimp only [World.start, Transaction.init] at hlookup
    rw [Finmap.lookup_mapVals] at hlookup
    obtain ⟨info₀, -, rfl⟩ := Option.map_eq_some_iff.mp hlookup
    exact Nat.zero_le _

/-- **Tasks in turn are enough**: when the pool always runs the oldest task of a collection first, and
nothing is pushed to an object that is flagged, every answer `false` finds the object settled. -/
theorem deletion_safe_in_turn [Bson doc] {database : Database} {executeEvery : UInt64}
    {t : Transaction doc callable}
    {visited : List (Config (World doc callable) Event × Call doc callable)}
    {x : Config (World doc callable) Event}
    (hrun : Run (World.step database) (World.start database executeEvery t) visited x)
    (holdest : Throughout OldestFirst visited) (hearly : Throughout PushesEarly visited) :
    Throughout SafeDeletion visited :=
  hrun.throughout (InTurn database) (fun x call => OldestFirst x call ∧ PushesEarly x call) SafeDeletion
    (fun h hgood hnext => h.step hgood.1 hgood.2 hnext)
    (fun h _ hnext => (h.safeDeletion_iff hnext).mpr (h.quiet hnext))
    (fun p hp => ⟨holdest p hp, hearly p hp⟩) (inTurn_start database executeEvery t)

/-- Two writes are sent by two updates, and run as they were sent. -/
def twoInTurn : List (Call Unit Unit) :=
  [.pushOperation 0 .insert (), .update 0 [0] .unknown, .pushOperation 0 .insert (),
    .update 0 [0] .unknown, .runTask 0, .flagDeletion, .runTask 0, .update 0 [0] .unknown]

/-- The last update answers `false`. -/
theorem deletion_safe_in_turn_two_updates :
    ∃ (visited : List (Config (World Unit Unit) Event × Call Unit Unit))
      (x : Config (World Unit Unit) Event),
      visited.map Prod.snd = twoInTurn ∧
      Run (World.step .single) (World.start .single 0 .blank) visited x ∧
      x.state.object.scheduled = true ∧ Throughout OldestFirst visited ∧ Throughout PushesEarly visited ∧
      Throughout SafeDeletion visited := by
  obtain ⟨x, hx⟩ := Option.isSome_iff_exists.mp (show (exec (World.step .single)
    (World.start .single 0 (Transaction.blank : Transaction Unit Unit)) twoInTurn).isSome = true by decide)
  have hscheduled : (some x).map (fun x => x.state.object.scheduled) = some true := by
    rw [← hx]
    decide
  have holdest : Throughout OldestFirst (trace (World.step .single)
      (World.start .single 0 (Transaction.blank : Transaction Unit Unit)) twoInTurn) := by decide
  have hearly : Throughout PushesEarly (trace (World.step .single)
      (World.start .single 0 (Transaction.blank : Transaction Unit Unit)) twoInTurn) := by decide
  exact ⟨_, x, actions_trace hx, run_trace hx, Option.some.inj hscheduled, holdest, hearly,
    deletion_safe_in_turn (run_trace hx) holdest hearly⟩

end Sekkeizu
