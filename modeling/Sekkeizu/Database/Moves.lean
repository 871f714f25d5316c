/-
# Sekkeizu.Database.Moves — what one step of the world can do to one queue.

Whatever the call, a given queue stays as it is, gets one entry pushed, is scanned once, or has the
entries of one finished task marked (`QueueMove`). `step_move` is the only place where the calls are
told apart; every invariant of a queue is proved by the four cases of `QueueMove`.
-/
import Sekkeizu.Database.World


namespace Sekkeizu

open Finmap (Enumerates)
open PartialSystem

variable {doc callable : Type*} [Bson doc]

/-! ## The history and the pool, seen from one collection -/

/-- The ids the tasks hold for a collection, in task order. -/
def outstanding (collection : UInt8) (tasks : List Task) : List Nat :=
  (tasks.filter (·.collection = collection)).flatMap Task.transactions

/-- The tasks `update` handed to `database::execute`, oldest first. -/
def dispatchedTasks : List Event → List Task
  | [] => []
  | .dispatched task :: history => task :: dispatchedTasks history
  | _ :: history => dispatchedTasks history

/-- The batches handed over for a collection, concatenated in dispatch order. -/
def dispatched (collection : UInt8) (history : List Event) : List Nat :=
  outstanding collection (dispatchedTasks history)

@[simp] theorem outstanding_append (collection : UInt8) (l₁ l₂ : List Task) :
    outstanding collection (l₁ ++ l₂) = outstanding collection l₁ ++ outstanding collection l₂ := by
  simp only [outstanding, List.filter_append, List.flatMap_append]

theorem outstanding_singleton_self (task : Task) :
    outstanding task.collection [task] = task.transactions := by
  simp [outstanding]

theorem outstanding_singleton_ne {collection : UInt8} {task : Task}
    (h : task.collection ≠ collection) : outstanding collection [task] = [] := by
  simp [outstanding, h]

theorem mem_outstanding {collection : UInt8} {tasks : List Task} {id : Nat} :
    id ∈ outstanding collection tasks ↔
      ∃ task ∈ tasks, task.collection = collection ∧ id ∈ task.transactions := by
  simp [outstanding, and_assoc]

theorem dispatchedTasks_append (h₁ h₂ : List Event) :
    dispatchedTasks (h₁ ++ h₂) = dispatchedTasks h₁ ++ dispatchedTasks h₂ := by
  induction h₁ with
  | nil => rfl
  | cons ev h₁ ih =>
      cases ev with
      | dispatched task => exact congrArg (task :: ·) ih
      | _ => exact ih

@[simp] theorem dispatched_append (collection : UInt8) (h₁ h₂ : List Event) :
    dispatched collection (h₁ ++ h₂) = dispatched collection h₁ ++ dispatched collection h₂ := by
  simp only [dispatched, dispatchedTasks_append, outstanding_append]

theorem dispatchedTasks_update (tasks : List Task) (keep : Bool) :
    dispatchedTasks (tasks.map .dispatched ++ [.returned keep]) = tasks := by
  induction tasks with
  | nil => rfl
  | cons task tasks ih => exact congrArg (task :: ·) ih

theorem outstanding_sentTasks (getter : Getter doc callable) (collection : UInt8)
    (info : CollectionInfo doc callable) :
    outstanding collection (info.sentTasks getter collection) = info.batch getter collection := by
  unfold CollectionInfo.sentTasks
  cases info.batch getter collection <;> simp [outstanding]

/-- `database::execute` on a list of tasks. -/
theorem foldl_execute (database : Database) (submitted tasks : List Task) :
    tasks.foldl database.execute submitted =
      if database.isConnected then submitted ++ tasks else submitted := by
  induction tasks generalizing submitted with
  | nil => simp
  | cons task tasks ih =>
      rw [List.foldl_cons, ih, Database.execute]
      split_ifs <;> simp

/-! ## The moves of one queue -/

/-- The call is one of the four `push_*`. -/
def Call.isPush : Call doc callable → Bool
  | .pushOperation .. | .pushOperation₂ .. | .pushCallable .. | .pushDependency .. => true
  | _ => false

/-- What the entry a `push_*` call writes is like: unsent, without a callable when it is a dependency,
and a dependency only if the call was `push_dependency`. -/
structure PushWrite (call : Call doc callable) (collection : UInt8)
    (write : TransactionInfo doc callable → TransactionInfo doc callable) : Prop where
  isPush : call.isPush = true
  fresh : ∀ e, (write e).pending = false ∧ (write e).done = false
  callable : ∀ e, (write e).dependency ≠ none → (write e).callable = none
  dependency : ∀ {e d}, (write e).dependency = some d →
    call = .pushDependency collection d.owner d.id

/-- **One step, seen from one queue**: the queue afterwards, the ids handed to the database and the ids
then outstanding. -/
inductive QueueMove (connected : Bool) (call : Call doc callable) (collection : UInt8)
    (info : CollectionInfo doc callable) (out : List Nat) :
    CollectionInfo doc callable → List Nat → List Nat → Prop
  | stay : QueueMove connected call collection info out info [] out
  | push (write : TransactionInfo doc callable → TransactionInfo doc callable)
      (hwrite : PushWrite call collection write) :
      QueueMove connected call collection info out (info.pushed write) [] out
  | scan (diff : UInt64) (order : List UInt8) (getter : Getter doc callable)
      (hcall : call = .update diff order getter) :
      QueueMove connected call collection info out (info.scanned getter collection)
        (info.batch getter collection)
        (if connected then out ++ info.batch getter collection else out)
  | finish (position : Nat) (before ids after : List Nat) (hcall : call = .runTask position)
      (hout : out = before ++ ids ++ after) :
      QueueMove connected call collection info out (info.finished ids) [] (before ++ after)

/-- An entry stays, with its dependency and its callable, and is not undone. -/
theorem QueueMove.keeps {connected : Bool} {call : Call doc callable} {collection : UInt8}
    {info info' : CollectionInfo doc callable} {out ids out' : List Nat}
    (hmove : QueueMove connected call collection info out info' ids out') (h : info.Sound) {id : Nat}
    {e : TransactionInfo doc callable} (he : info.transactions.lookup id = some e) :
    ∃ e', info'.transactions.lookup id = some e' ∧ e'.dependency = e.dependency ∧
      e'.callable = e.callable ∧ (e.done = true → e'.done = true) := by
  cases hmove with
  | stay => exact ⟨e, he, rfl, rfl, fun hd => hd⟩
  | push write hwrite =>
      have hne : id ≠ info.currentId := by
        have := h.lt_of_lookup he
        omega
      exact ⟨e, (Finmap.lookup_insert_of_ne _ hne).trans he, rfl, rfl, fun hd => hd⟩
  | scan diff order getter hcall =>
      rw [CollectionInfo.Sound.lookup_scanned, he]
      split_ifs
      · exact ⟨e.setPending, rfl, rfl, rfl, fun hd => hd⟩
      · exact ⟨e, rfl, rfl, rfl, fun hd => hd⟩
  | finish position before ids after hcall hout =>
      rw [CollectionInfo.Sound.lookup_finished, he]
      split_ifs
      · exact ⟨e.finish, rfl, rfl, rfl, fun _ => rfl⟩
      · exact ⟨e, rfl, rfl, rfl, fun hd => hd⟩

/-- **What a call can do**, one case for each kind of call that changes something of its own. -/
inductive Fires (database : Database) (w : World doc callable) :
    Call doc callable → World doc callable → List Event → Prop
  /-- A queue gets one entry; the id is returned for an operation or a callable only. -/
  | push {call : Call doc callable} (pushedTo : UInt8) (info : CollectionInfo doc callable)
      (write : TransactionInfo doc callable → TransactionInfo doc callable)
      (t : Transaction doc callable) (ev : List Event)
      (hlookup : w.object.collections.lookup pushedTo = some info)
      (hwrite : PushWrite call pushedTo write)
      (hcollections : t.collections = w.object.collections.insert pushedTo (info.pushed write))
      (hflags : t.flagged = w.object.flagged ∧ t.scheduled = w.object.scheduled)
      (hev : ev = [] ∨ ev = [.slot pushedTo info.currentId] ∧ ∀ e, (write e).dependency = none) :
      Fires database w call { w with object := t } ev
  | update (diff : UInt64) (order : List UInt8) (getter : Getter doc callable)
      (horder : Enumerates order w.object.collections) :
      Fires database w (.update diff order getter)
        { object := (w.object.update diff order getter).2.1
          submitted :=
            (w.object.update diff order getter).2.2.foldl database.execute w.submitted }
        ((w.object.update diff order getter).2.2.map .dispatched ++
          [.returned (w.object.update diff order getter).1])
  | flag : Fires database w .flagDeletion { w with object := w.object.flagDeletion } []
  | unflag : Fires database w .unflagDeletion { w with object := w.object.unflagDeletion } []
  | run (position : Nat) (task : Task) (before after : List Task)
      (hsubmitted : w.submitted = before ++ task :: after) (hposition : before.length = position) :
      Fires database w (.runTask position)
        { object := w.object.runTask task, submitted := before ++ after } [.ran task]

theorem fires_of_pushEntry {database : Database} {w : World doc callable}
    {call : Call doc callable} {t : Transaction doc callable} {collection : UInt8} {slot : Nat}
    {write : TransactionInfo doc callable → TransactionInfo doc callable}
    (hwrite : PushWrite call collection write)
    (h : w.object.pushEntry collection write = some (slot, t)) (count : UInt8) :
    Fires database w call { w with object := { t with pendingCallables := count } } [] ∧
      ((∀ e, (write e).dependency = none) →
        Fires database w call { w with object := { t with pendingCallables := count } }
          [.slot collection slot]) := by
  unfold Transaction.pushEntry at h
  cases hlookup : w.object.collections.lookup collection with
  | none => simp [hlookup] at h
  | some info =>
      simp only [hlookup, Option.some.injEq, Prod.mk.injEq] at h
      obtain ⟨rfl, rfl⟩ := h
      exact ⟨.push collection info write _ _ hlookup hwrite rfl ⟨rfl, rfl⟩ (Or.inl rfl),
        fun hnone => .push collection info write _ _ hlookup hwrite rfl ⟨rfl, rfl⟩
          (Or.inr ⟨rfl, hnone⟩)⟩

/-- **The inversion of `World.step`.** -/
theorem fires_of_step {database : Database} {w w' : World doc callable} {call : Call doc callable}
    {ev : List Event} (h : World.step database w call = some (w', ev)) :
    Fires database w call w' ev := by
  cases call with
  | pushOperation collection type operation =>
      obtain ⟨⟨slot, t⟩, hpush, heq⟩ := Option.map_eq_some_iff.mp h
      obtain ⟨rfl, rfl⟩ := Prod.mk.inj heq
      unfold Transaction.pushOperation at hpush
      split_ifs at hpush
      exact (fires_of_pushEntry ⟨rfl, fun _ => ⟨rfl, rfl⟩, fun _ _ => rfl, by simp⟩ hpush
        t.pendingCallables).2 fun _ => rfl
  | pushOperation₂ collection type operation₁ operation₂ =>
      obtain ⟨⟨slot, t⟩, hpush, heq⟩ := Option.map_eq_some_iff.mp h
      obtain ⟨rfl, rfl⟩ := Prod.mk.inj heq
      unfold Transaction.pushOperation₂ at hpush
      split_ifs at hpush
      exact (fires_of_pushEntry ⟨rfl, fun _ => ⟨rfl, rfl⟩, fun _ _ => rfl, by simp⟩ hpush
        t.pendingCallables).2 fun _ => rfl
  | pushCallable collection function =>
      obtain ⟨⟨slot, t⟩, hpush, heq⟩ := Option.map_eq_some_iff.mp h
      obtain ⟨rfl, rfl⟩ := Prod.mk.inj heq
      obtain ⟨⟨slot', t'⟩, hentry, heq'⟩ := Option.map_eq_some_iff.mp hpush
      obtain ⟨rfl, rfl⟩ := Prod.mk.inj heq'
      exact (fires_of_pushEntry ⟨rfl, fun _ => ⟨rfl, rfl⟩, fun _ hne => absurd rfl hne, by simp⟩ hentry
        (t'.pendingCallables + 1)).2 fun _ => rfl
  | pushDependency collection owner id =>
      obtain ⟨⟨slot, t⟩, hpush, heq⟩ := Option.map_eq_some_iff.mp h
      obtain ⟨rfl, rfl⟩ := Prod.mk.inj heq
      refine (fires_of_pushEntry ⟨rfl, fun _ => ⟨rfl, rfl⟩, fun _ _ => rfl, ?_⟩ hpush
        t.pendingCallables).1
      intro e d hd
      obtain rfl := Option.some.inj hd
      rfl
  | update diff order getter =>
      simp only [World.step] at h
      split_ifs at h with horder
      obtain ⟨rfl, rfl⟩ := Prod.mk.inj (Option.some.inj h)
      exact .update diff order getter horder
  | flagDeletion =>
      obtain ⟨rfl, rfl⟩ := Prod.mk.inj (Option.some.inj h)
      exact .flag
  | unflagDeletion =>
      obtain ⟨rfl, rfl⟩ := Prod.mk.inj (Option.some.inj h)
      exact .unflag
  | runTask position =>
      simp only [World.step] at h
      cases htask : w.submitted[position]? with
      | none => simp [htask] at h
      | some task =>
          simp only [htask] at h
          obtain ⟨rfl, rfl⟩ := Prod.mk.inj (Option.some.inj h)
          obtain ⟨before, after, hsubmitted, hlen, herase⟩ := List.split_of_getElem? htask
          rw [herase]
          exact .run position task before after hsubmitted hlen

/-! ## From a step to the move of one queue -/

/-- `update` on one queue, whichever of its branches is taken: the queue is scanned, or left alone. -/
theorem update_move {t : Transaction doc callable} (ht : t.AllPresent) {order : List UInt8}
    (horder : Enumerates order t.collections) (diff : UInt64) (getter : Getter doc callable)
    {collection : UInt8} {info : CollectionInfo doc callable}
    (hlookup : t.collections.lookup collection = some info) :
    ((t.update diff order getter).2.1.collections.lookup collection = some info ∧
        outstanding collection (t.update diff order getter).2.2 = []) ∨
    ((t.update diff order getter).2.1.collections.lookup collection =
          some (info.scanned getter collection) ∧
        outstanding collection (t.update diff order getter).2.2 =
          info.batch getter collection) := by
  unfold Transaction.update
  split_ifs with hdeletes hidles
  · exact Or.inl ⟨hlookup, rfl⟩
  · exact Or.inl ⟨hlookup, rfl⟩
  · -- past the gate: whether the queue is scanned depends on the queues before it
    have ht' : { t with sinceLastExecution := 0 }.AllPresent := ht
    by_cases hreached : Reached getter { t with sinceLastExecution := 0 } order collection
    · right
      have hmem : collection ∈ order := horder.mem_iff.mpr (Finmap.mem_of_lookup_eq_some hlookup)
      obtain ⟨hscanned, htasks⟩ := dispatch_of_reached ht' horder.nodup hmem hlookup hreached
      refine ⟨hscanned, ?_⟩
      rw [outstanding, htasks, ← outstanding_sentTasks getter collection info, outstanding,
        sentTasks_filter_self]
    · left
      obtain ⟨hsame, hnone⟩ := dispatch_of_not_reached ht' horder.nodup hreached
      refine ⟨hsame.trans hlookup, ?_⟩
      rw [outstanding, hnone, List.flatMap_nil]

/-- **A task of an `update`** is the one that a scan of its collection gives rise to. -/
theorem task_of_update {t : Transaction doc callable} (ht : t.AllPresent) {order : List UInt8}
    (horder : Enumerates order t.collections) {diff : UInt64} {getter : Getter doc callable}
    {task : Task} (htask : task ∈ (t.update diff order getter).2.2) :
    ∃ info, t.collections.lookup task.collection = some info ∧
      task ∈ info.sentTasks getter task.collection ∧
      (t.update diff order getter).2.1.collections.lookup task.collection =
        some (info.scanned getter task.collection) := by
  unfold Transaction.update at htask ⊢
  split_ifs at htask ⊢ with hdeletes hidles
  · exact absurd htask List.not_mem_nil
  · exact absurd htask List.not_mem_nil
  · have ht' : { t with sinceLastExecution := 0 }.AllPresent := ht
    have hself : task ∈ ({ t with sinceLastExecution := 0 }.dispatch getter order).2.filter
        fun other : Task => other.collection = task.collection :=
      List.mem_filter.mpr ⟨htask, decide_eq_true rfl⟩
    by_cases hin : task.collection ∈ order
    · obtain ⟨info, hlookup⟩ := Finmap.mem_iff.mp (horder.mem_iff.mp hin)
      by_cases hreached : Reached getter { t with sinceLastExecution := 0 } order task.collection
      · obtain ⟨hscanned, htasks⟩ := dispatch_of_reached ht' horder.nodup hin hlookup hreached
        exact ⟨info, hlookup, htasks ▸ hself, hscanned⟩
      · rw [(dispatch_of_not_reached ht' horder.nodup hreached).2] at hself
        exact absurd hself List.not_mem_nil
    · rw [(dispatch_of_notMem getter ht' hin).2] at hself
      exact absurd hself List.not_mem_nil

/-- **The pool after a step**: old tasks, and those of an `update` that had a connection. -/
theorem submitted_of_step {database : Database} {w w' : World doc callable} {call : Call doc callable}
    {ev : List Event} (h : World.step database w call = some (w', ev)) :
    ∀ task ∈ w'.submitted, task ∈ w.submitted ∨
      ∃ diff order getter, Enumerates order w.object.collections ∧
        task ∈ (w.object.update diff order getter).2.2 ∧
        w'.object = (w.object.update diff order getter).2.1 ∧ database.isConnected = true := by
  cases fires_of_step h with
  | push => exact fun task htask => Or.inl htask
  | update diff order getter horder =>
      intro task htask
      dsimp only at htask
      rw [foldl_execute] at htask
      split_ifs at htask with hconn
      · rcases List.mem_append.mp htask with hold | hnew
        · exact Or.inl hold
        · exact Or.inr ⟨diff, order, getter, horder, hnew, rfl, hconn⟩
      · exact Or.inl htask
  | flag => exact fun task htask => Or.inl htask
  | unflag => exact fun task htask => Or.inl htask
  | run position task before after hsubmitted hposition =>
      intro other hother
      refine Or.inl (hsubmitted ▸ ?_)
      rcases List.mem_append.mp hother with hb | ha
      · exact List.mem_append_left _ hb
      · exact List.mem_append_right _ (List.mem_cons_of_mem _ ha)

/-- **Every step moves every queue.** -/
theorem step_move {database : Database} {w w' : World doc callable} {call : Call doc callable}
    {ev : List Event} (ht : w.object.AllPresent)
    (h : World.step database w call = some (w', ev)) {collection : UInt8}
    {info : CollectionInfo doc callable}
    (hlookup : w.object.collections.lookup collection = some info) :
    ∃ info', w'.object.collections.lookup collection = some info' ∧
      QueueMove database.isConnected call collection info (outstanding collection w.submitted)
        info' (dispatched collection ev) (outstanding collection w'.submitted) := by
  cases fires_of_step h with
  | push pushedTo info₀ write t ev hpushed hwrite hcollections hflags hev =>
      have hnone : dispatched collection ev = [] := by
        rcases hev with rfl | ⟨rfl, -⟩ <;> rfl
      rw [hnone]
      dsimp only
      rw [hcollections, Finmap.lookup_insert_eq]
      split_ifs with heq
      · subst heq
        obtain rfl := Option.some.inj (hpushed.symm.trans hlookup)
        exact ⟨_, rfl, .push write hwrite⟩
      · exact ⟨info, hlookup, .stay⟩
  | update diff order getter horder =>
      have hsent : dispatched collection ((w.object.update diff order getter).2.2.map .dispatched ++
          [.returned (w.object.update diff order getter).1]) =
          outstanding collection (w.object.update diff order getter).2.2 := by
        rw [dispatched, dispatchedTasks_update]
      rw [hsent]
      dsimp only
      rw [foldl_execute]
      -- without a connection `execute` drops the tasks, so both ends are an `if`
      rcases update_move ht horder diff getter hlookup with ⟨hsame, hnone⟩ | ⟨hscanned, hbatch⟩
      · refine ⟨info, hsame, ?_⟩
        rw [hnone, apply_ite (outstanding collection), outstanding_append, hnone, List.append_nil,
          ite_self]
        exact .stay
      · refine ⟨_, hscanned, ?_⟩
        rw [hbatch, apply_ite (outstanding collection), outstanding_append, hbatch]
        exact .scan diff order getter rfl
  | flag => exact ⟨info, hlookup, .stay⟩
  | unflag => exact ⟨info, hlookup, .stay⟩
  | run position task before after hsubmitted hposition =>
      rw [hsubmitted]
      dsimp only [Transaction.runTask]
      rw [Finmap.lookup_modify, outstanding_append, ← List.singleton_append, outstanding_append,
        outstanding_append, ← List.append_assoc]
      split_ifs with heq
      · subst heq
        rw [hlookup]
        refine ⟨_, rfl, ?_⟩
        exact .finish position _ _ _ rfl (by rw [outstanding_singleton_self])
      · rw [outstanding_singleton_ne (Ne.symm heq), List.append_nil]
        exact ⟨info, hlookup, .stay⟩

/-- No step creates a collection. -/
theorem step_absent {database : Database} {w w' : World doc callable} {call : Call doc callable}
    {ev : List Event} (ht : w.object.AllPresent)
    (h : World.step database w call = some (w', ev)) {collection : UInt8}
    (hlookup : w.object.collections.lookup collection = none) :
    w'.object.collections.lookup collection = none := by
  cases fires_of_step h with
  | push pushedTo info₀ write t ev hpushed hwrite hcollections hflags hev =>
      dsimp only
      rw [hcollections, Finmap.lookup_insert_eq, if_neg, hlookup]
      rintro rfl
      exact absurd (hlookup.symm.trans hpushed) (by simp)
  | update diff order getter horder =>
      dsimp only
      unfold Transaction.update
      split_ifs
      · exact hlookup
      · exact hlookup
      · have hmem : collection ∉ order := by
          rw [horder.mem_iff, ← Finmap.lookup_eq_none]
          exact hlookup
        have ht' : { w.object with sinceLastExecution := 0 }.AllPresent := ht
        exact (dispatch_of_notMem getter ht' hmem).1.trans hlookup
  | flag => exact hlookup
  | unflag => exact hlookup
  | run position task before after hsubmitted hposition =>
      dsimp only [Transaction.runTask]
      rw [Finmap.lookup_modify, hlookup]
      simp

end Sekkeizu
