/-
# Sekkeizu.Database.Store — the collections, and the tasks that change them a driver call at a time.

Owners share the collections of the database, and the threads of the pool run tasks of different owners, or of
one, at the same time. What a task does to its collection it does one driver call after the other: a task of
callables calls them in order and flags each entry right after its call; the bulk of a task of writes is applied
one write after the other, and all entries are flagged when it is through. Between any two of these units every
other party can take any number of its own.

The queues see a task as before: it is in the pool from the `update` that hands it over until it ends. A task of
callables holds the entries it has not called yet. The writes of a bulk that have been applied without being
flagged are listed beside (`applied`). Each unit moves every queue as `QueueMove` says (`QueuesMove`), so the
invariants of the family go on to hold (`Working`), and it performs one entry or none (`Performs`).

Modelling choices:

* A callable changes the collection it is given, in one unit, and reads no other.
* No bulk is stopped by a driver error. A write of a bulk is applied in one unit.
-/
import Sekkeizu.Semantics.Serial
import Sekkeizu.Database.Applied
import Sekkeizu.Database.Batches
import Sekkeizu.Database.Bulk
import Sekkeizu.Database.Progress

namespace Sekkeizu

open PartialSystem

variable {doc callable : Type*}

/-! ## The parties -/

/-- A family, what its bulks under way have applied, and what each collection of the database holds. -/
structure Store (doc callable : Type*) where
  family : Finmap fun _ : UInt64 => World doc callable
  /-- The writes applied and not flagged, by owner and collection. -/
  applied : UInt64 → UInt8 → List Nat
  content : UInt8 → List doc

/-- One unit of one party. -/
inductive Store.Action (doc callable : Type*) where
  /-- A call of an object. -/
  | call (owner : UInt64) (call : Call doc callable)
  /-- The task at this position calls its next callable, and flags the entry. -/
  | callNext (owner : UInt64) (position : Nat)
  /-- The driver applies the next write of the bulk of the task at this position. -/
  | applyNext (owner : UInt64) (position : Nat)
  /-- The bulk is through: the task at this position flags its entries and ends. -/
  | flagAll (owner : UInt64) (position : Nat)

inductive StoreEvent where
  /-- What a caller or the database sees of an object. -/
  | queue (owner : UInt64) (event : Event)
  /-- A callable was called, or a write applied. -/
  | performed (owner : UInt64) (collection : UInt8) (id : Nat)
  deriving DecidableEq, Repr

/-- The entry the task calls first is flagged, and the task goes on with the rest, or ends. -/
def World.finishFirst (position : Nat) (task : Task) (id : Nat) (rest : List Nat)
    (w : World doc callable) : World doc callable where
  object := w.object.runTask { task with transactions := [id] }
  submitted :=
    if rest = [] then w.submitted.eraseIdx position
    else w.submitted.set position { task with transactions := rest }

/-- The task at a position of the owner's pool. -/
def Store.taskAt (owner : UInt64) (position : Nat) (s : Store doc callable) :
    Option (World doc callable × Task) :=
  (s.family.lookup owner).bind fun w => w.submitted[position]?.map fun task => (w, task)

section Units

variable [Bson doc] [Driver doc] (run : callable → List doc → List doc)

/-- `(*t->callable)(col); t->done = true; t->pending = false`. Calling a callable that is not there has no
successor. -/
def Store.callNext (owner : UInt64) (position : Nat) (s : Store doc callable) :
    Option (Store doc callable × List StoreEvent) :=
  (s.taskAt owner position).bind fun (w, task) =>
    match task.callables, task.transactions with
    | true, id :: rest =>
      ((Family.entry s.family owner task.collection id).bind TransactionInfo.callable).map fun function =>
        ({ s with
            family := s.family.insert owner (w.finishFirst position task id rest)
            content := Function.update s.content task.collection
              (run function (s.content task.collection)) },
          [.performed owner task.collection id])
    | _, _ => none

/-- One write of `mongoc_bulk_operation_execute`: the first one that has not been applied. -/
def Store.applyNext (owner : UInt64) (position : Nat) (s : Store doc callable) :
    Option (Store doc callable × List StoreEvent) :=
  (s.taskAt owner position).bind fun (_, task) =>
    if task.callables then none
    else
      (task.transactions.find? fun id => !(s.applied owner task.collection).contains id).bind fun id =>
        (Family.entry s.family owner task.collection id).map fun t =>
          ({ s with
              applied := Function.update s.applied owner (Function.update (s.applied owner)
                task.collection (s.applied owner task.collection ++ [id]))
              content := Function.update s.content task.collection
                (t.bulkOperation.execute (s.content task.collection)) },
            [.performed owner task.collection id])

/-- The end of a task of writes, once all of them have been applied. -/
def Store.flagAll (database : Database) (owner : UInt64) (position : Nat) (s : Store doc callable) :
    Option (Store doc callable × List StoreEvent) :=
  (s.taskAt owner position).bind fun (_, task) =>
    if task.callables then none
    else if task.transactions.all fun id => (s.applied owner task.collection).contains id then
      (Family.step database s.family (owner, .runTask position)).map fun (family, evs) =>
        ({ s with
            family := family
            applied := Function.update s.applied owner (Function.update (s.applied owner)
              task.collection ((s.applied owner task.collection).filter fun id =>
                !task.transactions.contains id)) },
          evs.map fun ev => .queue ev.1 ev.2)
    else none

/-- One unit. A task is not run by a call. -/
def Store.step (database : Database) :
    Step (Store doc callable) (Store.Action doc callable) StoreEvent := fun s action =>
  match action with
  | .call _ (.runTask _) => none
  | .call owner call =>
    (Family.step database s.family (owner, call)).map fun (family, evs) =>
      ({ s with family := family }, evs.map fun ev => .queue ev.1 ev.2)
  | .callNext owner position => s.callNext run owner position
  | .applyNext owner position => s.applyNext owner position
  | .flagAll owner position => s.flagAll database owner position

end Units

/-- The writes applied of the other bulks stay. -/
theorem applied_update_of_ne {applied : UInt64 → UInt8 → List Nat} {owner owner' : UInt64}
    {collection collection' : UInt8} (h : ¬ (owner' = owner ∧ collection' = collection)) (ids : List Nat) :
    Function.update applied owner (Function.update (applied owner) collection ids) owner' collection' =
      applied owner' collection' := by
  by_cases howner : owner' = owner
  · subst howner
    rw [Function.update_self, Function.update_of_ne fun heq => h ⟨rfl, heq⟩]
  · rw [Function.update_of_ne howner]

def Store.start (database : Database)
    (objects : Finmap fun _ : UInt64 => UInt64 × Transaction doc callable)
    (content : UInt8 → List doc) : Config (Store doc callable) StoreEvent where
  state :=
    { family := (Family.start database objects).state, applied := fun _ _ => [], content := content }
  history := []

/-- What the objects have shown. -/
def queueEvents (history : List StoreEvent) : List (UInt64 × Event) :=
  history.filterMap fun
    | .queue owner event => some (owner, event)
    | _ => none

/-- The family, with the history so far. -/
def storeFamily (x : Config (Store doc callable) StoreEvent) :
    Config (Finmap fun _ : UInt64 => World doc callable) (UInt64 × Event) :=
  ⟨x.state.family, queueEvents x.history⟩

/-- The entries performed in a collection, owner and id, in that order. -/
def executed (collection : UInt8) (history : List StoreEvent) : List (UInt64 × Nat) :=
  history.filterMap fun
    | .performed owner collection' id => if collection' = collection then some (owner, id) else none
    | _ => none

/-- The entry has been performed: it is flagged, or applied by a bulk under way. -/
def Store.Performed (s : Store doc callable) (collection : UInt8) (op : UInt64 × Nat) : Prop :=
  Family.Done s.family op.1 collection op.2 ∨ op.2 ∈ s.applied op.1 collection

/-- The unit is of the task at this position. -/
def Store.Action.WorksAt (owner : UInt64) (position : Nat) (action : Store.Action doc callable) : Prop :=
  action = .callNext owner position ∨ action = .applyNext owner position

/-- Dependencies name returned ids. -/
def Store.NamesReturnedId (x : Config (Store doc callable) StoreEvent) :
    Store.Action doc callable → Prop
  | .call owner call => Sekkeizu.NamesReturnedId (storeFamily x) (owner, call)
  | _ => True

/-- The pool works on the oldest task it holds of the owner for that collection. -/
def Store.OldestFirst (x : Config (Store doc callable) StoreEvent) (action : Store.Action doc callable) :
    Prop :=
  ∀ owner position w, action.WorksAt owner position → x.state.family.lookup owner = some w →
    Sekkeizu.OldestFirst (memberConfig (storeFamily x) owner w) (.runTask position)

theorem taskAt_eq_some {s : Store doc callable} {owner : UInt64} {position : Nat} {w : World doc callable}
    {task : Task} :
    s.taskAt owner position = some (w, task) ↔
      s.family.lookup owner = some w ∧ w.submitted[position]? = some task := by
  simp only [Store.taskAt, Option.bind_eq_some_iff, Option.map_eq_some_iff, Prod.mk.injEq]
  constructor
  · rintro ⟨w', hw, task', htask, rfl, rfl⟩
    exact ⟨hw, htask⟩
  · rintro ⟨hw, htask⟩
    exact ⟨w, hw, task, htask, rfl, rfl⟩

/-- The unit of a task of callables. -/
theorem callNext_eq (run : callable → List doc → List doc) {s : Store doc callable} {owner : UInt64}
    {position : Nat} {w : World doc callable} {task : Task} {id : Nat} {rest : List Nat}
    {t : TransactionInfo doc callable} {function : callable} (hw : s.family.lookup owner = some w)
    (hposition : w.submitted[position]? = some task) (hkind : task.callables = true)
    (htransactions : task.transactions = id :: rest)
    (ht : Family.entry s.family owner task.collection id = some t) (hfunction : t.callable = some function) :
    s.callNext run owner position =
      some ({ s with
          family := s.family.insert owner (w.finishFirst position task id rest)
          content := Function.update s.content task.collection (run function (s.content task.collection)) },
        [.performed owner task.collection id]) := by
  simp only [Store.callNext, taskAt_eq_some.mpr ⟨hw, hposition⟩, Option.bind_some, hkind, htransactions, ht,
    hfunction, Option.map_some]

@[simp] theorem queueEvents_append (h₁ h₂ : List StoreEvent) :
    queueEvents (h₁ ++ h₂) = queueEvents h₁ ++ queueEvents h₂ :=
  List.filterMap_append

@[simp] theorem queueEvents_queue (evs : List (UInt64 × Event)) :
    queueEvents (evs.map fun ev => .queue ev.1 ev.2) = evs := by
  rw [queueEvents, List.filterMap_map]
  exact List.filterMap_some

@[simp] theorem queueEvents_performed (owner : UInt64) (collection : UInt8) (id : Nat) :
    queueEvents [.performed owner collection id] = [] := rfl

@[simp] theorem executed_append (collection : UInt8) (h₁ h₂ : List StoreEvent) :
    executed collection (h₁ ++ h₂) = executed collection h₁ ++ executed collection h₂ :=
  List.filterMap_append

@[simp] theorem executed_queue (collection : UInt8) (evs : List (UInt64 × Event)) :
    executed collection (evs.map fun ev => .queue ev.1 ev.2) = [] := by
  induction evs with
  | nil => rfl
  | cons ev evs ih => exact ih

theorem executed_performed (collection collection' : UInt8) (owner : UInt64) (id : Nat) :
    executed collection [.performed owner collection' id] =
      if collection' = collection then [(owner, id)] else [] := by
  by_cases h : collection' = collection <;> simp [executed, h]

/-! ## Steps of the queues -/

section FamilySteps

variable [Bson doc] {database : Database}

/-- A call takes no task out of the pool. -/
theorem submitted_subset_of_step {w w' : World doc callable} {call : Call doc callable} {ev : List Event}
    (h : World.step database w call = some (w', ev)) (hcall : ∀ position, call ≠ .runTask position) :
    w.submitted ⊆ w'.submitted := by
  cases fires_of_step h with
  | push => exact List.Subset.refl _
  | update diff order getter horder =>
      intro task htask
      dsimp only
      rw [foldl_execute]
      split_ifs
      · exact List.mem_append_left _ htask
      · exact htask
  | flag => exact List.Subset.refl _
  | unflag => exact List.Subset.refl _
  | run position => exact absurd rfl (hcall position)

/-- The end of the task at a position. -/
theorem familyStep_runTask (database : Database) {family : Finmap fun _ : UInt64 => World doc callable}
    {owner : UInt64} {w : World doc callable} {position : Nat} {task : Task}
    (hw : family.lookup owner = some w) (hposition : w.submitted[position]? = some task) :
    Family.step database family (owner, .runTask position) =
      some (family.insert owner
        { object := w.object.runTask task, submitted := w.submitted.eraseIdx position },
        [(owner, .ran task)]) := by
  refine familyStep_eq_some.mpr ⟨w, _, [.ran task], hw, ?_, rfl, rfl⟩
  simp only [Call.completed, World.step, hposition]

/-- Running a task does its entries. -/
theorem Family.Accounted.done_runTask
    {x : Config (Finmap fun _ : UInt64 => World doc callable) (UInt64 × Event)}
    (h : Family.Accounted database x) {owner : UInt64} {w : World doc callable}
    (hw : x.state.lookup owner = some w) {position : Nat} {task : Task}
    (hposition : w.submitted[position]? = some task)
    {family : Finmap fun _ : UInt64 => World doc callable} {evs : List (UInt64 × Event)}
    (hstep : Family.step database x.state (owner, .runTask position) = some (family, evs))
    {owner' : UInt64} {collection : UInt8} {i : Nat} :
    Family.Done family owner' collection i ↔ Family.Done x.state owner' collection i ∨
      (owner' = owner ∧ collection = task.collection) ∧ i ∈ task.transactions := by
  rw [h.done_step hstep]
  obtain rfl := congrArg Prod.snd
    (Option.some.inj (hstep.symm.trans (familyStep_runTask database hw hposition)))
  refine or_congr Iff.rfl ⟨?_, ?_⟩
  · rintro ⟨task', hran, rfl, hi⟩
    obtain ⟨rfl, hsame⟩ := Prod.mk.inj (List.mem_singleton.mp hran)
    obtain rfl := Event.ran.inj hsame
    exact ⟨⟨rfl, rfl⟩, hi⟩
  · rintro ⟨⟨rfl, rfl⟩, hi⟩
    exact ⟨task, List.mem_singleton_self _, rfl, hi⟩

end FamilySteps

/-! ## The first callable of a task, seen from the queues -/

section FinishFirst

variable {w : World doc callable} {position : Nat} {task : Task} {id : Nat} {rest : List Nat}
variable {before after : List Task}

theorem finishFirst_submitted (hsubmitted : w.submitted = before ++ task :: after)
    (hposition : before.length = position) :
    (w.finishFirst position task id rest).submitted =
      before ++ (if rest = [] then [] else [{ task with transactions := rest }]) ++ after := by
  subst hposition
  rw [World.finishFirst, hsubmitted]
  split_ifs
  · rw [List.eraseIdx_append_of_length_le (Nat.le_refl _), Nat.sub_self, List.eraseIdx_cons_zero,
      List.append_nil]
  · simp

theorem mem_of_mem_finishFirst (hsubmitted : w.submitted = before ++ task :: after)
    (hposition : before.length = position) {other : Task}
    (hother : other ∈ (w.finishFirst position task id rest).submitted) :
    other ∈ w.submitted ∨ other = { task with transactions := rest } ∧ rest ≠ [] := by
  rw [finishFirst_submitted hsubmitted hposition] at hother
  rw [hsubmitted]
  split_ifs at hother with hrest
  · left
    rcases List.mem_append.mp hother with hbefore | hafter
    · exact List.mem_append_left _ (by simpa using hbefore)
    · exact List.mem_append_right _ (List.mem_cons_of_mem _ hafter)
  · rcases List.mem_append.mp hother with hfront | hafter
    · rcases List.mem_append.mp hfront with hbefore | hself
      · exact Or.inl (List.mem_append_left _ hbefore)
      · exact Or.inr ⟨List.mem_singleton.mp hself, hrest⟩
    · exact Or.inl (List.mem_append_right _ (List.mem_cons_of_mem _ hafter))

/-- The other tasks stay in the pool. -/
theorem mem_finishFirst_of_ne (hsubmitted : w.submitted = before ++ task :: after)
    (hposition : before.length = position) {other : Task} (hne : other ≠ task)
    (hother : other ∈ w.submitted) : other ∈ (w.finishFirst position task id rest).submitted := by
  rw [finishFirst_submitted hsubmitted hposition]
  rw [hsubmitted] at hother
  rcases List.mem_append.mp hother with hbefore | hafter
  · exact List.mem_append_left _ (List.mem_append_left _ hbefore)
  · rcases List.mem_cons.mp hafter with rfl | hafter
    · exact absurd rfl hne
    · exact List.mem_append_right _ hafter

theorem lookup_finishFirst (collection : UInt8) :
    (w.finishFirst position task id rest).object.collections.lookup collection =
      (w.object.collections.lookup collection).map fun info =>
        if collection = task.collection then info.finished [id] else info := by
  dsimp only [World.finishFirst, Transaction.runTask]
  rw [Finmap.lookup_modify]
  split_ifs with heq
  · rfl
  · simp

/-- What is outstanding of the task afterwards. -/
theorem outstanding_rest (collection : UInt8) :
    outstanding collection (if rest = [] then [] else [{ task with transactions := rest }]) =
      if task.collection = collection then rest else [] := by
  by_cases hrest : rest = [] <;> by_cases heq : task.collection = collection <;>
    simp [outstanding, hrest, heq]

/-- The entries of all owners: the one called is flagged. -/
theorem entry_finishFirst {family : Finmap fun _ : UInt64 => World doc callable} {owner : UInt64}
    (hw : family.lookup owner = some w) (owner' : UInt64) (collection : UInt8) (id' : Nat) :
    Family.entry (family.insert owner (w.finishFirst position task id rest)) owner' collection id' =
      (Family.entry family owner' collection id').map fun e =>
        if owner' = owner ∧ collection = task.collection ∧ id' = id then e.finish else e := by
  rw [Family.entry, Family.entry, Finmap.lookup_insert_eq]
  by_cases howner : owner' = owner
  · subst howner
    rw [if_pos rfl, hw, Option.bind_some, Option.bind_some, Transaction.getTransaction,
      Transaction.getTransaction, lookup_finishFirst]
    cases w.object.collections.lookup collection with
    | none => rfl
    | some info =>
        by_cases hcollection : collection = task.collection
        · simp only [Option.map_some, hcollection, if_true, true_and]
          rw [CollectionInfo.Sound.lookup_finished]
          simp only [List.mem_singleton]
          split_ifs
          · rfl
          · simp
        · simp [hcollection]
  · simp [howner]

variable [Bson doc]

/-- **The queue of the task** gets one entry finished, and every other one stays. -/
theorem finishFirst_move {connected : Bool} (hsubmitted : w.submitted = before ++ task :: after)
    (hposition : before.length = position) (htransactions : task.transactions = id :: rest)
    {collection : UInt8} {info : CollectionInfo doc callable}
    (hlookup : w.object.collections.lookup collection = some info) :
    ∃ info', (w.finishFirst position task id rest).object.collections.lookup collection = some info' ∧
      QueueMove connected (.runTask position : Call doc callable) collection info
        (outstanding collection w.submitted) info' []
        (outstanding collection (w.finishFirst position task id rest).submitted) := by
  have hcons : outstanding collection (task :: after) =
      outstanding collection [task] ++ outstanding collection after := by
    rw [← outstanding_append, List.singleton_append]
  rw [lookup_finishFirst, hlookup, finishFirst_submitted hsubmitted hposition, hsubmitted,
    Option.map_some, outstanding_append, outstanding_append, outstanding_append, outstanding_rest, hcons]
  refine ⟨_, rfl, ?_⟩
  by_cases heq : collection = task.collection
  · subst heq
    rw [if_pos rfl, if_pos rfl, outstanding_singleton_self, htransactions, List.append_assoc]
    exact .finish position _ [id] _ rfl (by simp)
  · rw [if_neg heq, if_neg (Ne.symm heq), outstanding_singleton_ne (Ne.symm heq), List.nil_append,
      List.append_nil]
    exact .stay

variable {database : Database}

theorem Accounted.finishFirst {history : List Event} (h : Accounted database ⟨w, history⟩)
    (hsubmitted : w.submitted = before ++ task :: after) (hposition : before.length = position)
    (htransactions : task.transactions = id :: rest) :
    Accounted database ⟨w.finishFirst position task id rest, history⟩ := by
  have hin : task ∈ w.submitted := by simp [hsubmitted]
  have hconn := h.connected_of_mem hin
  have hthere : ∀ collection ∈ w.object.collections,
      collection ∈ (w.finishFirst position task id rest).object.collections := by
    intro collection hmem
    obtain ⟨info, hinfo⟩ := Finmap.mem_iff.mp hmem
    exact Finmap.mem_iff.mpr ⟨_, by rw [lookup_finishFirst, hinfo]; rfl⟩
  refine ⟨?_, ?_, ?_, fun hoff => absurd (hconn.symm.trans hoff) (by simp)⟩
  · intro collection info' hinfo'
    dsimp only at hinfo' ⊢
    cases hinfo : w.object.collections.lookup collection with
    | none =>
        rw [lookup_finishFirst, hinfo] at hinfo'
        exact absurd hinfo' (by simp)
    | some info =>
        obtain ⟨info₁, hinfo₁, hmove⟩ := finishFirst_move hsubmitted hposition htransactions hinfo
        obtain rfl := Option.some.inj (hinfo₁.symm.trans hinfo')
        have hledger := (h.ledger hinfo).move hmove fun _ _ => hconn
        rwa [List.append_nil] at hledger
  · intro other hother
    rcases mem_of_mem_finishFirst hsubmitted hposition hother with hold | ⟨rfl, hrest⟩
    · exact h.nonempty other hold
    · exact hrest
  · intro other hother
    rcases mem_of_mem_finishFirst hsubmitted hposition hother with hold | ⟨rfl, -⟩
    · exact hthere _ (h.exists_collection other hold)
    · exact hthere _ (h.exists_collection task hin)

end FinishFirst

section FinishFirstOfFamily

variable {database : Database}
variable {x : Config (Finmap fun _ : UInt64 => World doc callable) (UInt64 × Event)}
variable {owner : UInt64} {w : World doc callable} {position : Nat} {task : Task} {id : Nat}
variable {rest : List Nat}

/-- Which entries are flagged afterwards. -/
theorem done_finishFirst {family : Finmap fun _ : UInt64 => World doc callable}
    (hw : family.lookup owner = some w) {e : TransactionInfo doc callable}
    (he : Family.entry family owner task.collection id = some e) {owner' : UInt64}
    {collection : UInt8} {id' : Nat} :
    Family.Done (family.insert owner (w.finishFirst position task id rest)) owner' collection id' ↔
      Family.Done family owner' collection id' ∨
        owner' = owner ∧ collection = task.collection ∧ id' = id := by
  unfold Family.Done
  rw [entry_finishFirst hw]
  constructor
  · rintro ⟨e', he', hflag⟩
    obtain ⟨e₀, he₀, rfl⟩ := Option.map_eq_some_iff.mp he'
    split_ifs at hflag with hself
    · exact Or.inr hself
    · exact Or.inl ⟨e₀, he₀, hflag⟩
  · rintro (⟨e₀, he₀, hflag⟩ | ⟨rfl, rfl, rfl⟩)
    · refine ⟨_, by rw [he₀]; rfl, ?_⟩
      split_ifs
      · rfl
      · exact hflag
    · exact ⟨e.finish, by simp [he], rfl⟩

variable [Bson doc]

/-- The books of every owner stay right. -/
theorem Family.Accounted.finishFirst (h : Family.Accounted database x)
    (hw : x.state.lookup owner = some w) (hposition : w.submitted[position]? = some task)
    (htransactions : task.transactions = id :: rest) :
    Family.Accounted database
      ⟨x.state.insert owner (w.finishFirst position task id rest), x.history⟩ := by
  intro owner' w' hw'
  dsimp only at hw'
  rw [Finmap.lookup_insert_eq] at hw'
  split_ifs at hw' with howner
  · obtain rfl := Option.some.inj hw'
    subst howner
    obtain ⟨before, after, hsubmitted, hlength, -⟩ := List.split_of_getElem? hposition
    have haccounted : Sekkeizu.Accounted database ⟨w, eventsOf owner' x.history⟩ := h owner' w hw
    exact haccounted.finishFirst hsubmitted hlength htransactions
  · exact h owner' w' hw'

/-- Dependencies stay barriers. -/
theorem Barriers.finishFirst (h : Barriers database x) (hw : x.state.lookup owner = some w)
    (hposition : w.submitted[position]? = some task) (htransactions : task.transactions = id :: rest) :
    Barriers database ⟨x.state.insert owner (w.finishFirst position task id rest), x.history⟩ := by
  have hentry : ∀ owner' collection id',
      Family.entry (x.state.insert owner (w.finishFirst position task id rest)) owner' collection id' =
        (Family.entry x.state owner' collection id').map fun e =>
          if owner' = owner ∧ collection = task.collection ∧ id' = id then e.finish else e :=
    fun owner' collection id' => entry_finishFirst hw owner' collection id'
  have hdone : ∀ {owner' collection id' e}, Family.entry x.state owner' collection id' = some e →
      e.done = true → ∃ e', Family.entry (x.state.insert owner (w.finishFirst position task id rest))
        owner' collection id' = some e' ∧ e'.done = true := by
    intro owner' collection id' e he hflag
    refine ⟨_, by rw [hentry, he]; rfl, ?_⟩
    split_ifs
    · rfl
    · exact hflag
  refine ⟨h.accounted.finishFirst hw hposition htransactions, ?_, ?_, ?_⟩
  · intro owner' collection id' hmem
    obtain ⟨e, he, hnone⟩ := h.returned hmem
    refine ⟨_, by rw [hentry, he]; rfl, ?_⟩
    split_ifs
    · exact hnone
    · exact hnone
  · intro owner' collection slot e' d he' hd
    rw [hentry] at he'
    obtain ⟨e, he, rfl⟩ := Option.map_eq_some_iff.mp he'
    refine h.named he ?_
    split_ifs at hd
    · exact hd
    · exact hd
  · intro owner' w' collection info' hw' hinfo' slot hslot e' d he' hd
    have hbefore : ∃ w₀ info, x.state.lookup owner' = some w₀ ∧
        w₀.object.collections.lookup collection = some info ∧ info'.firstId = info.firstId := by
      dsimp only at hw'
      rw [Finmap.lookup_insert_eq] at hw'
      split_ifs at hw' with howner
      · obtain rfl := Option.some.inj hw'
        rw [lookup_finishFirst] at hinfo'
        obtain ⟨info, hinfo, rfl⟩ := Option.map_eq_some_iff.mp hinfo'
        refine ⟨w, info, howner ▸ hw, hinfo, ?_⟩
        split_ifs
        · rfl
        · rfl
      · exact ⟨w', info', hw', hinfo', rfl⟩
    obtain ⟨w₀, info, hw₀, hinfo, hfirst⟩ := hbefore
    have hnow : Family.entry (x.state.insert owner (w.finishFirst position task id rest)) owner'
        collection slot = some e' := entry_eq_some.mpr ⟨w', info', hw', hinfo', he'⟩
    rw [hentry] at hnow
    obtain ⟨e, he, rfl⟩ := Option.map_eq_some_iff.mp hnow
    obtain ⟨w₁, info₁, hw₁, hinfo₁, hlookup⟩ := entry_eq_some.mp he
    obtain rfl := Option.some.inj (hw₁.symm.trans hw₀)
    obtain rfl := Option.some.inj (hinfo₁.symm.trans hinfo)
    have hdep : e.dependency = some d := by
      split_ifs at hd
      · exact hd
      · exact hd
    obtain ⟨target, htarget, hflag⟩ := h.met hw₀ hinfo slot (hfirst ▸ hslot) e d hlookup hdep
    exact hdone htarget hflag

/-- Every queue of every owner moves. -/
def QueuesMove (connected : Bool) (family family' : Finmap fun _ : UInt64 => World doc callable) : Prop :=
  ∀ owner w collection info, family.lookup owner = some w →
    w.object.collections.lookup collection = some info →
    ∃ w' info' ids, ∃ call : Call doc callable, family'.lookup owner = some w' ∧
      w'.object.collections.lookup collection = some info' ∧
      QueueMove connected call collection info (outstanding collection w.submitted) info' ids
        (outstanding collection w'.submitted)

theorem QueuesMove.refl (connected : Bool) (family : Finmap fun _ : UInt64 => World doc callable) :
    QueuesMove connected family family :=
  fun _ w _ info hw hinfo => ⟨w, info, [], .flagDeletion, hw, hinfo, .stay⟩

theorem queuesMove_of_step (h : Family.Accounted database x)
    {y : Config (Finmap fun _ : UInt64 => World doc callable) (UInt64 × Event)}
    {a : UInt64 × Call doc callable} (hnext : (Family.step database).next x a = some y) :
    QueuesMove database.isConnected x.state y.state := by
  intro owner w collection info hw hinfo
  obtain ⟨w', info', call, ids, hw', hinfo', -, hmove⟩ := family_move h hnext hw hinfo
  exact ⟨w', info', ids, call, hw', hinfo', hmove⟩

theorem queuesMove_finishFirst {connected : Bool} (hw : x.state.lookup owner = some w)
    (hposition : w.submitted[position]? = some task) (htransactions : task.transactions = id :: rest) :
    QueuesMove connected x.state (x.state.insert owner (w.finishFirst position task id rest)) := by
  intro owner' w' collection info hw' hinfo
  by_cases howner : owner' = owner
  · subst howner
    obtain rfl := Option.some.inj (hw'.symm.trans hw)
    obtain ⟨before, after, hsubmitted, hlength, -⟩ := List.split_of_getElem? hposition
    obtain ⟨info', hinfo', hmove⟩ := finishFirst_move hsubmitted hlength htransactions hinfo
    exact ⟨_, info', [], _, Finmap.lookup_insert _, hinfo', hmove⟩
  · exact ⟨w', info, [], .flagDeletion, (Finmap.lookup_insert_of_ne _ howner).trans hw', hinfo, .stay⟩

end FinishFirstOfFamily

/-! ## What an entry keeps -/

section SameCode

/-- An entry is left as it is but for its flags. -/
def TransactionInfo.SameCode (e e' : TransactionInfo doc callable) : Prop :=
  e' = { e with pending := e'.pending, done := e'.done }

theorem TransactionInfo.SameCode.refl (e : TransactionInfo doc callable) : e.SameCode e := rfl

variable [Bson doc]

/-- Whatever moves a queue changes only flags of the entries that are there. -/
theorem QueueMove.sameCode {connected : Bool} {call : Call doc callable} {collection : UInt8}
    {info info' : CollectionInfo doc callable} {out ids out' : List Nat}
    (hmove : QueueMove connected call collection info out info' ids out') (h : info.Sound) {id : Nat}
    {e : TransactionInfo doc callable} (he : info.transactions.lookup id = some e) :
    ∃ e', info'.transactions.lookup id = some e' ∧ e.SameCode e' := by
  cases hmove with
  | stay => exact ⟨e, he, .refl e⟩
  | push write hwrite =>
      have hne : id ≠ info.currentId := Nat.ne_of_lt (h.lt_of_lookup he)
      exact ⟨e, (Finmap.lookup_insert_of_ne _ hne).trans he, .refl e⟩
  | scan diff order getter hcall =>
      rw [CollectionInfo.Sound.lookup_scanned, he]
      split_ifs
      · exact ⟨e.setPending, rfl, rfl⟩
      · exact ⟨e, rfl, .refl e⟩
  | finish position before ids after hcall hout =>
      rw [CollectionInfo.Sound.lookup_finished, he]
      split_ifs
      · exact ⟨e.finish, rfl, rfl⟩
      · exact ⟨e, rfl, .refl e⟩

/-- The same, for the entries of a family. -/
theorem QueuesMove.sameCode {database : Database}
    {x : Config (Finmap fun _ : UInt64 => World doc callable) (UInt64 × Event)}
    {family' : Finmap fun _ : UInt64 => World doc callable} {connected : Bool}
    (hmoves : QueuesMove connected x.state family') (h : Family.Accounted database x) {owner : UInt64}
    {collection : UInt8} {id : Nat} {e : TransactionInfo doc callable}
    (he : Family.entry x.state owner collection id = some e) :
    ∃ e', Family.entry family' owner collection id = some e' ∧ e.SameCode e' := by
  obtain ⟨w, info, hw, hinfo, he⟩ := entry_eq_some.mp he
  obtain ⟨w', info', ids, call, hw', hinfo', hmove⟩ := hmoves owner w collection info hw hinfo
  obtain ⟨e', he', hcode⟩ := hmove.sameCode ((h owner w hw).ledger hinfo).sound he
  exact ⟨e', entry_eq_some.mpr ⟨w', info', hw', hinfo', he'⟩, hcode⟩

end SameCode

/-! ## One unit -/

section Step

variable [Bson doc] [Driver doc] {run : callable → List doc → List doc} {database : Database}

/-- **One unit**: the action, the store afterwards and the events. -/
inductive Store.Acts (run : callable → List doc → List doc) (database : Database) (s : Store doc callable) :
    Store.Action doc callable → Store doc callable → List StoreEvent → Prop
  | call (owner : UInt64) (call : Call doc callable)
      (family : Finmap fun _ : UInt64 => World doc callable) (evs : List (UInt64 × Event))
      (hcall : ∀ position, call ≠ .runTask position)
      (hstep : Family.step database s.family (owner, call) = some (family, evs)) :
      Acts run database s (.call owner call) { s with family := family }
        (evs.map fun ev => .queue ev.1 ev.2)
  | callNext (owner : UInt64) (position : Nat) (w : World doc callable) (task : Task) (id : Nat)
      (rest : List Nat) (t : TransactionInfo doc callable) (function : callable)
      (hw : s.family.lookup owner = some w) (hposition : w.submitted[position]? = some task)
      (hkind : task.callables = true) (htransactions : task.transactions = id :: rest)
      (ht : Family.entry s.family owner task.collection id = some t)
      (hfunction : t.callable = some function) :
      Acts run database s (.callNext owner position)
        { s with
          family := s.family.insert owner (w.finishFirst position task id rest)
          content := Function.update s.content task.collection
            (run function (s.content task.collection)) }
        [.performed owner task.collection id]
  | applyNext (owner : UInt64) (position : Nat) (w : World doc callable) (task : Task)
      (front : List Nat) (id : Nat) (rest : List Nat) (t : TransactionInfo doc callable)
      (hw : s.family.lookup owner = some w) (hposition : w.submitted[position]? = some task)
      (hkind : task.callables = false) (htransactions : task.transactions = front ++ id :: rest)
      (hfront : ∀ i ∈ front, i ∈ s.applied owner task.collection)
      (hid : id ∉ s.applied owner task.collection)
      (ht : Family.entry s.family owner task.collection id = some t) :
      Acts run database s (.applyNext owner position)
        { s with
          applied := Function.update s.applied owner (Function.update (s.applied owner)
            task.collection (s.applied owner task.collection ++ [id]))
          content := Function.update s.content task.collection
            (t.bulkOperation.execute (s.content task.collection)) }
        [.performed owner task.collection id]
  | flagAll (owner : UInt64) (position : Nat) (w : World doc callable) (task : Task)
      (family : Finmap fun _ : UInt64 => World doc callable) (evs : List (UInt64 × Event))
      (hw : s.family.lookup owner = some w) (hposition : w.submitted[position]? = some task)
      (hkind : task.callables = false)
      (hall : ∀ id ∈ task.transactions, id ∈ s.applied owner task.collection)
      (hstep : Family.step database s.family (owner, .runTask position) = some (family, evs)) :
      Acts run database s (.flagAll owner position)
        { s with
          family := family
          applied := Function.update s.applied owner (Function.update (s.applied owner)
            task.collection ((s.applied owner task.collection).filter fun id =>
              !task.transactions.contains id)) }
        (evs.map fun ev => .queue ev.1 ev.2)

variable {s s' : Store doc callable} {evs : List StoreEvent} {owner : UInt64} {position : Nat}

theorem acts_of_callNext (h : s.callNext run owner position = some (s', evs)) :
    s.Acts run database (.callNext owner position) s' evs := by
  obtain ⟨⟨w, task⟩, htask, h⟩ := Option.bind_eq_some_iff.mp h
  obtain ⟨hw, hposition⟩ := taskAt_eq_some.mp htask
  cases hkind : task.callables with
  | false => simp [hkind] at h
  | true =>
      cases htransactions : task.transactions with
      | nil => simp [hkind, htransactions] at h
      | cons id rest =>
          simp only [hkind, htransactions] at h
          obtain ⟨function, hfunction, heq⟩ := Option.map_eq_some_iff.mp h
          obtain ⟨t, ht, hfunction⟩ := Option.bind_eq_some_iff.mp hfunction
          obtain ⟨rfl, rfl⟩ := Prod.mk.inj heq
          exact .callNext owner position w task id rest t function hw hposition hkind htransactions ht
            hfunction

theorem acts_of_applyNext (h : s.applyNext owner position = some (s', evs)) :
    s.Acts run database (.applyNext owner position) s' evs := by
  obtain ⟨⟨w, task⟩, htask, h⟩ := Option.bind_eq_some_iff.mp h
  obtain ⟨hw, hposition⟩ := taskAt_eq_some.mp htask
  dsimp only at h
  split_ifs at h with hkind
  rw [Bool.not_eq_true] at hkind
  obtain ⟨id, hfind, h⟩ := Option.bind_eq_some_iff.mp h
  obtain ⟨t, ht, heq⟩ := Option.map_eq_some_iff.mp h
  obtain ⟨rfl, rfl⟩ := Prod.mk.inj heq
  obtain ⟨hid, front, rest, htransactions, hfront⟩ := List.find?_eq_some_iff_append.mp hfind
  refine .applyNext owner position w task front id rest t hw hposition hkind htransactions ?_ ?_ ht
  · intro i hi
    simpa using hfront i hi
  · simpa using hid

theorem acts_of_flagAll (h : s.flagAll database owner position = some (s', evs)) :
    s.Acts run database (.flagAll owner position) s' evs := by
  obtain ⟨⟨w, task⟩, htask, h⟩ := Option.bind_eq_some_iff.mp h
  obtain ⟨hw, hposition⟩ := taskAt_eq_some.mp htask
  dsimp only at h
  split_ifs at h with hkind hall
  rw [Bool.not_eq_true] at hkind
  obtain ⟨⟨family, evs'⟩, hstep, heq⟩ := Option.map_eq_some_iff.mp h
  obtain ⟨rfl, rfl⟩ := Prod.mk.inj heq
  refine .flagAll owner position w task family evs' hw hposition hkind ?_ hstep
  intro id hid
  simpa using List.all_eq_true.mp hall id hid

/-- **The inversion of `Store.step`.** -/
theorem acts_of_storeStep {action : Store.Action doc callable}
    (h : Store.step run database s action = some (s', evs)) : s.Acts run database action s' evs := by
  cases action with
  | call owner call =>
      have hcall : ∀ position, call ≠ .runTask position := by
        rintro position rfl
        exact absurd h (by simp [Store.step])
      have hstep : ((Family.step database s.family (owner, call)).map fun r =>
          (({ s with family := r.1 }, r.2.map fun ev => .queue ev.1 ev.2) :
            Store doc callable × List StoreEvent)) = some (s', evs) := by
        cases call with
        | runTask position => exact absurd rfl (hcall position)
        | _ => exact h
      obtain ⟨⟨family, evs'⟩, hfamily, heq⟩ := Option.map_eq_some_iff.mp hstep
      obtain ⟨rfl, rfl⟩ := Prod.mk.inj heq
      exact .call owner call family evs' hcall hfamily
  | callNext owner position => exact acts_of_callNext h
  | applyNext owner position => exact acts_of_applyNext h
  | flagAll owner position => exact acts_of_flagAll h

end Step

end Sekkeizu
