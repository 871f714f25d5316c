/-
# Sekkeizu.Database.Underway — what holds between two units of the tasks.

The invariants of the family hold between any two units of any parties, and whatever is applied and not flagged
is a write of a bulk that has not ended (`Store.Working`). From this, a unit performs one entry or none: an entry
of the task it works on that has not been performed before, when all entries in front of it in the task have been
(`Store.Performs`).
-/
import Sekkeizu.Database.Store

namespace Sekkeizu

open PartialSystem

variable {doc callable : Type*}

/-- What an entry does to its collection. -/
def TransactionInfo.effect [Driver doc] (run : callable → List doc → List doc)
    (t : TransactionInfo doc callable) (content : List doc) : List doc :=
  match t.callable with
  | some function => run function content
  | none => t.bulkOperation.execute content

/-- The tasks of every owner hold the entries they expect. -/
def Family.Batched (family : Finmap fun _ : UInt64 => World doc callable) : Prop :=
  ∀ owner w, family.lookup owner = some w → ∀ task ∈ w.submitted, task.Batched w.object

/-- The write is in a bulk of the owner that has not ended. -/
def Underway (family : Finmap fun _ : UInt64 => World doc callable) (owner : UInt64) (collection : UInt8)
    (id : Nat) : Prop :=
  ∃ w, family.lookup owner = some w ∧ ∃ task ∈ w.submitted, task.collection = collection ∧
    task.callables = false ∧ id ∈ task.transactions

/-- **Between two units.** -/
structure Store.Working (database : Database) (x : Config (Store doc callable) StoreEvent) : Prop where
  barriers : Barriers database (storeFamily x)
  batched : Family.Batched x.state.family
  underway : ∀ {owner collection id}, id ∈ x.state.applied owner collection →
    Underway x.state.family owner collection id

/-! ## The tasks of the pool -/

section Tasks

variable {x : Config (Finmap fun _ : UInt64 => World doc callable) (UInt64 × Event)}
variable {family' : Finmap fun _ : UInt64 => World doc callable}
variable {owner : UInt64} {w w' : World doc callable} {position : Nat} {task : Task}

/-- The entries of a task of the pool are there, and are what the task takes them for. -/
theorem Family.Batched.entries {family : Finmap fun _ : UInt64 => World doc callable}
    (h : Family.Batched family) (hw : family.lookup owner = some w) (htask : task ∈ w.submitted) {id : Nat}
    (hid : id ∈ task.transactions) :
    ∃ e, Family.entry family owner task.collection id = some e ∧ e.callable.isSome = task.callables := by
  obtain ⟨info, hinfo, hholds⟩ := h owner w hw task htask
  obtain ⟨e, he, -, hkind⟩ := hholds id hid
  exact ⟨e, entry_eq_some.mpr ⟨w, info, hw, hinfo, he⟩, hkind⟩

variable [Bson doc] {database : Database}

theorem Family.Batched.step (h : Family.Batched x.state) (haccounted : Family.Accounted database x)
    {y : Config (Finmap fun _ : UInt64 => World doc callable) (UInt64 × Event)}
    {a : UInt64 × Call doc callable} (hnext : (Family.step database).next x a = some y) :
    Family.Batched y.state := by
  have hkeep : ∀ {v w : Config (World doc callable) Event} {call : Call doc callable},
      (Sekkeizu.Accounted database v ∧ ∀ task ∈ v.state.submitted, task.Batched v.state.object) →
      (World.step database).next v call = some w →
      Sekkeizu.Accounted database w ∧ ∀ task ∈ w.state.submitted, task.Batched w.state.object := by
    rintro v w call ⟨hv, hbatched⟩ hstep
    exact ⟨hv.step hstep, hv.batched_step hbatched hstep⟩
  have hall := member_step hkeep (fun owner w hw => ⟨haccounted owner w hw, h owner w hw⟩) hnext
  exact fun owner w hw => (hall owner w hw).2

/-- The task that called its first callable goes on with the rest of its entries. -/
theorem Family.Batched.finishFirst (h : Family.Batched x.state)
    (haccounted : Family.Accounted database x) (hw : x.state.lookup owner = some w)
    (hposition : w.submitted[position]? = some task) {id : Nat} {rest : List Nat}
    (htransactions : task.transactions = id :: rest) :
    Family.Batched (x.state.insert owner (w.finishFirst position task id rest)) := by
  have hmoves : QueuesMove database.isConnected x.state
      (x.state.insert owner (w.finishFirst position task id rest)) :=
    queuesMove_finishFirst hw hposition htransactions
  intro owner' w' hw' other hother
  have hlookup := hw'
  rw [Finmap.lookup_insert_eq] at hw'
  split_ifs at hw' with howner
  · subst howner
    obtain rfl := Option.some.inj hw'
    obtain ⟨before, after, hsubmitted, hlength, -⟩ := List.split_of_getElem? hposition
    have hold : ∀ old ∈ w.submitted, old.Batched (w.finishFirst position task id rest).object := by
      intro old hmem
      obtain ⟨info, hinfo, hholds⟩ := h owner' w hw old hmem
      obtain ⟨w₁, info₁, ids, call, hw₁, hinfo₁, hmove⟩ := hmoves owner' w old.collection info hw hinfo
      obtain rfl := Option.some.inj (hlookup.symm.trans hw₁)
      exact ⟨info₁, hinfo₁, hmove.holds ((haccounted owner' w hw).ledger hinfo).sound hholds⟩
    rcases mem_of_mem_finishFirst hsubmitted hlength hother with hmem | ⟨rfl, -⟩
    · exact hold other hmem
    · obtain ⟨info, hinfo, hholds⟩ := hold task (List.mem_of_getElem? hposition)
      exact ⟨info, hinfo, fun i hi => hholds i (htransactions ▸ List.mem_cons_of_mem _ hi)⟩
  · exact h owner' w' hw' other hother

end Tasks

/-! ## Bulks stay under way until they are flagged -/

namespace Underway

variable {family family' : Finmap fun _ : UInt64 => World doc callable} {owner owner' : UInt64}
variable {collection : UInt8} {i : Nat} {w : World doc callable} {position : Nat} {task : Task}

/-- A call keeps the tasks of the pool. -/
theorem call [Bson doc] {database : Database} (h : Underway family owner' collection i)
    {call : Call doc callable} {evs : List (UInt64 × Event)} (hcall : ∀ position, call ≠ .runTask position)
    (hstep : Family.step database family (owner, call) = some (family', evs)) :
    Underway family' owner' collection i := by
  obtain ⟨w, hw, task, hmem, htask⟩ := h
  obtain ⟨w₀, w', evs', hlookup, hmove, rfl, rfl⟩ := familyStep_eq_some.mp hstep
  by_cases howner : owner' = owner
  · subst howner
    obtain rfl := Option.some.inj (hlookup.symm.trans hw)
    have hcompleted : ∀ position, call.completed family ≠ .runTask position := by
      intro position
      cases call with
      | runTask position' => exact absurd rfl (hcall position')
      | _ => simp [Call.completed]
    exact ⟨w', Finmap.lookup_insert _, task, submitted_subset_of_step hmove hcompleted hmem, htask⟩
  · exact ⟨w, (Finmap.lookup_insert_of_ne _ howner).trans hw, task, hmem, htask⟩

/-- A callable is called by a task of callables. -/
theorem finishFirst (h : Underway family owner' collection i) (hw : family.lookup owner = some w)
    (hposition : w.submitted[position]? = some task) (hkind : task.callables = true) (id : Nat)
    (rest : List Nat) :
    Underway (family.insert owner (w.finishFirst position task id rest)) owner' collection i := by
  obtain ⟨w', hw', other, hmem, hcollection, hwrites, hi⟩ := h
  by_cases howner : owner' = owner
  · subst howner
    obtain rfl := Option.some.inj (hw'.symm.trans hw)
    obtain ⟨before, after, hsubmitted, hlength, -⟩ := List.split_of_getElem? hposition
    have hne : other ≠ task := by
      rintro rfl
      exact absurd (hkind.symm.trans hwrites) (by simp)
    exact ⟨_, Finmap.lookup_insert _, other, mem_finishFirst_of_ne hsubmitted hlength hne hmem,
      hcollection, hwrites, hi⟩
  · exact ⟨w', (Finmap.lookup_insert_of_ne _ howner).trans hw', other, hmem, hcollection, hwrites, hi⟩

/-- The end of a task takes that task out of the pool. -/
theorem runTask (h : Underway family owner' collection i) (hw : family.lookup owner = some w)
    (hposition : w.submitted[position]? = some task)
    (hother : ¬ (owner' = owner ∧ collection = task.collection ∧ i ∈ task.transactions)) :
    Underway (family.insert owner
        { object := w.object.runTask task, submitted := w.submitted.eraseIdx position }) owner' collection i := by
  obtain ⟨w', hw', other, hmem, hcollection, hwrites, hi⟩ := h
  by_cases howner : owner' = owner
  · subst howner
    obtain rfl := Option.some.inj (hw'.symm.trans hw)
    obtain ⟨before, after, hsubmitted, -, herase⟩ := List.split_of_getElem? hposition
    refine ⟨_, Finmap.lookup_insert _, other, ?_, hcollection, hwrites, hi⟩
    dsimp only
    rw [herase]
    rw [hsubmitted] at hmem
    rcases List.mem_append.mp hmem with hbefore | hafter
    · exact List.mem_append_left _ hbefore
    · rcases List.mem_cons.mp hafter with rfl | hafter
      · exact absurd ⟨rfl, hcollection.symm, hi⟩ hother
      · exact List.mem_append_right _ hafter
  · exact ⟨w', (Finmap.lookup_insert_of_ne _ howner).trans hw', other, hmem, hcollection, hwrites, hi⟩

end Underway

/-! ## One unit -/

section Units

variable {database : Database} {x : Config (Store doc callable) StoreEvent}

theorem storeFamily_next [Bson doc] {owner : UInt64} {call : Call doc callable}
    {family : Finmap fun _ : UInt64 => World doc callable} {evs : List (UInt64 × Event)}
    (hstep : Family.step database x.state.family (owner, call) = some (family, evs)) :
    (Family.step database).next (storeFamily x) (owner, call) =
      some ⟨family, queueEvents x.history ++ evs⟩ :=
  Step.next_eq_some.mpr ⟨_, _, hstep, rfl⟩

/-- What a task of the pool will flag is not flagged yet. -/
theorem Store.Working.not_done (h : Store.Working database x) {owner : UInt64} {w : World doc callable}
    (hw : x.state.family.lookup owner = some w) {task : Task} (hmem : task ∈ w.submitted) {id : Nat}
    (hid : id ∈ task.transactions) : ¬ Family.Done x.state.family owner task.collection id := by
  intro hdone
  obtain ⟨w', hw', hdone⟩ := family_done_iff.mp hdone
  obtain rfl := Option.some.inj (hw'.symm.trans hw)
  exact (h.barriers.accounted owner w' hw).not_done_of_mem hmem hid hdone

/-- What is performed is an entry. -/
theorem Store.Working.entry_of_performed (h : Store.Working database x) {collection : UInt8}
    {o : UInt64 × Nat} (ho : x.state.Performed collection o) :
    ∃ e, Family.entry x.state.family o.1 collection o.2 = some e := by
  rcases ho with ⟨e, he, -⟩ | happlied
  · exact ⟨e, he⟩
  · obtain ⟨w, hw, task, hmem, rfl, -, hid⟩ := h.underway happlied
    obtain ⟨e, he, -⟩ := h.batched.entries hw hmem hid
    exact ⟨e, he⟩

/-- No bulk holds what a task of callables calls. -/
theorem Store.Working.not_applied (h : Store.Working database x) {owner : UInt64}
    {w : World doc callable} (hw : x.state.family.lookup owner = some w) {task : Task}
    (hmem : task ∈ w.submitted) (hkind : task.callables = true) {id : Nat} (hid : id ∈ task.transactions) :
    id ∉ x.state.applied owner task.collection := by
  intro happlied
  obtain ⟨w', hw', other, hother, hcollection, hwrites, hid'⟩ := h.underway happlied
  obtain rfl := Option.some.inj (hw'.symm.trans hw)
  obtain ⟨e, he, hcalls⟩ := h.batched.entries hw hmem hid
  obtain ⟨e', he', hwrites'⟩ := h.batched.entries hw hother hid'
  rw [hcollection] at he'
  obtain rfl := Option.some.inj (he'.symm.trans he)
  exact absurd (hcalls.symm.trans hwrites') (by simp [hkind, hwrites])

variable [Bson doc] [Driver doc] {run : callable → List doc → List doc} {action : Store.Action doc callable}
variable {s' : Store doc callable} {evs : List StoreEvent}

/-- **Every queue moves in a unit.** -/
theorem Store.Acts.queuesMove (hacts : x.state.Acts run database action s' evs)
    (h : Family.Accounted database (storeFamily x)) :
    QueuesMove database.isConnected x.state.family s'.family := by
  cases hacts with
  | call owner call family evs' hcall hstep => exact queuesMove_of_step h (storeFamily_next hstep)
  | callNext owner position w task id rest t function hw hposition hkind htransactions =>
      exact queuesMove_finishFirst (x := storeFamily x) hw hposition htransactions
  | applyNext => exact QueuesMove.refl _ _
  | flagAll owner position w task family evs' hw hposition hkind hall hstep =>
      exact queuesMove_of_step h (storeFamily_next hstep)

/-- **A unit keeps what holds between units.** -/
theorem Store.Working.acts (h : Store.Working database x)
    (hacts : x.state.Acts run database action s' evs) (hnames : Store.NamesReturnedId x action) :
    Store.Working database ⟨s', x.history ++ evs⟩ := by
  have haccounted := h.barriers.accounted
  cases hacts with
  | call owner call family evs' hcall hstep =>
      have hnext := storeFamily_next hstep
      refine ⟨?_, h.batched.step haccounted hnext, fun hid => (h.underway hid).call hcall hstep⟩
      simpa [storeFamily] using h.barriers.step hnames hnext
  | callNext owner position w task id rest t function hw hposition hkind htransactions =>
      refine ⟨?_, h.batched.finishFirst haccounted hw hposition htransactions,
        fun hid => (h.underway hid).finishFirst hw hposition hkind id rest⟩
      simpa [storeFamily] using h.barriers.finishFirst hw hposition htransactions
  | applyNext owner position w task front id rest t hw hposition hkind htransactions =>
      refine ⟨?_, h.batched, ?_⟩
      · simpa [storeFamily] using h.barriers
      · intro owner' collection i hi
        by_cases hself : owner' = owner ∧ collection = task.collection
        · obtain ⟨rfl, rfl⟩ := hself
          simp only [Function.update_self, List.mem_append, List.mem_singleton] at hi
          rcases hi with hold | rfl
          · exact h.underway hold
          · exact ⟨w, hw, task, List.mem_of_getElem? hposition, rfl, hkind, by simp [htransactions]⟩
        · refine h.underway ?_
          dsimp only at hi
          rwa [applied_update_of_ne hself] at hi
  | flagAll owner position w task family evs' hw hposition hkind hall hstep =>
      have hnext := storeFamily_next hstep
      refine ⟨?_, h.batched.step haccounted hnext, ?_⟩
      · simpa [storeFamily] using h.barriers.step (fun _ _ _ hcall => by simp at hcall) hnext
      · intro owner' collection i hi
        obtain rfl := congrArg Prod.fst
          (Option.some.inj (hstep.symm.trans (familyStep_runTask database hw hposition)))
        by_cases hself : owner' = owner ∧ collection = task.collection
        · obtain ⟨rfl, rfl⟩ := hself
          simp only [Function.update_self, List.mem_filter] at hi
          exact (h.underway hi.1).runTask hw hposition fun hmem => by simp [hmem.2.2] at hi
        · dsimp only at hi
          rw [applied_update_of_ne hself] at hi
          exact (h.underway hi).runTask hw hposition fun hmem => hself ⟨hmem.1, hmem.2.1⟩

/-! ## What a unit performs -/

/-- **What a unit does to the collections**: nothing, or it performs one entry. -/
inductive Store.Performs (run : callable → List doc → List doc) (s : Store doc callable)
    (action : Store.Action doc callable) (s' : Store doc callable) : List StoreEvent → Prop
  | nothing (evs : List StoreEvent) (hexecuted : ∀ collection, executed collection evs = [])
      (hcontent : s'.content = s.content)
      (hperformed : ∀ collection op, s'.Performed collection op ↔ s.Performed collection op) :
      Performs run s action s' evs
  | entry (owner : UInt64) (position : Nat) (w : World doc callable) (task : Task) (front : List Nat)
      (id : Nat) (rest : List Nat) (t : TransactionInfo doc callable)
      (hworks : action.WorksAt owner position) (hw : s.family.lookup owner = some w)
      (hposition : w.submitted[position]? = some task) (htransactions : task.transactions = front ++ id :: rest)
      (hfront : ∀ i ∈ front, s.Performed task.collection (owner, i))
      (hnew : ¬ s.Performed task.collection (owner, id))
      (ht : Family.entry s.family owner task.collection id = some t)
      (hcontent : s'.content =
        Function.update s.content task.collection (t.effect run (s.content task.collection)))
      (hperformed : ∀ collection op, s'.Performed collection op ↔
        s.Performed collection op ∨ collection = task.collection ∧ op = (owner, id)) :
      Performs run s action s' [.performed owner task.collection id]

/-- **The inversion of a unit**, as far as the collections see it. -/
theorem Store.Working.performs (h : Store.Working database x)
    (hacts : x.state.Acts run database action s' evs) : x.state.Performs run action s' evs := by
  have haccounted := h.barriers.accounted
  cases hacts with
  | call owner call family evs' hcall hstep =>
      refine .nothing _ (fun collection => executed_queue collection evs') rfl fun collection op => ?_
      have hdone : Family.Done family op.1 collection op.2 ↔
          Family.Done x.state.family op.1 collection op.2 := by
        rw [haccounted.done_step hstep]
        refine or_iff_left ?_
        rintro ⟨task, hran, -⟩
        obtain ⟨-, -, position, w, hrun, -⟩ := ran_of_familyStep hstep hran
        exact hcall position hrun
      exact or_congr hdone Iff.rfl
  | callNext owner position w task id rest t function hw hposition hkind htransactions ht hfunction =>
      have hmem := List.mem_of_getElem? hposition
      have hid : id ∈ task.transactions := by simp [htransactions]
      have hnew : ¬ x.state.Performed task.collection (owner, id) :=
        not_or.mpr ⟨h.not_done hw hmem hid, h.not_applied hw hmem hkind hid⟩
      have heffect : t.effect run = run function := by
        funext docs
        simp only [TransactionInfo.effect, hfunction]
      refine .entry owner position w task [] id rest t (Or.inl rfl) hw hposition htransactions
        (fun i hi => absurd hi List.not_mem_nil) hnew ht (by rw [heffect]) fun collection op => ?_
      unfold Store.Performed
      dsimp only
      rw [done_finishFirst hw ht, Prod.ext_iff]
      tauto
  | applyNext owner position w task front id rest t hw hposition hkind htransactions hfront hid ht =>
      have hmem := List.mem_of_getElem? hposition
      have hin : id ∈ task.transactions := by simp [htransactions]
      obtain ⟨e, he, hwrites⟩ := h.batched.entries hw hmem hin
      obtain rfl := Option.some.inj (he.symm.trans ht)
      have heffect : e.effect run = e.bulkOperation.execute := by
        rw [hkind, Option.isSome_eq_false_iff, Option.isNone_iff_eq_none] at hwrites
        funext docs
        simp only [TransactionInfo.effect, hwrites]
      refine .entry owner position w task front id rest e (Or.inr rfl) hw hposition htransactions
        (fun i hi => Or.inr (hfront i hi)) (not_or.mpr ⟨h.not_done hw hmem hin, hid⟩) ht
        (by rw [heffect]) fun collection op => ?_
      obtain ⟨owner', i⟩ := op
      unfold Store.Performed
      dsimp only
      by_cases hself : owner' = owner ∧ collection = task.collection
      · obtain ⟨rfl, rfl⟩ := hself
        simp [or_assoc]
      · rw [applied_update_of_ne hself, Prod.mk.injEq]
        tauto
  | flagAll owner position w task family evs' hw hposition hkind hall hstep =>
      refine .nothing _ (fun collection => executed_queue collection evs') rfl fun collection op => ?_
      obtain ⟨owner', i⟩ := op
      unfold Store.Performed
      dsimp only
      rw [haccounted.done_runTask hw hposition hstep]
      by_cases hself : owner' = owner ∧ collection = task.collection
      · obtain ⟨rfl, rfl⟩ := hself
        -- what the bulk holds is flagged now, and was applied before
        have hheld := hall i
        simp only [Function.update_self, List.mem_filter, Bool.not_eq_true', List.contains_eq_mem,
          decide_eq_false_iff_not, and_self, true_and]
        tauto
      · rw [applied_update_of_ne hself]
        tauto

/-! ## No task is stuck -/

/-- **A task of the pool can go on**: it calls or applies its next entry, or ends. -/
theorem Store.Working.goes_on (h : Store.Working database x) (run : callable → List doc → List doc)
    {owner : UInt64} {w : World doc callable} (hw : x.state.family.lookup owner = some w) {position : Nat}
    (hposition : position < w.submitted.length) :
    ∃ action ∈ [Store.Action.callNext owner position, .applyNext owner position, .flagAll owner position],
      (Store.step run database x.state action).isSome = true := by
  obtain ⟨task, htask⟩ : ∃ task, w.submitted[position]? = some task :=
    ⟨_, List.getElem?_eq_getElem hposition⟩
  have hmem := List.mem_of_getElem? htask
  have hthere : x.state.taskAt owner position = some (w, task) := taskAt_eq_some.mpr ⟨hw, htask⟩
  cases hkind : task.callables with
  | true =>
      refine ⟨.callNext owner position, by simp, ?_⟩
      cases htransactions : task.transactions with
      | nil => exact absurd htransactions ((h.barriers.accounted owner w hw).nonempty task hmem)
      | cons id rest =>
          obtain ⟨e, he, hcallable⟩ := h.batched.entries hw hmem
            (show id ∈ task.transactions by simp [htransactions])
          obtain ⟨function, hfunction⟩ := Option.isSome_iff_exists.mp (hcallable.trans hkind)
          rw [Store.step, callNext_eq run hw htask hkind htransactions he hfunction, Option.isSome_some]
  | false =>
      cases hnext : task.transactions.find? fun id =>
          !(x.state.applied owner task.collection).contains id with
      | some id =>
          refine ⟨.applyNext owner position, by simp, ?_⟩
          obtain ⟨e, he, -⟩ := h.batched.entries hw hmem (List.mem_of_find?_eq_some hnext)
          simp only [Store.step, Store.applyNext, hthere, Option.bind_some, hkind, Bool.false_eq_true,
            if_false, hnext, he, Option.map_some, Option.isSome_some]
      | none =>
          refine ⟨.flagAll owner position, by simp, ?_⟩
          have hall : (task.transactions.all fun id =>
              (x.state.applied owner task.collection).contains id) = true := by
            rw [List.all_eq_true]
            intro id hid
            simpa using List.find?_eq_none.mp hnext id hid
          simp only [Store.step, Store.flagAll, hthere, Option.bind_some, hkind, hall, Bool.false_eq_true,
            if_false, if_true, familyStep_runTask database hw htask, Option.map_some, Option.isSome_some]

end Units

/-! ## A task that nobody interrupts -/

/-- To flag the first entry and then the rest is to flag them all. -/
theorem runTask_cons (t : Transaction doc callable) (task : Task) (id : Nat) (rest : List Nat) :
    (t.runTask { task with transactions := [id] }).runTask { task with transactions := rest } =
      t.runTask { task with transactions := id :: rest } := by
  unfold Transaction.runTask
  congr 1
  apply Finmap.ext_lookup
  intro collection
  rw [Finmap.lookup_modify, Finmap.lookup_modify, Finmap.lookup_modify]
  split_ifs
  · rw [Option.map_map]
    rfl
  · rfl

/-- **A task of callables that nobody interrupts** leaves the queues as `runTask` does. -/
theorem exec_callNext [Bson doc] [Driver doc] (run : callable → List doc → List doc) (database : Database)
    {collection : UInt8} {ids : List Nat} (hids : ids ≠ []) {owner : UInt64} {position : Nat}
    {x : Config (Store doc callable) StoreEvent} {w : World doc callable}
    (hw : x.state.family.lookup owner = some w)
    (hposition : w.submitted[position]? = some ⟨collection, true, ids⟩)
    (hcalls : ∀ id ∈ ids, ∃ e, Family.entry x.state.family owner collection id = some e ∧
      e.callable.isSome = true) :
    ∃ y, exec (Store.step run database) x (List.replicate ids.length (.callNext owner position)) = some y ∧
      Family.step database x.state.family (owner, .runTask position) =
        some (y.state.family, [(owner, .ran ⟨collection, true, ids⟩)]) := by
  induction ids generalizing x w with
  | nil => exact absurd rfl hids
  | cons id rest ih =>
      obtain ⟨e, he, hcallable⟩ := hcalls id List.mem_cons_self
      obtain ⟨function, hfunction⟩ := Option.isSome_iff_exists.mp hcallable
      obtain ⟨x₁, hnext, hfamily⟩ :
          ∃ x₁, (Store.step run database).next x (.callNext owner position) = some x₁ ∧ x₁.state.family =
            x.state.family.insert owner (w.finishFirst position ⟨collection, true, id :: rest⟩ id rest) :=
        ⟨_, Step.next_eq_some.mpr ⟨_, _, callNext_eq run hw hposition rfl rfl he hfunction, rfl⟩, rfl⟩
      rw [List.length_cons, List.replicate_succ, exec, hnext]
      dsimp only
      rw [familyStep_runTask database hw hposition]
      cases rest with
      | nil =>
          refine ⟨x₁, rfl, ?_⟩
          rw [hfamily]
          rfl
      | cons next rest =>
          have hlength : position < w.submitted.length := (List.getElem?_eq_some_iff.mp hposition).1
          have hw₁ : x₁.state.family.lookup owner =
              some (w.finishFirst position ⟨collection, true, id :: next :: rest⟩ id (next :: rest)) := by
            rw [hfamily, Finmap.lookup_insert]
          have hposition₁ : (w.finishFirst position ⟨collection, true, id :: next :: rest⟩ id
              (next :: rest)).submitted[position]? = some ⟨collection, true, next :: rest⟩ := by
            simp [World.finishFirst, hlength]
          obtain ⟨y, hexec, hstep⟩ := ih (by simp) hw₁ hposition₁ (by
            intro i hi
            obtain ⟨e', he', hcallable'⟩ := hcalls i (List.mem_cons_of_mem _ hi)
            refine ⟨_, by rw [hfamily, entry_finishFirst hw, he']; rfl, ?_⟩
            split_ifs
            · exact hcallable'
            · exact hcallable')
          refine ⟨y, hexec, ?_⟩
          rw [familyStep_runTask database hw₁ hposition₁] at hstep
          rw [← (Prod.mk.inj (Option.some.inj hstep)).1, hfamily, Finmap.insert_insert]
          simp only [World.finishFirst, reduceCtorEq, if_false, List.eraseIdx_set_eq]
          rw [runTask_cons _ ⟨collection, true, id :: next :: rest⟩]

end Sekkeizu
