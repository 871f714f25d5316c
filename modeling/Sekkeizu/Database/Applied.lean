/-
# Sekkeizu.Database.Applied — what the driver has applied, against what is marked done.

`mongoc_bulk_operation_execute` either applies every operation of a bulk or stops at one and answers
`false`. The task throws the answer away and marks all its entries done. From then on the flag is all that
anyone looks at: a dependency on the dropped write is taken as met, and the object is deleted as if the
write were in the collection. Flags, releases and deletions are honest in exactly those runs in which no
bulk is stopped (`honest_iff_bulks_applied`).

Modelling choices:

* The family is extended by the list of what has taken effect, in order: the writes the driver has applied
  and the callables that have been called. The effect of an applied write on the content of its collection
  is that of `executeBulk`.
* The outcome of a bulk is part of the action that runs its task.
-/
import Sekkeizu.Database.Family


namespace Sekkeizu

open PartialSystem

variable {doc callable : Type*}

/-- What `mongoc_bulk_operation_execute` does with the operations of an ordered bulk. -/
inductive Outcome where
  /-- It applies all of them and answers `true`. -/
  | applied
  /-- It applies the first `n`, not all of them, and answers `false`. -/
  | stopped (n : Nat)
  deriving DecidableEq, Repr

/-- The outcome is one the task can meet. A task of callables makes no bulk. -/
def Task.admits (outcome : Outcome) (task : Task) : Bool :=
  match outcome with
  | .applied => true
  | .stopped n => !task.callables && decide (n < task.transactions.length)

/-- The entries of the task that take effect. -/
def Task.effective (outcome : Outcome) (task : Task) : List Nat :=
  match outcome with
  | .applied => task.transactions
  | .stopped n => task.transactions.take n

/-- A family, and what has taken effect in the collections: owner, collection and id. -/
structure Applications (doc callable : Type*) where
  family : Finmap fun _ : UInt64 => World doc callable
  applied : List (UInt64 × UInt8 × Nat)

/-- What takes effect with an event. -/
def appliedBy (outcome : Outcome) : UInt64 × Event → List (UInt64 × UInt8 × Nat)
  | (owner, .ran task) => (task.effective outcome).map fun id => (owner, task.collection, id)
  | _ => []

def admittedBy (outcome : Outcome) : UInt64 × Event → Bool
  | (_, .ran task) => task.admits outcome
  | _ => true

/-- One step: of the family, which does not see the outcome, and of the collections. -/
def Applications.step [Bson doc] (database : Database) :
    Step (Applications doc callable) ((UInt64 × Call doc callable) × Outcome) (UInt64 × Event) :=
  fun s a =>
    match Family.step database s.family a.1 with
    | none => none
    | some (family, evs) =>
      if evs.all (admittedBy a.2) then
        some ({ family := family, applied := s.applied ++ evs.flatMap (appliedBy a.2) }, evs)
      else none

def Applications.start (database : Database)
    (objects : Finmap fun _ : UInt64 => UInt64 × Transaction doc callable) :
    Config (Applications doc callable) (UInt64 × Event) where
  state := { family := (Family.start database objects).state, applied := [] }
  history := []

/-- The entry of an owner's queue is marked done. -/
def Family.Done (family : Finmap fun _ : UInt64 => World doc callable) (owner : UInt64)
    (collection : UInt8) (id : Nat) : Prop :=
  ∃ e, Family.entry family owner collection id = some e ∧ e.done = true

/-! ## What the flags are relied on for -/

/-- **An honest step.** Afterwards everything marked done has taken effect; a dependency the step passes
whose entry is found has its entry in effect; and an object that `update` gives up has nothing marked done
that is not in effect. -/
structure HonestStep [Bson doc] (x : Config (Applications doc callable) (UInt64 × Event))
    (a : (UInt64 × Call doc callable) × Outcome)
    (z : Config (Applications doc callable) (UInt64 × Event)) : Prop where
  flags : ∀ owner collection id, Family.Done z.state.family owner collection id →
    (owner, collection, id) ∈ z.state.applied
  releases : ∀ {owner w w' collection info info' slot e d target},
    x.state.family.lookup owner = some w → w.object.collections.lookup collection = some info →
    z.state.family.lookup owner = some w' → w'.object.collections.lookup collection = some info' →
    info.firstId ≤ slot → slot < info'.firstId → info.transactions.lookup slot = some e →
    e.dependency = some d → Family.entry x.state.family d.owner collection d.id = some target →
    (d.owner, collection, d.id) ∈ x.state.applied
  deletions : ∀ {owner w diff order getter}, a.1 = (owner, .update diff order getter) →
    x.state.family.lookup owner = some w →
    (w.object.update diff order (familyGetter x.state.family)).1 = false →
    ∀ collection id, Family.Done x.state.family owner collection id →
      (owner, collection, id) ∈ x.state.applied

def Honest [Bson doc] (database : Database) (x : Config (Applications doc callable) (UInt64 × Event))
    (a : (UInt64 × Call doc callable) × Outcome) : Prop :=
  ∀ z, (Applications.step database).next x a = some z → HonestStep x a z

/-- **No bulk is stopped**: if the action runs a task of writes, the driver applies all of them. -/
def BulkApplied (x : Config (Applications doc callable) (UInt64 × Event))
    (a : (UInt64 × Call doc callable) × Outcome) : Prop :=
  ∀ {owner position w task}, a.1 = (owner, .runTask position) → x.state.family.lookup owner = some w →
    w.submitted[position]? = some task → task.callables = false → a.2 = .applied

/-! ## Which entries a step marks -/

def World.Done (w : World doc callable) (collection : UInt8) (id : Nat) : Prop :=
  ∃ info, w.object.collections.lookup collection = some info ∧ info.isDone id = true

theorem family_done_iff {family : Finmap fun _ : UInt64 => World doc callable} {owner : UInt64}
    {collection : UInt8} {id : Nat} :
    Family.Done family owner collection id ↔
      ∃ w, family.lookup owner = some w ∧ w.Done collection id := by
  simp only [Family.Done, World.Done, entry_eq_some, CollectionInfo.isDone]
  constructor
  · rintro ⟨e, ⟨w, info, hw, hinfo, he⟩, hdone⟩
    exact ⟨w, hw, info, hinfo, by simp [he, hdone]⟩
  · rintro ⟨w, hw, info, hinfo, hdone⟩
    cases he : info.transactions.lookup id with
    | none => simp [he] at hdone
    | some e => exact ⟨e, ⟨w, info, hw, hinfo, he⟩, by simpa [he] using hdone⟩

/-- Only `runTask` runs a task, and it runs the one at its position. -/
theorem ran_of_step [Bson doc] {database : Database} {w w' : World doc callable} {call : Call doc callable}
    {ev : List Event} (h : World.step database w call = some (w', ev)) {task : Task}
    (hran : .ran task ∈ ev) :
    ∃ position, call = .runTask position ∧ w.submitted[position]? = some task ∧ ev = [.ran task] := by
  cases fires_of_step h with
  | push _ _ _ _ _ _ _ _ _ hev =>
      rcases hev with rfl | ⟨rfl, -⟩ <;> simp at hran
  | update => simp at hran
  | flag => exact absurd hran List.not_mem_nil
  | unflag => exact absurd hran List.not_mem_nil
  | run position other before after hsubmitted hposition =>
      obtain rfl : task = other := by simpa using hran
      refine ⟨position, rfl, ?_, rfl⟩
      rw [hsubmitted, List.getElem?_append_right (Nat.le_of_eq hposition), hposition, Nat.sub_self,
        List.getElem?_cons_zero]

/-- `isDone_finished`, for a task whose entries are all there. -/
theorem CollectionInfo.isDone_finished_iff (info : CollectionInfo doc callable) {ids : List Nat}
    (hthere : ∀ id ∈ ids, id ∈ info.transactions) {id : Nat} :
    (info.finished ids).isDone id = true ↔ info.isDone id = true ∨ id ∈ ids := by
  by_cases hid : id ∈ info.transactions
  · exact isDone_finished info ids hid
  · have hnone : info.transactions.lookup id = none := Finmap.lookup_eq_none.mpr hid
    have hnot : id ∉ ids := fun hmem => hid (hthere id hmem)
    simp [isDone, CollectionInfo.Sound.lookup_finished, hnone, hnot]

section Books

variable {database : Database} {x : Config (World doc callable) Event}

theorem Accounted.mem_outstanding_of_mem {task : Task} (hmem : task ∈ x.state.submitted) {id : Nat}
    (hid : id ∈ task.transactions) : id ∈ outstanding task.collection x.state.submitted :=
  mem_outstanding.mpr ⟨task, hmem, rfl, hid⟩

/-- A task names no entry twice. -/
theorem Accounted.nodup_of_mem (h : Accounted database x) {task : Task}
    (hmem : task ∈ x.state.submitted) : task.transactions.Nodup := by
  obtain ⟨info, hinfo⟩ := Finmap.mem_iff.mp (h.exists_collection task hmem)
  have hpairwise := (h.ledger hinfo).outstanding_pairwise
  have hsublist : task.transactions.Sublist (outstanding task.collection x.state.submitted) := by
    apply List.sublist_flatten_of_mem
    exact List.mem_map_of_mem (List.mem_filter.mpr ⟨hmem, decide_eq_true rfl⟩)
  exact (hpairwise.sublist hsublist).imp fun hlt => Nat.ne_of_lt hlt

/-- What a task of the pool will mark is not marked yet. -/
theorem Accounted.not_done_of_mem (h : Accounted database x) {task : Task}
    (hmem : task ∈ x.state.submitted) {id : Nat} (hid : id ∈ task.transactions) :
    ¬ x.state.Done task.collection id := by
  rintro ⟨info, hinfo, hdone⟩
  have hledger := h.ledger hinfo
  have hout := Accounted.mem_outstanding_of_mem hmem hid
  have hsent := hledger.sublist.subset hout
  exact (hledger.done_iff (h.connected_of_mem hmem) id hsent).mp hdone hout

variable [Bson doc]

/-- **A step marks what its task names**, and nothing else. -/
theorem Accounted.done_step (h : Accounted database x) {w : World doc callable}
    {call : Call doc callable} {ev : List Event}
    (hstep : World.step database x.state call = some (w, ev)) {collection : UInt8} {id : Nat} :
    w.Done collection id ↔ x.state.Done collection id ∨
      ∃ task, .ran task ∈ ev ∧ task.collection = collection ∧ id ∈ task.transactions := by
  cases hlookup : x.state.object.collections.lookup collection with
  | none =>
      have habsent := step_absent h.allPresent hstep hlookup
      have hnotask : ¬ ∃ task, .ran task ∈ ev ∧ task.collection = collection ∧
          id ∈ task.transactions := by
        rintro ⟨task, hran, rfl, -⟩
        obtain ⟨position, -, hposition, -⟩ := ran_of_step hstep hran
        obtain ⟨info, hinfo⟩ := Finmap.mem_iff.mp
          (h.exists_collection task (List.mem_of_getElem? hposition))
        exact absurd (hlookup.symm.trans hinfo) (by simp)
      simp [World.Done, habsent, hlookup, hnotask]
  | some info =>
      have hsound := (h.ledger hlookup).sound
      by_cases hcall : ∃ position, call = .runTask position
      · obtain ⟨position, rfl⟩ := hcall
        cases fires_of_step hstep with
        | push _ _ _ _ _ _ hwrite => exact absurd hwrite.isPush (by simp [Call.isPush])
        | run _ task before after hsubmitted _ =>
            have hmem : task ∈ x.state.submitted := by
              rw [hsubmitted]
              exact List.mem_append_right _ List.mem_cons_self
            simp only [World.Done, Transaction.runTask, Finmap.lookup_modify, List.mem_singleton,
              Event.ran.injEq, exists_eq_left, hlookup, Option.some.injEq, exists_eq_left']
            by_cases heq : collection = task.collection
            · subst heq
              have hthere : ∀ id ∈ task.transactions, id ∈ info.transactions := by
                intro id hid
                have hsent := (h.ledger hlookup).sublist.subset
                  (Accounted.mem_outstanding_of_mem hmem hid)
                rw [hsound.mem_iff]
                exact Nat.lt_of_lt_of_le ((h.ledger hlookup).lt_first hsent) hsound.first_le
              simpa [CollectionInfo.finished] using info.isDone_finished_iff hthere
            · simp [heq, Ne.symm heq]
      · have hnone : ∀ task, Event.ran task ∉ ev := by
          intro task hran
          obtain ⟨position, hposition, -⟩ := ran_of_step hstep hran
          exact hcall ⟨position, hposition⟩
        obtain ⟨info', hinfo', hmove⟩ := step_move h.allPresent hstep hlookup
        have hsame : info'.isDone id = info.isDone id := by
          generalize dispatched collection ev = ids, outstanding collection x.state.submitted = out,
            outstanding collection w.submitted = out' at hmove
          cases hmove with
          | stay => rfl
          | push write hwrite => exact isDone_pushed hwrite.fresh hsound
          | scan diff order getter => exact isDone_scanned getter collection info id
          | finish position _ _ _ hrun => exact absurd ⟨position, hrun⟩ hcall
        simp [World.Done, hinfo', hlookup, hsame, hnone]

end Books

/-! ## Which entries of a family a step marks -/

section Members

variable [Bson doc] {database : Database}
variable {x : Config (Finmap fun _ : UInt64 => World doc callable) (UInt64 × Event)}
variable {family : Finmap fun _ : UInt64 => World doc callable} {evs : List (UInt64 × Event)}
variable {k : UInt64} {call : Call doc callable}

/-- `Accounted.done_step`, for a family. -/
theorem Family.Accounted.done_step (h : Family.Accounted database x)
    (hstep : Family.step database x.state (k, call) = some (family, evs)) {owner : UInt64}
    {collection : UInt8} {id : Nat} :
    Family.Done family owner collection id ↔ Family.Done x.state owner collection id ∨
      ∃ task, (owner, .ran task) ∈ evs ∧ task.collection = collection ∧ id ∈ task.transactions := by
  obtain ⟨w, w', evs', hw, hmove, rfl, rfl⟩ := familyStep_eq_some.mp hstep
  have hmember : w'.Done collection id ↔ w.Done collection id ∨
      ∃ task, .ran task ∈ evs' ∧ task.collection = collection ∧ id ∈ task.transactions :=
    (h k w hw).done_step hmove
  rw [family_done_iff, family_done_iff]
  by_cases howner : owner = k
  · subst howner
    simpa [Finmap.lookup_insert, hw] using hmember
  · simp [Finmap.lookup_insert_of_ne, howner, Ne.symm howner]

/-- The task a step of a family runs is in the pool of its owner. -/
theorem ran_of_familyStep {family₀ : Finmap fun _ : UInt64 => World doc callable}
    (hstep : Family.step database family₀ (k, call) = some (family, evs)) {owner : UInt64}
    {task : Task} (hran : (owner, .ran task) ∈ evs) :
    owner = k ∧ evs = [(k, .ran task)] ∧ ∃ position w, call = .runTask position ∧
      family₀.lookup k = some w ∧ w.submitted[position]? = some task := by
  obtain ⟨w, w', evs', hw, hmove, rfl, rfl⟩ := familyStep_eq_some.mp hstep
  obtain ⟨ev, hev, heq⟩ := List.mem_map.mp hran
  obtain ⟨rfl, rfl⟩ := Prod.mk.inj heq
  obtain ⟨position, hcall, hposition, rfl⟩ := ran_of_step hmove hev
  refine ⟨rfl, rfl, position, w, ?_, hw, hposition⟩
  cases call <;> simp_all [Call.completed]

end Members

/-! ## Every step of a run -/

/-- The family, with the history so far. -/
def familyConfig (x : Config (Applications doc callable) (UInt64 × Event)) :
    Config (Finmap fun _ : UInt64 => World doc callable) (UInt64 × Event) :=
  ⟨x.state.family, x.history⟩

/-- The family takes the same step, and what takes effect is added. -/
theorem applications_next [Bson doc] {database : Database}
    {x z : Config (Applications doc callable) (UInt64 × Event)}
    {a : (UInt64 × Call doc callable) × Outcome} (hnext : (Applications.step database).next x a = some z) :
    ∃ evs, Family.step database x.state.family a.1 = some (z.state.family, evs) ∧
      evs.all (admittedBy a.2) = true ∧
      z.state.applied = x.state.applied ++ evs.flatMap (appliedBy a.2) ∧
      z.history = x.history ++ evs := by
  obtain ⟨s, evs, hstep, rfl⟩ := Step.next_eq_some.mp hnext
  unfold Applications.step at hstep
  cases hfamily : Family.step database x.state.family a.1 with
  | none => simp [hfamily] at hstep
  | some r =>
      simp only [hfamily] at hstep
      split_ifs at hstep with hadmitted
      obtain ⟨rfl, rfl⟩ := Prod.mk.inj (Option.some.inj hstep)
      exact ⟨_, rfl, hadmitted, rfl, rfl⟩

/-- A task takes effect whole, unless it is of writes and its bulk is stopped. -/
theorem Task.effective_eq {task : Task} {outcome : Outcome}
    (hadmits : task.admits outcome = true)
    (hwrites : task.callables = false → outcome = .applied) :
    task.effective outcome = task.transactions := by
  cases outcome with
  | applied => rfl
  | stopped n =>
      simp only [Task.admits, Bool.and_eq_true, Bool.not_eq_true'] at hadmits
      exact absurd (hwrites hadmits.1) (by simp)

/-- **Flags and effects agree**, and the books of every object are right. -/
structure Truthful (database : Database) (x : Config (Applications doc callable) (UInt64 × Event)) :
    Prop where
  accounted : Family.Accounted database (familyConfig x)
  done_iff : ∀ owner collection id,
    Family.Done x.state.family owner collection id ↔ (owner, collection, id) ∈ x.state.applied

namespace Truthful

variable [Bson doc] {database : Database} {x z : Config (Applications doc callable) (UInt64 × Event)}
variable {k : UInt64} {call : Call doc callable} {outcome : Outcome}

theorem step (h : Truthful database x) (hbulk : BulkApplied x ((k, call), outcome))
    (hnext : (Applications.step database).next x ((k, call), outcome) = some z) :
    Truthful database z := by
  obtain ⟨evs, hstep, hadmitted, happlied, hhistory⟩ := applications_next hnext
  have hfamily : (Family.step database).next (familyConfig x) (k, call) = some (familyConfig z) :=
    Step.next_eq_some.mpr ⟨_, evs, hstep, by simp [familyConfig, hhistory]⟩
  refine ⟨h.accounted.step hfamily, fun owner collection id => ?_⟩
  have hdone : Family.Done z.state.family owner collection id ↔
      Family.Done x.state.family owner collection id ∨ _ := h.accounted.done_step hstep
  rw [hdone, h.done_iff, happlied, List.mem_append]
  apply or_congr_right
  rw [List.mem_flatMap]
  constructor
  · rintro ⟨task, hran, rfl, hid⟩
    obtain ⟨-, -, position, w, hcall, hw, hposition⟩ := ran_of_familyStep hstep hran
    have heffective : task.effective outcome = task.transactions :=
      Task.effective_eq (List.all_eq_true.mp hadmitted _ hran)
        fun hwrites => hbulk (by rw [hcall]) hw hposition hwrites
    refine ⟨_, hran, ?_⟩
    simpa [appliedBy, heffective] using hid
  · rintro ⟨⟨k', ev⟩, hev, hmem⟩
    cases ev with
    | ran task =>
        obtain ⟨id', hid, heq⟩ := List.mem_map.mp hmem
        obtain ⟨rfl, rfl, rfl⟩ : k' = owner ∧ task.collection = collection ∧ id' = id := by
          simpa using heq
        have hsubset : task.effective outcome ⊆ task.transactions := by
          cases outcome with
          | applied => exact fun id hid => hid
          | stopped n => exact List.take_subset n _
        exact ⟨task, hev, rfl, hsubset hid⟩
    | _ => exact absurd hmem List.not_mem_nil

/-- Where flags and effects agree, a dependency is passed for an entry in effect. -/
theorem released (h : Truthful database x)
    (hnext : (Family.step database).next (familyConfig x) (k, call) = some (familyConfig z))
    {owner : UInt64} {w w' : World doc callable} {collection : UInt8}
    {info info' : CollectionInfo doc callable} {slot : Nat} {e target : TransactionInfo doc callable}
    {d : Dependency} (hw : x.state.family.lookup owner = some w)
    (hinfo : w.object.collections.lookup collection = some info)
    (hw' : z.state.family.lookup owner = some w')
    (hinfo' : w'.object.collections.lookup collection = some info') (hlo : info.firstId ≤ slot)
    (hhi : slot < info'.firstId) (he : info.transactions.lookup slot = some e)
    (hd : e.dependency = some d)
    (htarget : Family.entry x.state.family d.owner collection d.id = some target) :
    (d.owner, collection, d.id) ∈ x.state.applied := by
  obtain ⟨w₁, info₁, call', ids, hw₁, hinfo₁, hcall, hmove⟩ := family_move h.accounted hnext hw hinfo
  obtain rfl := Option.some.inj (hw₁.symm.trans hw')
  obtain rfl := Option.some.inj (hinfo₁.symm.trans hinfo')
  obtain ⟨diff, order, getter, rfl, hconsumed⟩ := hmove.consumed_by_scan hlo hhi
  have hmoved : ¬ info₁ = info := by
    rintro rfl
    omega
  obtain ⟨-, hcompleted⟩ := hcall.resolve_right hmoved
  obtain rfl := Call.completed_update hcompleted.symm
  have hmet := ((h.accounted owner w hw).ledger hinfo).sound.met_of_consumed _ collection hlo hconsumed
    he hd
  rw [familyConfig, dependencyMet_family htarget] at hmet
  exact (h.done_iff _ _ _).mp ⟨target, htarget, hmet⟩

/-- **A step is honest exactly when it stops no bulk.** -/
theorem honest_iff (h : Truthful database x)
    (hnext : (Applications.step database).next x ((k, call), outcome) = some z) :
    Honest database x ((k, call), outcome) ↔ BulkApplied x ((k, call), outcome) := by
  obtain ⟨evs, hstep, hadmitted, happlied, hhistory⟩ := applications_next hnext
  constructor
  · intro hhonest owner position w task hcall hw hposition hwrites
    obtain ⟨rfl, rfl⟩ := Prod.mk.inj hcall
    have haccounted := h.accounted k w hw
    have hmem : task ∈ w.submitted := List.mem_of_getElem? hposition
    have hevs : evs = [(k, .ran task)] := by
      obtain ⟨w₁, w', evs', hw₁, hmove, -, rfl⟩ := familyStep_eq_some.mp hstep
      obtain rfl := Option.some.inj (hw₁.symm.trans hw)
      simp only [Call.completed, World.step, hposition, Option.some.injEq, Prod.mk.injEq] at hmove
      rw [← hmove.2, List.map_singleton]
    subst hevs
    cases outcome with
    | applied => rfl
    | stopped n =>
        -- the first operation that is left out is marked, and was not in effect before
        exfalso
        have hlt : n < task.transactions.length := by
          simpa [admittedBy, Task.admits, hwrites] using hadmitted
        have hid : task.transactions[n] ∈ task.transactions := List.getElem_mem hlt
        have hdone : Family.Done z.state.family k task.collection task.transactions[n] :=
          (h.accounted.done_step hstep).mpr (Or.inr ⟨task, List.mem_singleton_self _, rfl, hid⟩)
        have hin := (hhonest z hnext).flags _ _ _ hdone
        rw [happlied, List.mem_append] at hin
        rcases hin with hbefore | hnow
        · obtain ⟨w₁, hw₁, hdone₁⟩ := family_done_iff.mp ((h.done_iff _ _ _).mpr hbefore)
          obtain rfl := Option.some.inj (hw₁.symm.trans hw)
          exact haccounted.not_done_of_mem hmem hid hdone₁
        · rw [List.flatMap_singleton] at hnow
          obtain ⟨id, htaken, heq⟩ := List.mem_map.mp hnow
          obtain rfl : id = task.transactions[n] := by simpa using heq
          obtain ⟨i, hi, heq⟩ : ∃ i, ∃ hi : i < (task.transactions.take n).length,
              (task.transactions.take n)[i] = task.transactions[n] := List.getElem_of_mem htaken
          rw [List.length_take] at hi
          rw [List.getElem_take] at heq
          have hsame := (List.Nodup.getElem_inj_iff (haccounted.nodup_of_mem hmem)).mp heq
          omega
  · intro hbulk z' hnext'
    obtain rfl := Option.some.inj (hnext.symm.trans hnext')
    have hfamily : (Family.step database).next (familyConfig x) (k, call) = some (familyConfig z) :=
      Step.next_eq_some.mpr ⟨_, evs, hstep, by simp [familyConfig, hhistory]⟩
    refine ⟨fun _ _ _ => ((h.step hbulk hnext).done_iff _ _ _).mp, ?_, ?_⟩
    · intro owner w w' collection info info' slot e d target
      exact h.released hfamily
    · intro owner w diff order getter _ _ _ collection id
      exact (h.done_iff _ _ _).mp

end Truthful

theorem truthful_start (database : Database)
    (objects : Finmap fun _ : UInt64 => UInt64 × Transaction doc callable) :
    Truthful database (Applications.start database objects) where
  accounted := Family.accounted_start database objects
  done_iff := by
    intro owner collection id
    refine iff_of_false ?_ List.not_mem_nil
    rintro ⟨e, he, -⟩
    rw [Applications.start, Family.entry_start] at he
    exact absurd he (by simp)

/-- **Done means applied** in exactly the runs in which no bulk is stopped: flags, released dependencies
and deletions of all their steps are honest. -/
theorem honest_iff_bulks_applied [Bson doc] {database : Database}
    {objects : Finmap fun _ : UInt64 => UInt64 × Transaction doc callable}
    {visited : List (Config (Applications doc callable) (UInt64 × Event) ×
      ((UInt64 × Call doc callable) × Outcome))}
    {x : Config (Applications doc callable) (UInt64 × Event)}
    (hrun : Run (Applications.step database) (Applications.start database objects) visited x) :
    Throughout (Honest database) visited ↔ Throughout BulkApplied visited := by
  apply hrun.forall_iff (Truthful database) (Honest database) BulkApplied
  · rintro y z ⟨⟨k, call⟩, outcome⟩ h hbulk hnext
    exact h.step hbulk hnext
  · rintro y z ⟨⟨k, call⟩, outcome⟩ h hnext
    exact h.honest_iff hnext
  · exact truthful_start database objects

/-- After honest steps, everything marked done has taken effect. -/
theorem flags_of_honest [Bson doc] {database : Database}
    {objects : Finmap fun _ : UInt64 => UInt64 × Transaction doc callable}
    {visited : List (Config (Applications doc callable) (UInt64 × Event) ×
      ((UInt64 × Call doc callable) × Outcome))}
    {x : Config (Applications doc callable) (UInt64 × Event)}
    (hrun : Run (Applications.step database) (Applications.start database objects) visited x)
    (hhonest : Throughout (Honest database) visited) {owner : UInt64} {collection : UInt8} {id : Nat}
    (hdone : Family.Done x.state.family owner collection id) :
    (owner, collection, id) ∈ x.state.applied := by
  cases hrun with
  | start => exact ((truthful_start database objects).done_iff owner collection id).mp hdone
  | snoc hinit hnext =>
      rw [throughout_snoc] at hhonest
      exact (hhonest.2 x hnext).flags owner collection id hdone

/-- Owner 2 writes, and owner 1 sends its own write when that one is done. -/
def twoWrites (outcome : Outcome) : List ((UInt64 × Call Unit Unit) × Outcome) :=
  [((2, .pushOperation 0 .insert ()), .applied), ((1, .pushDependency 0 2 0), .applied),
    ((1, .pushOperation 0 .insert ()), .applied), ((2, .update 0 [0] .unknown), .applied),
    ((2, .runTask 0), outcome), ((1, .update 0 [0] .unknown), .applied)]

/-- The write of owner 2 is dropped: it is marked done, and owner 1 does not wait for it. -/
theorem dropped_write_is_done :
    ∃ (visited : List (Config (Applications Unit Unit) (UInt64 × Event) ×
        ((UInt64 × Call Unit Unit) × Outcome)))
      (x : Config (Applications Unit Unit) (UInt64 × Event)),
      Run (Applications.step .single) (Applications.start .single twoOwners) visited x ∧
        (1, Event.dispatched ⟨0, false, [1]⟩) ∈ x.history ∧ x.state.applied = [] ∧
        ¬ Throughout (Honest .single) visited := by
  obtain ⟨x, hx⟩ := Option.isSome_iff_exists.mp (show (exec (Applications.step .single)
    (Applications.start .single twoOwners) (twoWrites (.stopped 0))).isSome = true by decide)
  have hstate : (some x).map (fun x => (decide ((1, Event.dispatched ⟨0, false, [1]⟩) ∈ x.history),
      x.state.applied, (Family.entry x.state.family 2 0 0).map TransactionInfo.done)) =
      some (true, [], some true) := by
    rw [← hx]
    decide
  simp only [Option.map_some, Option.some.injEq, Prod.mk.injEq, decide_eq_true_eq] at hstate
  obtain ⟨hdispatched, happlied, hentry⟩ := hstate
  obtain ⟨visited, hrun, -⟩ := run_of_exec hx
  refine ⟨visited, x, hrun, hdispatched, happlied, fun hhonest => ?_⟩
  have hin := flags_of_honest hrun hhonest (Option.map_eq_some_iff.mp hentry)
  rw [happlied] at hin
  exact absurd hin List.not_mem_nil

/-- The same, with the write applied. -/
theorem honest_iff_bulks_applied_two_owners :
    ∃ (visited : List (Config (Applications Unit Unit) (UInt64 × Event) ×
        ((UInt64 × Call Unit Unit) × Outcome)))
      (x : Config (Applications Unit Unit) (UInt64 × Event)),
      visited.map Prod.snd = twoWrites .applied ∧
      Run (Applications.step .single) (Applications.start .single twoOwners) visited x ∧
      (Throughout (Honest .single) visited ↔ Throughout BulkApplied visited) := by
  obtain ⟨x, hx⟩ := Option.isSome_iff_exists.mp (show (exec (Applications.step .single)
    (Applications.start .single twoOwners) (twoWrites .applied)).isSome = true by decide)
  obtain ⟨visited, hrun, hacts⟩ := run_of_exec hx
  exact ⟨visited, x, hacts, hrun, honest_iff_bulks_applied hrun⟩

end Sekkeizu
