/-
# Sekkeizu.Database.Contents — what the tasks of a family make of the collections.

The units of the tasks of all owners are interleaved as the pool happens to run them. The content of a collection
is what the entries performed in it make of it one after the other (`executed`): each once, and none before an
entry it was pushed behind a dependency on. When the pool works on each owner's tasks for a collection oldest
first, every owner's entries take effect in push order besides (`collections_serializable`). Two runs of the same
queues then agree on the content whenever entries of different owners that do not wait for each other commute
(`content_independent_of_schedule`).

Neither holds without the conditions it names. A dependency on an id no `push` has returned may be passed, and a
pool that takes a later task first breaks push order.
-/
import Sekkeizu.Database.Underway

namespace Sekkeizu

open PartialSystem

variable {doc callable : Type*}

/-! ## Entries as operations on a collection -/

/-- What the entry of an owner does to the collection. -/
def Family.effect [Driver doc] (run : callable → List doc → List doc)
    (family : Finmap fun _ : UInt64 => World doc callable) (collection : UInt8) (op : UInt64 × Nat)
    (content : List doc) : List doc :=
  match Family.entry family op.1 collection op.2 with
  | none => content
  | some t => t.effect run content

/-- `op` was pushed behind a dependency on `target`. -/
def Awaits (family : Finmap fun _ : UInt64 => World doc callable) (collection : UInt8)
    (target op : UInt64 × Nat) : Prop :=
  ∃ slot < op.2, ∃ e, Family.entry family op.1 collection slot = some e ∧
    e.dependency = some ⟨target.1, target.2⟩

/-- `earlier` is an operation or a callable that the same owner pushed before `op`. -/
def PushedBefore (family : Finmap fun _ : UInt64 => World doc callable) (collection : UInt8)
    (earlier op : UInt64 × Nat) : Prop :=
  earlier.1 = op.1 ∧ earlier.2 < op.2 ∧
    ∃ e, Family.entry family earlier.1 collection earlier.2 = some e ∧ e.dependency = none

/-- What has to take effect before `op`, if dependencies and push order are kept. -/
def MustPrecede (family : Finmap fun _ : UInt64 => World doc callable) (collection : UInt8)
    (other op : UInt64 × Nat) : Prop :=
  Awaits family collection other op ∨ PushedBefore family collection other op

section Effects

variable [Driver doc] {run : callable → List doc → List doc}

theorem TransactionInfo.SameCode.effect {e e' : TransactionInfo doc callable} (h : e.SameCode e') :
    e'.effect run = e.effect run := by
  rw [h]
  rfl

/-- Reading the effect of an entry off the family. -/
theorem familyEffect_of_entry {family : Finmap fun _ : UInt64 => World doc callable} {owner : UInt64}
    {collection : UInt8} {id : Nat} {e : TransactionInfo doc callable}
    (he : Family.entry family owner collection id = some e) :
    Family.effect run family collection (owner, id) = e.effect run := by
  funext content
  simp only [Family.effect, he]

/-- Entries that are there keep what they do. -/
theorem QueuesMove.effect [Bson doc] {database : Database} {connected : Bool}
    {x : Config (Finmap fun _ : UInt64 => World doc callable) (UInt64 × Event)}
    {family' : Finmap fun _ : UInt64 => World doc callable} (hmoves : QueuesMove connected x.state family')
    (h : Family.Accounted database x) {collection : UInt8} {o : UInt64 × Nat}
    {e : TransactionInfo doc callable} (he : Family.entry x.state o.1 collection o.2 = some e) :
    Family.effect run family' collection o = Family.effect run x.state collection o := by
  obtain ⟨e', he', hcode⟩ := hmoves.sameCode h he
  calc Family.effect run family' collection o
      = e'.effect run := familyEffect_of_entry he'
    _ = e.effect run := hcode.effect
    _ = Family.effect run x.state collection o := (familyEffect_of_entry he).symm

end Effects

/-! ## The two orders -/

section Orders

variable {database : Database}
variable {x : Config (Finmap fun _ : UInt64 => World doc callable) (UInt64 × Event)}
variable {k : UInt64} {w : World doc callable} {task : Task}

/-- What an entry of a task waits for is done: the scan has passed the dependency. -/
theorem done_of_awaits (h : Barriers database x) (hw : x.state.lookup k = some w)
    (hmem : task ∈ w.submitted) {id : Nat} (hid : id ∈ task.transactions) {p : UInt64 × Nat}
    (hawaits : Awaits x.state task.collection p (k, id)) :
    Family.Done x.state p.1 task.collection p.2 := by
  obtain ⟨slot, hslot, e, he, hdep⟩ := hawaits
  obtain ⟨w', info, hw', hinfo, hlookup⟩ := entry_eq_some.mp he
  obtain rfl : w' = w := Option.some.inj (hw'.symm.trans hw)
  have hledger := (h.accounted k w' hw).ledger hinfo
  have hsent := hledger.sublist.subset (Accounted.mem_outstanding_of_mem
    (x := memberConfig x k w') hmem hid)
  have hfirst := hledger.lt_first hsent
  obtain ⟨target, htarget, hdone⟩ := h.met hw hinfo slot (Nat.lt_trans hslot hfirst) e _ hlookup hdep
  exact ⟨target, htarget, hdone⟩

/-- The ids of a task increase. -/
theorem Accounted.pairwise_of_mem {w : Config (World doc callable) Event} (h : Accounted database w)
    {task : Task} (hmem : task ∈ w.state.submitted) : task.transactions.Pairwise (· < ·) := by
  obtain ⟨info, hinfo⟩ := Finmap.mem_iff.mp (h.exists_collection task hmem)
  refine (h.ledger hinfo).outstanding_pairwise.sublist (List.sublist_flatten_of_mem ?_)
  exact List.mem_map_of_mem (List.mem_filter.mpr ⟨hmem, decide_eq_true rfl⟩)

/-- What the owner pushed before an entry of its oldest task is done, or comes before it in the task. -/
theorem done_of_pushedBefore (h : Family.Accounted database x)
    (hw : x.state.lookup k = some w) {position : Nat}
    (hposition : w.submitted[position]? = some task)
    (holdest : Sekkeizu.OldestFirst (memberConfig x k w) (.runTask position))
    {earlier later : List Nat} {id : Nat} (htrans : task.transactions = earlier ++ id :: later)
    {p : UInt64 × Nat} (hpushed : PushedBefore x.state task.collection p (k, id)) :
    Family.Done x.state p.1 task.collection p.2 ∨ p ∈ earlier.map fun i => (k, i) := by
  obtain ⟨owner, i⟩ := p
  obtain ⟨howner, hlt, e, he, hnone⟩ := hpushed
  obtain rfl : owner = k := howner
  obtain ⟨w', info, hw', hinfo, hlookup⟩ := entry_eq_some.mp he
  obtain rfl : w' = w := Option.some.inj (hw'.symm.trans hw)
  have hmem := List.mem_of_getElem? hposition
  obtain ⟨before, after, hsubmitted, hlen, -⟩ := List.split_of_getElem? hposition
  have hnobefore : outstanding task.collection before = [] := by
    apply List.eq_nil_iff_forall_not_mem.mpr
    intro i hi
    obtain ⟨other, hother, hsame, -⟩ := mem_outstanding.mp hi
    obtain ⟨j, hj, hget⟩ := List.mem_iff_getElem.mp hother
    refine holdest position task rfl hposition j (by omega) other ?_ hsame
    dsimp only [memberConfig]
    rw [hsubmitted, List.getElem?_append_left hj, List.getElem?_eq_getElem hj, hget]
  have hkeeps := keepsPushOrder_of_oldest (h owner w' hw) hsubmitted hnobefore
  rcases hkeeps info hinfo id (by simp [htrans]) i hlt
    (CollectionInfo.isOperation_iff.mpr ⟨e, hlookup, hnone⟩) with hdone | hown
  · exact Or.inl (family_done_iff.mpr ⟨w', hw, info, hinfo, hdone⟩)
  · -- the ids of the task increase, so a smaller one is further in front
    have hsorted := (h owner w' hw).pairwise_of_mem hmem
    rw [htrans] at hown hsorted
    rcases List.mem_append.mp hown with hfront | hback
    · exact Or.inr (List.mem_map_of_mem hfront)
    · have hle : id ≤ i := by
        rcases List.mem_cons.mp hback with rfl | hback
        · exact Nat.le_refl _
        · have htail := (List.pairwise_append.mp hsorted).2.1
          exact Nat.le_of_lt ((List.pairwise_cons.mp htail).1 i hback)
      omega

variable [Bson doc] {connected : Bool} {family' : Finmap fun _ : UInt64 => World doc callable}

/-- An entry in front of one that is there is there as well. -/
theorem entry_back (h : Family.Accounted database x) (hmoves : QueuesMove connected x.state family')
    {owner : UInt64} {collection : UInt8} {slot id : Nat} {e e' : TransactionInfo doc callable}
    (he : Family.entry x.state owner collection id = some e) (hslot : slot < id)
    (he' : Family.entry family' owner collection slot = some e') :
    ∃ e₀, Family.entry x.state owner collection slot = some e₀ ∧ e'.dependency = e₀.dependency := by
  obtain ⟨e₀, he₀⟩ := entry_below h he hslot
  obtain ⟨e₁, he₁, hcode⟩ := hmoves.sameCode h he₀
  obtain rfl := Option.some.inj (he₁.symm.trans he')
  exact ⟨e₀, he₀, by rw [hcode]⟩

theorem awaits_back (h : Family.Accounted database x) (hmoves : QueuesMove connected x.state family')
    {collection : UInt8} {p o : UInt64 × Nat} {e : TransactionInfo doc callable}
    (he : Family.entry x.state o.1 collection o.2 = some e) (hawaits : Awaits family' collection p o) :
    Awaits x.state collection p o := by
  obtain ⟨slot, hslot, e', he', hdep⟩ := hawaits
  obtain ⟨e₀, he₀, hsame⟩ := entry_back h hmoves he hslot he'
  exact ⟨slot, hslot, e₀, he₀, hsame.symm.trans hdep⟩

theorem pushedBefore_back (h : Family.Accounted database x)
    (hmoves : QueuesMove connected x.state family') {collection : UInt8} {p o : UInt64 × Nat}
    {e : TransactionInfo doc callable} (he : Family.entry x.state o.1 collection o.2 = some e)
    (hpushed : PushedBefore family' collection p o) : PushedBefore x.state collection p o := by
  obtain ⟨howner, hlt, e', he', hnone⟩ := hpushed
  rw [howner] at he'
  obtain ⟨e₀, he₀, hsame⟩ := entry_back h hmoves he hlt he'
  exact ⟨howner, hlt, e₀, by rw [howner]; exact he₀, hsame.symm.trans hnone⟩

end Orders

/-! ## Serial accounts -/

section Accounts

variable [Driver doc]

/-- A serial account of every collection, for some order between entries. -/
structure Store.Serialized (database : Database) (run : callable → List doc → List doc)
    (order : (Finmap fun _ : UInt64 => World doc callable) → UInt8 → UInt64 × Nat → UInt64 × Nat → Prop)
    (content : UInt8 → List doc) (x : Config (Store doc callable) StoreEvent) : Prop where
  working : Store.Working database x
  serial : ∀ collection, Serial (Family.effect run x.state.family collection)
    (order x.state.family collection) (x.state.Performed collection) (content collection)
    (executed collection x.history) (x.state.content collection)

theorem serialized_start (run : callable → List doc → List doc) (database : Database)
    (objects : Finmap fun _ : UInt64 => UInt64 × Transaction doc callable) (content : UInt8 → List doc)
    (order : (Finmap fun _ : UInt64 => World doc callable) → UInt8 → UInt64 × Nat → UInt64 × Nat → Prop) :
    Store.Serialized database run order content (Store.start database objects content) where
  working :=
    { barriers := barriers_start database objects
      batched := by
        intro owner w hw task htask
        dsimp only [Store.start, Family.start] at hw
        rw [Finmap.lookup_mapVals] at hw
        obtain ⟨o, -, rfl⟩ := Option.map_eq_some_iff.mp hw
        exact absurd htask List.not_mem_nil
      underway := fun hid => absurd hid List.not_mem_nil }
  serial := by
    intro collection
    apply Serial.empty
    rintro o (⟨e, he, -⟩ | happlied)
    · dsimp only [Store.start] at he
      rw [Family.entry_start] at he
      exact absurd he (by simp)
    · exact absurd happlied List.not_mem_nil

variable [Bson doc] {run : callable → List doc → List doc} {database : Database}
variable {x y : Config (Store doc callable) StoreEvent} {action : Store.Action doc callable}

/-- **A unit keeps the accounts**, when the order asks nothing new of entries that are there, and everything it
asks for the entry a unit performs has been performed. -/
theorem Store.Serialized.step
    {order : (Finmap fun _ : UInt64 => World doc callable) → UInt8 → UInt64 × Nat → UInt64 × Nat → Prop}
    {content : UInt8 → List doc} (h : Store.Serialized database run order content x)
    (hnames : Store.NamesReturnedId x action) (hnext : (Store.step run database).next x action = some y)
    (hback : QueuesMove database.isConnected x.state.family y.state.family → ∀ {collection p o e},
      Family.entry x.state.family o.1 collection o.2 = some e →
      order y.state.family collection p o → order x.state.family collection p o)
    (hunit : ∀ {owner position w task front id rest}, action.WorksAt owner position →
      x.state.family.lookup owner = some w → w.submitted[position]? = some task →
      task.transactions = front ++ id :: rest →
      (∀ i ∈ front, x.state.Performed task.collection (owner, i)) → ∀ p,
      order x.state.family task.collection p (owner, id) → x.state.Performed task.collection p) :
    Store.Serialized database run order content y := by
  obtain ⟨s', evs, hstep, rfl⟩ := Step.next_eq_some.mp hnext
  have hacts := acts_of_storeStep hstep
  have hmoves := hacts.queuesMove h.working.barriers.accounted
  refine ⟨h.working.acts hacts hnames, fun collection => ?_⟩
  have hold : ∀ o, x.state.Performed collection o →
      Family.effect run s'.family collection o = Family.effect run x.state.family collection o ∧
        ∀ p, order s'.family collection p o → order x.state.family collection p o := by
    intro o ho
    obtain ⟨e, he⟩ := h.working.entry_of_performed ho
    exact ⟨hmoves.effect (x := storeFamily x) h.working.barriers.accounted he, fun p => hback hmoves he⟩
  have hkeep : executed collection evs = [] → s'.content collection = x.state.content collection →
      (∀ o, s'.Performed collection o ↔ x.state.Performed collection o) →
      Serial (Family.effect run s'.family collection) (order s'.family collection)
        (s'.Performed collection) (content collection) (executed collection (x.history ++ evs))
        (s'.content collection) := by
    intro hnone hcontent hsame
    rw [executed_append, hnone, hcontent]
    exact (h.serial collection).extend List.nodup_nil (fun o ho => absurd ho List.not_mem_nil)
      (fun o => by simp [hsame o]) (fun o ho => (hold o ho).1) (fun o ho => (hold o ho).2)
      (fun earlier o later heq => by simp at heq)
  cases h.working.performs hacts with
  | nothing _ hexecuted hcontent hperformed =>
      exact hkeep (hexecuted collection) (by rw [hcontent]) (hperformed collection)
  | entry owner position w task front id rest t hworks hw hposition htransactions hfront hnew ht hcontent
      hperformed =>
      by_cases hself : collection = task.collection
      · subst hself
        have heffect : Family.effect run s'.family task.collection (owner, id) = t.effect run :=
          (hmoves.effect (x := storeFamily x) h.working.barriers.accounted (o := (owner, id)) ht).trans
            (familyEffect_of_entry ht)
        have hafter : s'.content task.collection = replay (Family.effect run s'.family task.collection)
            (x.state.content task.collection) [(owner, id)] := by
          rw [hcontent, Function.update_self, replay_cons, replay_nil, heffect]
        rw [executed_append, executed_performed, if_pos rfl, hafter]
        refine (h.serial task.collection).extend (List.nodup_singleton _) ?_ ?_ (fun o ho => (hold o ho).1)
          (fun o ho => (hold o ho).2) ?_
        · intro o ho
          rwa [List.mem_singleton.mp ho]
        · intro o
          rw [hperformed, List.mem_singleton]
          exact or_congr Iff.rfl (and_iff_right rfl)
        · intro earlier o later heq p hp
          obtain ⟨rfl, rfl⟩ : earlier = [] ∧ o = (owner, id) := by
            cases earlier with
            | nil => exact ⟨rfl, (List.cons.inj heq).1.symm⟩
            | cons o' earlier => simp at heq
          exact Or.inl (hunit hworks hw hposition htransactions hfront p (hback hmoves ht hp))
      · refine hkeep ?_ ?_ fun o => ?_
        · rw [executed_performed, if_neg (Ne.symm hself)]
        · rw [hcontent, Function.update_of_ne hself]
        · rw [hperformed]
          exact or_iff_left fun hsame => hself hsame.1

/-! ## Every run -/

variable {objects : Finmap fun _ : UInt64 => UInt64 × Transaction doc callable}
variable {content : UInt8 → List doc}
variable {visited : List (Config (Store doc callable) StoreEvent × Store.Action doc callable)}

/-- Dependencies alone order the accounts of every run. -/
theorem serialized_run
    (hrun : Run (Store.step run database) (Store.start database objects content) visited x)
    (hnames : Throughout Store.NamesReturnedId visited) :
    Store.Serialized database run Awaits content x := by
  refine hrun.invariant (Store.Serialized database run Awaits content) Store.NamesReturnedId ?_ hnames
    (serialized_start run database objects content Awaits)
  intro y z action h hcall hnext
  refine h.step hcall hnext ?_ ?_
  · intro hmoves collection p o e he hawaits
    exact awaits_back (x := storeFamily y) h.working.barriers.accounted hmoves he hawaits
  · intro owner position w task front id rest _ hw hposition htransactions _ p hawaits
    exact Or.inl (done_of_awaits h.working.barriers hw (List.mem_of_getElem? hposition)
      (by simp [htransactions]) hawaits)

/-- With the oldest tasks first, push order does as well. -/
theorem serialized_run_in_turn
    (hrun : Run (Store.step run database) (Store.start database objects content) visited x)
    (hnames : Throughout Store.NamesReturnedId visited)
    (holdest : Throughout Store.OldestFirst visited) :
    Store.Serialized database run MustPrecede content x := by
  refine hrun.invariant (Store.Serialized database run MustPrecede content)
    (fun y a => Store.NamesReturnedId y a ∧ Store.OldestFirst y a) ?_
    (fun p hp => ⟨hnames p hp, holdest p hp⟩)
    (serialized_start run database objects content MustPrecede)
  rintro y z action h ⟨hcall, hturn⟩ hnext
  have haccounted := h.working.barriers.accounted
  refine h.step hcall hnext ?_ ?_
  · rintro hmoves collection p o e he (hawaits | hpushed)
    · exact Or.inl (awaits_back (x := storeFamily y) haccounted hmoves he hawaits)
    · exact Or.inr (pushedBefore_back (x := storeFamily y) haccounted hmoves he hpushed)
  · rintro owner position w task front id rest hworks hw hposition htransactions hfront p
      (hawaits | hpushed)
    · exact Or.inl (done_of_awaits h.working.barriers hw (List.mem_of_getElem? hposition)
        (by simp [htransactions]) hawaits)
    · rcases done_of_pushedBefore haccounted hw hposition (hturn owner position w hworks hw) htransactions
        hpushed with hdone | hown
      · exact Or.inl hdone
      · obtain ⟨i, hi, rfl⟩ := List.mem_map.mp hown
        exact hfront i hi

/-- **The collections are serializable.** In every run whose dependencies name returned ids, whatever units of
the owners and of their tasks are interleaved, the content of every collection is what the entries performed so
far make of it one after another, each once and in the order performed, with every entry after those it waits
for; if the pool works on each owner's tasks for a collection oldest first, also after those its owner pushed
before it. And every task of the pool can go on. -/
theorem collections_serializable
    (hrun : Run (Store.step run database) (Store.start database objects content) visited x)
    (hnames : Throughout Store.NamesReturnedId visited) :
    (∀ collection, Serial (Family.effect run x.state.family collection)
      (Awaits x.state.family collection) (x.state.Performed collection) (content collection)
      (executed collection x.history) (x.state.content collection)) ∧
    (Throughout Store.OldestFirst visited → ∀ collection,
      Respects (MustPrecede x.state.family collection) (executed collection x.history)) ∧
    ∀ owner w, x.state.family.lookup owner = some w → ∀ position < w.submitted.length,
      ∃ action ∈ [Store.Action.callNext owner position, .applyNext owner position,
          .flagAll owner position],
        (Store.step run database x.state action).isSome = true := by
  have h := serialized_run hrun hnames
  refine ⟨h.serial, fun holdest collection => ?_, ?_⟩
  · exact ((serialized_run_in_turn hrun hnames holdest).serial collection).respects
  · intro owner w hw position hposition
    exact h.working.goes_on run hw hposition

end Accounts

/-! ## Two schedules -/

/-- The entry without its flags. -/
def TransactionInfo.code (e : TransactionInfo doc callable) : TransactionInfo doc callable :=
  { e with pending := false, done := false }

/-- The owners have pushed the same entries to the collection. -/
def SameEntries (family family' : Finmap fun _ : UInt64 => World doc callable) (collection : UInt8) :
    Prop :=
  ∀ owner id, (Family.entry family' owner collection id).map TransactionInfo.code =
    (Family.entry family owner collection id).map TransactionInfo.code

namespace SameEntries

variable {family family' : Finmap fun _ : UInt64 => World doc callable} {collection : UInt8}

theorem symm (h : SameEntries family family' collection) : SameEntries family' family collection :=
  fun owner id => (h owner id).symm

theorem exists_entry (h : SameEntries family family' collection) {owner : UInt64} {id : Nat}
    {e : TransactionInfo doc callable} (he : Family.entry family owner collection id = some e) :
    ∃ e', Family.entry family' owner collection id = some e' ∧ e'.dependency = e.dependency := by
  have hsame := h owner id
  rw [he, Option.map_some] at hsame
  obtain ⟨e', he', hcode⟩ := Option.map_eq_some_iff.mp hsame
  have hdep : e'.code.dependency = e.code.dependency := by rw [hcode]
  exact ⟨e', he', hdep⟩

/-- Entries do the same. -/
theorem effect [Driver doc] (run : callable → List doc → List doc)
    (h : SameEntries family family' collection) :
    Family.effect run family' collection = Family.effect run family collection := by
  have hcode : ∀ family : Finmap fun _ : UInt64 => World doc callable, ∀ op content,
      Family.effect run family collection op content =
        ((Family.entry family op.1 collection op.2).map TransactionInfo.code).elim content
          fun t => t.effect run content := by
    intro family op content
    unfold Family.effect
    cases Family.entry family op.1 collection op.2 <;> rfl
  funext op content
  rw [hcode, hcode, h op.1 op.2]

/-- What must come before an entry is the same. -/
theorem mustPrecede (h : SameEntries family family' collection) {p o : UInt64 × Nat}
    (hp : MustPrecede family collection p o) : MustPrecede family' collection p o := by
  rcases hp with ⟨slot, hslot, e, he, hdep⟩ | ⟨howner, hlt, e, he, hnone⟩
  · obtain ⟨e', he', hsame⟩ := h.exists_entry he
    exact Or.inl ⟨slot, hslot, e', he', hsame.trans hdep⟩
  · obtain ⟨e', he', hsame⟩ := h.exists_entry he
    exact Or.inr ⟨howner, hlt, e', he', hsame.trans hnone⟩

end SameEntries

section Schedules

variable {database : Database}

/-- What is performed is an operation or a callable. -/
theorem Store.Working.operation_of_performed {x : Config (Store doc callable) StoreEvent}
    (h : Store.Working database x) {collection : UInt8} {o : UInt64 × Nat}
    (ho : x.state.Performed collection o) :
    ∃ e, Family.entry x.state.family o.1 collection o.2 = some e ∧ e.dependency = none := by
  rcases ho with ⟨e, he, hdone⟩ | happlied
  · refine ⟨e, he, ?_⟩
    by_contra hdep
    obtain ⟨w, info, hw, hinfo, hlookup⟩ := entry_eq_some.mp he
    have hledger := (h.barriers.accounted o.1 w hw).ledger hinfo
    have hnot := (hledger.sound.dependency hlookup hdep).2.1
    exact absurd (hnot.symm.trans hdone) (by simp)
  · obtain ⟨w, hw, task, hmem, rfl, -, hid⟩ := h.underway happlied
    obtain ⟨info, hinfo, hholds⟩ := h.batched o.1 w hw task hmem
    obtain ⟨e, he, hnone, -⟩ := hholds o.2 hid
    exact ⟨e, entry_eq_some.mpr ⟨w, info, hw, hinfo, he⟩, hnone⟩

variable [Bson doc] [Driver doc] {run : callable → List doc → List doc}

/-- **The schedule does not show.** Two runs from the same start whose owners pushed the same entries to a
collection, of which the same have been performed, leave it with the same content, if each run's dependencies
name returned ids, its pool works on the oldest tasks first, and entries of different owners that do not wait for
each other commute. Contents may be compared up to any equivalence that the entries respect. -/
theorem content_independent_of_schedule
    {objects : Finmap fun _ : UInt64 => UInt64 × Transaction doc callable} {content : UInt8 → List doc}
    {visited₁ visited₂ : List (Config (Store doc callable) StoreEvent × Store.Action doc callable)}
    {x y : Config (Store doc callable) StoreEvent}
    (hrun₁ : Run (Store.step run database) (Store.start database objects content) visited₁ x)
    (hrun₂ : Run (Store.step run database) (Store.start database objects content) visited₂ y)
    (hnames₁ : Throughout Store.NamesReturnedId visited₁)
    (hnames₂ : Throughout Store.NamesReturnedId visited₂)
    (holdest₁ : Throughout Store.OldestFirst visited₁)
    (holdest₂ : Throughout Store.OldestFirst visited₂) {collection : UInt8}
    (hentries : SameEntries x.state.family y.state.family collection)
    (hperformed : ∀ o, x.state.Performed collection o ↔ y.state.Performed collection o)
    {same : List doc → List doc → Prop} (hequivalence : Equivalence same)
    (hrespects : ∀ o, x.state.Performed collection o → ∀ docs docs', same docs docs' →
      same (Family.effect run x.state.family collection o docs)
        (Family.effect run x.state.family collection o docs'))
    (hcomm : ∀ o p, x.state.Performed collection o → x.state.Performed collection p →
      o.1 ≠ p.1 → ¬ Awaits x.state.family collection o p → ¬ Awaits x.state.family collection p o →
      ∀ docs, same
        (Family.effect run x.state.family collection o
          (Family.effect run x.state.family collection p docs))
        (Family.effect run x.state.family collection p
          (Family.effect run x.state.family collection o docs))) :
    same (x.state.content collection) (y.state.content collection) := by
  have hx := serialized_run_in_turn hrun₁ hnames₁ holdest₁
  have hy := (serialized_run_in_turn hrun₂ hnames₂ holdest₂).serial collection
  have hy' : Serial (Family.effect run x.state.family collection)
      (MustPrecede x.state.family collection) (x.state.Performed collection) (content collection)
      (executed collection y.history) (y.state.content collection) := by
    refine ⟨?_, hy.nodup, fun o => (hy.mem_iff o).trans (hperformed o).symm, ?_⟩
    · rw [← hentries.effect run]
      exact hy.state_eq
    · exact hy.respects.mono fun o _ p hp => hentries.mustPrecede hp
  refine (hx.serial collection).unique hequivalence hy' hrespects fun o p ho hp hne hop hpo => ?_
  rw [MustPrecede, not_or] at hop hpo
  by_cases howner : o.1 = p.1
  · -- two entries of one owner are in push order, one way or the other
    have hi := hx.working.operation_of_performed ho
    have hj := hx.working.operation_of_performed hp
    obtain ⟨owner, i⟩ := o
    obtain ⟨owner', j⟩ := p
    obtain rfl : owner = owner' := howner
    rcases Nat.lt_trichotomy i j with hlt | rfl | hlt
    · exact absurd ⟨rfl, hlt, hi⟩ hop.2
    · exact absurd rfl hne
    · exact absurd ⟨rfl, hlt, hj⟩ hpo.2
  · exact hcomm o p ho hp howner hop.1 hpo.1

end Schedules

/-! ## Two owners, one collection -/

instance (x : Config (Store doc callable) StoreEvent) (action : Store.Action doc callable) :
    Decidable (Store.NamesReturnedId x action) :=
  match action with
  | .call owner call => inferInstanceAs (Decidable (Sekkeizu.NamesReturnedId (storeFamily x) (owner, call)))
  | .callNext .. => .isTrue trivial
  | .applyNext .. => .isTrue trivial
  | .flagAll .. => .isTrue trivial

/-- The task the unit works on is the oldest, if the owner has it. -/
theorem Store.oldestFirst_iff {x : Config (Store doc callable) StoreEvent}
    {action : Store.Action doc callable} {owner : UInt64} {position : Nat}
    (h : ∀ owner' position', action.WorksAt owner' position' ↔ owner' = owner ∧ position' = position) :
    Store.OldestFirst x action ↔ ∀ w ∈ x.state.family.lookup owner,
      Sekkeizu.OldestFirst (memberConfig (storeFamily x) owner w) (.runTask position) := by
  constructor
  · intro holdest w hw
    exact holdest owner position w ((h owner position).mpr ⟨rfl, rfl⟩) hw
  · rintro holdest owner' position' w hworks hw
    obtain ⟨rfl, rfl⟩ := (h owner' position').mp hworks
    exact holdest w hw

instance (x : Config (Store doc callable) StoreEvent) (action : Store.Action doc callable) :
    Decidable (Store.OldestFirst x action) :=
  match action with
  | .call .. => .isTrue (by simp [Store.OldestFirst, Store.Action.WorksAt])
  | .callNext owner position =>
    decidable_of_iff (∀ w ∈ x.state.family.lookup owner,
      Sekkeizu.OldestFirst (memberConfig (storeFamily x) owner w) (.runTask position))
      (Store.oldestFirst_iff (by simp [Store.Action.WorksAt, eq_comm])).symm
  | .applyNext owner position =>
    decidable_of_iff (∀ w ∈ x.state.family.lookup owner,
      Sekkeizu.OldestFirst (memberConfig (storeFamily x) owner w) (.runTask position))
      (Store.oldestFirst_iff (by simp [Store.Action.WorksAt, eq_comm])).symm
  | .flagAll .. => .isTrue (by simp [Store.OldestFirst, Store.Action.WorksAt])

instance : Bson (Nat × Nat) where
  initializer := (0, 0)
  validate _ := true

/-- Owners 1 and 2, with documents of a key and a value. -/
def twoWriters : Finmap fun _ : UInt64 => UInt64 × Transaction (Nat × Nat) Unit :=
  let object : UInt64 × Transaction (Nat × Nat) Unit := (0, .blank)
  Finmap.insert 1 object (Finmap.insert 2 object ∅)

/-- The only callable there is puts the documents in reverse order. -/
def reverseAll (_ : Unit) (content : List (Nat × Nat)) : List (Nat × Nat) := content.reverse

/-- Owner 1 inserts a document and turns the order round, behind a dependency on a document of owner 2. -/
def insertsInTurn : List (Store.Action (Nat × Nat) Unit) :=
  [.call 2 (.pushOperation 0 .insert (2, 20)), .call 1 (.pushDependency 0 2 0),
    .call 1 (.pushOperation 0 .insert (1, 10)), .call 1 (.pushCallable 0 ()),
    .call 1 (.update 0 [0] .unknown), .call 2 (.update 0 [0] .unknown), .applyNext 2 0, .flagAll 2 0,
    .call 1 (.update 0 [0] .unknown), .call 1 (.update 0 [0] .unknown), .applyNext 1 0, .flagAll 1 0,
    .callNext 1 0]

/-- The collection has both documents, the dependent one in front. -/
theorem collections_serializable_two_owners :
    ∃ (visited : List (Config (Store (Nat × Nat) Unit) StoreEvent × Store.Action (Nat × Nat) Unit))
      (x : Config (Store (Nat × Nat) Unit) StoreEvent),
      Run (Store.step reverseAll .single) (Store.start .single twoWriters fun _ => []) visited x ∧
      x.state.content 0 = [(1, 10), (2, 20)] ∧ executed 0 x.history = [(2, 0), (1, 1), (1, 2)] ∧
      Serial (Family.effect reverseAll x.state.family 0) (Awaits x.state.family 0)
        (x.state.Performed 0) [] (executed 0 x.history) (x.state.content 0) ∧
      Respects (MustPrecede x.state.family 0) (executed 0 x.history) := by
  obtain ⟨x, hx⟩ := Option.isSome_iff_exists.mp (show (exec (Store.step reverseAll .single)
    (Store.start .single twoWriters fun _ => []) insertsInTurn).isSome = true by decide)
  have hnames : Throughout Store.NamesReturnedId (trace (Store.step reverseAll .single)
      (Store.start .single twoWriters fun _ => []) insertsInTurn) := by decide
  have holdest : Throughout Store.OldestFirst (trace (Store.step reverseAll .single)
      (Store.start .single twoWriters fun _ => []) insertsInTurn) := by decide
  have hstate : (some x).map (fun x => (x.state.content 0, executed 0 x.history)) =
      some ([(1, 10), (2, 20)], [(2, 0), (1, 1), (1, 2)]) := by
    rw [← hx]
    decide
  obtain ⟨hcontent, hexecuted⟩ := Prod.mk.inj (Option.some.inj hstate)
  obtain ⟨hserial, horder, -⟩ := collections_serializable (run_trace hx) hnames
  exact ⟨_, x, run_trace hx, hcontent, hexecuted, hserial 0, horder holdest 0⟩

/-- Each owner inserts a document; the bulk of owner 2 begins and ends within that of owner 1. -/
def insertsOneFirst : List (Store.Action (Nat × Nat) Unit) :=
  [.call 1 (.pushOperation 0 .insert (1, 10)), .call 2 (.pushOperation 0 .insert (2, 20)),
    .call 1 (.update 0 [0] .unknown), .call 2 (.update 0 [0] .unknown), .applyNext 1 0, .applyNext 2 0,
    .flagAll 2 0, .flagAll 1 0]

/-- The same documents, owner 2 first. -/
def insertsTwoFirst : List (Store.Action (Nat × Nat) Unit) :=
  [.call 2 (.pushOperation 0 .insert (2, 20)), .call 2 (.update 0 [0] .unknown), .applyNext 2 0,
    .flagAll 2 0, .call 1 (.pushOperation 0 .insert (1, 10)), .call 1 (.update 0 [0] .unknown),
    .applyNext 1 0, .flagAll 1 0]

/-- An entry that inserts. -/
theorem effect_of_insert [Driver doc] (run : callable → List doc → List doc)
    {family : Finmap fun _ : UInt64 => World doc callable} {owner : UInt64}
    {collection : UInt8} {id : Nat} {document : doc}
    (h : (Family.entry family owner collection id).map (fun e => (e.type, e.callable.isSome, e.operationOp1)) =
      some (.insert, false, document)) (content : List doc) :
    Family.effect run family collection (owner, id) content = content ++ [document] := by
  obtain ⟨e, he, hcode⟩ := Option.map_eq_some_iff.mp h
  simp only [Prod.mk.injEq, Option.isSome_eq_false_iff, Option.isNone_iff_eq_none] at hcode
  obtain ⟨htype, hcallable, rfl⟩ := hcode
  simp only [Family.effect, he, TransactionInfo.effect, hcallable, TransactionInfo.bulkOperation, htype,
    BulkOperation.execute]

/-- Inserts of different owners commute up to the order of the documents. -/
theorem content_independent_of_schedule_two_owners :
    ∃ (x y : Config (Store (Nat × Nat) Unit) StoreEvent),
      exec (Store.step reverseAll .single) (Store.start .single twoWriters fun _ => [])
        insertsOneFirst = some x ∧
      exec (Store.step reverseAll .single) (Store.start .single twoWriters fun _ => [])
        insertsTwoFirst = some y ∧
      x.state.content 0 ≠ y.state.content 0 ∧ (x.state.content 0).Perm (y.state.content 0) := by
  obtain ⟨x, hx⟩ := Option.isSome_iff_exists.mp (show (exec (Store.step reverseAll .single)
    (Store.start .single twoWriters fun _ => []) insertsOneFirst).isSome = true by decide)
  obtain ⟨y, hy⟩ := Option.isSome_iff_exists.mp (show (exec (Store.step reverseAll .single)
    (Store.start .single twoWriters fun _ => []) insertsTwoFirst).isSome = true by decide)
  have hnames₁ : Throughout Store.NamesReturnedId (trace (Store.step reverseAll .single)
      (Store.start .single twoWriters fun _ => []) insertsOneFirst) := by decide
  have hnames₂ : Throughout Store.NamesReturnedId (trace (Store.step reverseAll .single)
      (Store.start .single twoWriters fun _ => []) insertsTwoFirst) := by decide
  have holdest₁ : Throughout Store.OldestFirst (trace (Store.step reverseAll .single)
      (Store.start .single twoWriters fun _ => []) insertsOneFirst) := by decide
  have holdest₂ : Throughout Store.OldestFirst (trace (Store.step reverseAll .single)
      (Store.start .single twoWriters fun _ => []) insertsTwoFirst) := by decide
  have hsame : (some x).map (fun x => x.state.family) = (some y).map fun y => y.state.family := by
    rw [← hx, ← hy]
    rfl
  have hstate : (some x).map (fun x => (x.state.content 0, executed 0 x.history)) =
      some ([(1, 10), (2, 20)], [(1, 0), (2, 0)]) := by
    rw [← hx]
    decide
  have hone : (some x).bind (fun x => (Family.entry x.state.family 1 0 0).map
      fun e => (e.type, e.callable.isSome, e.operationOp1)) = some (.insert, false, (1, 10)) := by
    rw [← hx]
    decide
  have htwo : (some x).bind (fun x => (Family.entry x.state.family 2 0 0).map
      fun e => (e.type, e.callable.isSome, e.operationOp1)) = some (.insert, false, (2, 20)) := by
    rw [← hx]
    decide
  have hother : (some y).map (fun y => (y.state.content 0, executed 0 y.history)) =
      some ([(2, 20), (1, 10)], [(2, 0), (1, 0)]) := by
    rw [← hy]
    decide
  simp only [Option.map_some, Option.some.injEq, Prod.mk.injEq] at hsame hstate hother
  rw [Option.bind_some] at hone htwo
  obtain ⟨hcontent, hexecuted⟩ := hstate
  obtain ⟨hcontent', hexecuted'⟩ := hother
  have hserial := (serialized_run (run_trace hx) hnames₁).serial 0
  have hserial' := (serialized_run (run_trace hy) hnames₂).serial 0
  have hinserts : ∀ o, x.state.Performed 0 o → ∃ document, ∀ content,
      Family.effect reverseAll x.state.family 0 o content = content ++ [document] := by
    intro o ho
    have hmem := (hserial.mem_iff o).mpr ho
    rw [hexecuted, List.mem_cons, List.mem_singleton] at hmem
    rcases hmem with rfl | rfl
    · exact ⟨_, effect_of_insert reverseAll hone⟩
    · exact ⟨_, effect_of_insert reverseAll htwo⟩
  have hperm := content_independent_of_schedule (run_trace hx) (run_trace hy) hnames₁ hnames₂ holdest₁
    holdest₂ (show SameEntries x.state.family y.state.family 0 from fun _ _ => by rw [hsame])
    (fun o => by rw [← hserial.mem_iff, ← hserial'.mem_iff, hexecuted, hexecuted']; simp [or_comm])
    ⟨List.Perm.refl, List.Perm.symm, List.Perm.trans⟩ ?_ ?_
  · exact ⟨x, y, hx, hy, by rw [hcontent, hcontent']; decide, hperm⟩
  · intro o ho docs docs' hdocs
    obtain ⟨document, heffect⟩ := hinserts o ho
    rw [heffect, heffect]
    exact hdocs.append_right _
  · intro o p ho hp _ _ _ docs
    obtain ⟨document, heffect⟩ := hinserts o ho
    obtain ⟨document', heffect'⟩ := hinserts p hp
    rw [heffect, heffect', heffect', heffect, List.append_assoc, List.append_assoc]
    exact (List.perm_append_comm).append_left docs

end Sekkeizu
