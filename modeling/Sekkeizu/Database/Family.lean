/-
# Sekkeizu.Database.Family — owners that depend on each other's entries.

A family is one transaction object for each owner id, on one database, with the getter that maps every
id to its object. Nothing is destroyed or initialised again, so an entry once pushed stays, keeps its
dependency, and stays done once it is done (`entry_step`).

What dependencies rely on is the barrier (`Barriers.met`): a dependency the scan has passed has found
its entry, and found it done. It needs the callers to name only ids that a push has returned
(`NamesReturnedId`), for the scan takes a dependency on an unknown entry as met.
-/
import Sekkeizu.Database.Ledger
import Sekkeizu.Semantics.Families


namespace Sekkeizu

open PartialSystem

variable {doc callable : Type*}

/-! ## Entries under a step of one object -/

namespace QueueMove

variable [Bson doc] {connected : Bool} {call : Call doc callable} {collection : UInt8}
variable {info info' : CollectionInfo doc callable} {out ids out' : List Nat}

/-- An entry was there before, with the same dependency, or it is the one just pushed. -/
theorem origin (hmove : QueueMove connected call collection info out info' ids out')
    {id : Nat} {e' : TransactionInfo doc callable}
    (he' : info'.transactions.lookup id = some e') :
    (∃ e, info.transactions.lookup id = some e ∧ e'.dependency = e.dependency) ∨
    (id = info.currentId ∧
      ∀ d, e'.dependency = some d → call = .pushDependency collection d.owner d.id) := by
  cases hmove with
  | stay => exact Or.inl ⟨e', he', rfl⟩
  | push write hwrite =>
      rw [CollectionInfo.pushed, Finmap.lookup_insert_eq] at he'
      split_ifs at he' with hslot
      · refine Or.inr ⟨hslot, fun d hd => hwrite.dependency (e := info.entry info.currentId) ?_⟩
        rw [Option.some.inj he']
        exact hd
      · exact Or.inl ⟨e', he', rfl⟩
  | scan diff order getter hcall =>
      rw [CollectionInfo.Sound.lookup_scanned] at he'
      split_ifs at he'
      · obtain ⟨e, he, rfl⟩ := Option.map_eq_some_iff.mp he'
        exact Or.inl ⟨e, he, rfl⟩
      · exact Or.inl ⟨e', he', rfl⟩
  | finish position before ids after hcall hout =>
      rw [CollectionInfo.Sound.lookup_finished] at he'
      split_ifs at he'
      · obtain ⟨e, he, rfl⟩ := Option.map_eq_some_iff.mp he'
        exact Or.inl ⟨e, he, rfl⟩
      · exact Or.inl ⟨e', he', rfl⟩

/-- What a move consumes, a scan consumes. -/
theorem consumed_by_scan (hmove : QueueMove connected call collection info out info' ids out')
    {slot : Nat} (hlo : info.firstId ≤ slot) (hhi : slot < info'.firstId) :
    ∃ diff order getter, call = .update diff order getter ∧
      slot < info.firstId + (info.consumed getter collection).length := by
  cases hmove with
  | stay => omega
  | push write hwrite =>
      have : (info.pushed write).firstId = info.firstId := rfl
      omega
  | scan diff order getter hcall => exact ⟨diff, order, getter, hcall, hhi⟩
  | finish position before ids after hcall hout =>
      have : (info.finished ids).firstId = info.firstId := rfl
      omega

/-- What a move hands over, a scan hands over. -/
theorem mem_batch_of_mem (hmove : QueueMove connected call collection info out info' ids out')
    {id : Nat} (hid : id ∈ ids) :
    ∃ diff order getter, call = .update diff order getter ∧ id ∈ info.batch getter collection := by
  cases hmove with
  | stay => exact absurd hid List.not_mem_nil
  | push write hwrite => exact absurd hid List.not_mem_nil
  | scan diff order getter hcall => exact ⟨diff, order, getter, hcall, hid⟩
  | finish position before ids after hcall hout => exact absurd hid List.not_mem_nil

end QueueMove

theorem getTransaction_eq_some {t : Transaction doc callable} {collection : UInt8} {id : Nat}
    {e : TransactionInfo doc callable} :
    t.getTransaction collection id = some e ↔
      ∃ info, t.collections.lookup collection = some info ∧ info.transactions.lookup id = some e := by
  unfold Transaction.getTransaction
  cases t.collections.lookup collection with
  | none => simp
  | some info => simp

/-- The id a push returns is that of an operation or a callable. -/
theorem operation_of_slot [Bson doc] {database : Database} {w w' : World doc callable}
    {call : Call doc callable} {evs : List Event}
    (h : World.step database w call = some (w', evs)) {collection : UInt8} {id : Nat}
    (hslot : Event.slot collection id ∈ evs) :
    ∃ e, w'.object.getTransaction collection id = some e ∧ e.dependency = none := by
  cases fires_of_step h with
  | push pushedTo info write t ev hlookup hwrite hcollections hflags hev =>
      rcases hev with rfl | ⟨rfl, hnone⟩
      · exact absurd hslot List.not_mem_nil
      · obtain ⟨rfl, rfl⟩ := Event.slot.inj (List.mem_singleton.mp hslot)
        refine ⟨write (info.entry info.currentId), ?_, hnone _⟩
        rw [getTransaction_eq_some]
        refine ⟨info.pushed write, ?_, Finmap.lookup_insert _⟩
        dsimp only
        rw [hcollections]
        exact Finmap.lookup_insert _
  | update => simp at hslot
  | flag => exact absurd hslot List.not_mem_nil
  | unflag => exact absurd hslot List.not_mem_nil
  | run => simp at hslot

/-! ## The family -/

/-- The getter of a family: every owner id is mapped to its object. -/
def familyGetter (family : Finmap fun _ : UInt64 => World doc callable) : Getter doc callable :=
  fun _ _ owner => (family.lookup owner).map World.object

/-- In a family, `update` is called with the family's getter. -/
def Call.completed (family : Finmap fun _ : UInt64 => World doc callable) :
    Call doc callable → Call doc callable
  | .update diff order _ => .update diff order (familyGetter family)
  | call => call

/-- One step of a family: an owner's object takes a call, or one of its tasks runs. -/
def Family.step [Bson doc] (database : Database) :
    Step (Finmap fun _ : UInt64 => World doc callable) (UInt64 × Call doc callable)
      (UInt64 × Event) :=
  familyStep (World.step database) Call.completed

/-- The family after `init` of every object, with the `execute_every` of each. -/
def Family.start (database : Database)
    (objects : Finmap fun _ : UInt64 => UInt64 × Transaction doc callable) :
    Config (Finmap fun _ : UInt64 => World doc callable) (UInt64 × Event) where
  state := objects.mapVals fun _ o => (World.start database o.1 o.2).state
  history := []

/-- The entry `id` of an owner's queue. -/
def Family.entry (family : Finmap fun _ : UInt64 => World doc callable) (owner : UInt64)
    (collection : UInt8) (id : Nat) : Option (TransactionInfo doc callable) :=
  (family.lookup owner).bind fun w => w.object.getTransaction collection id

/-- A dependency is pushed only on an id that a push of that owner has returned for the collection. -/
def NamesReturnedId (x : Config (Finmap fun _ : UInt64 => World doc callable) (UInt64 × Event))
    (a : UInt64 × Call doc callable) : Prop :=
  ∀ collection owner id, a.2 = .pushDependency collection owner id →
    (owner, .slot collection id) ∈ x.history

theorem entry_eq_some {family : Finmap fun _ : UInt64 => World doc callable} {owner : UInt64}
    {collection : UInt8} {id : Nat} {e : TransactionInfo doc callable} :
    Family.entry family owner collection id = some e ↔
      ∃ w info, family.lookup owner = some w ∧
        w.object.collections.lookup collection = some info ∧ info.transactions.lookup id = some e := by
  simp only [Family.entry, Option.bind_eq_some_iff, getTransaction_eq_some]
  constructor
  · rintro ⟨w, hw, info, hinfo, he⟩
    exact ⟨w, info, hw, hinfo, he⟩
  · rintro ⟨w, info, hw, hinfo, he⟩
    exact ⟨w, hw, info, hinfo, he⟩

/-- The scan's dependency test, in a family: the named entry is unknown or done. -/
theorem dependencyMet_family {family : Finmap fun _ : UInt64 => World doc callable}
    {collection : UInt8} {slot : Nat} {d : Dependency} {e : TransactionInfo doc callable}
    (he : Family.entry family d.owner collection d.id = some e) :
    dependencyMet (familyGetter family) collection slot d = e.done := by
  obtain ⟨w, hw, he⟩ := Option.bind_eq_some_iff.mp he
  simp only [dependencyMet, familyGetter, hw, Option.map_some, he]

@[simp] theorem Call.completed_pushDependency
    {family : Finmap fun _ : UInt64 => World doc callable} {call : Call doc callable}
    {collection : UInt8} {owner : UInt64} {id : Nat} :
    call.completed family = .pushDependency collection owner id ↔
      call = .pushDependency collection owner id := by
  cases call <;> simp [Call.completed]

theorem Call.completed_update {family : Finmap fun _ : UInt64 => World doc callable}
    {call : Call doc callable} {diff : UInt64} {order : List UInt8} {getter : Getter doc callable}
    (h : call.completed family = .update diff order getter) : getter = familyGetter family := by
  cases call with
  | update diff' order' getter' =>
      simp only [Call.completed, Call.update.injEq] at h
      exact h.2.2.symm
  | _ => exact absurd h (by simp [Call.completed])

/-! ## Every object's books, in a family -/

/-- The books of every object are right. -/
def Family.Accounted (database : Database)
    (x : Config (Finmap fun _ : UInt64 => World doc callable) (UInt64 × Event)) : Prop :=
  ∀ owner w, x.state.lookup owner = some w → Sekkeizu.Accounted database (memberConfig x owner w)

theorem Family.Accounted.step [Bson doc] {database : Database}
    {x y : Config (Finmap fun _ : UInt64 => World doc callable) (UInt64 × Event)}
    (h : Family.Accounted database x) {a : UInt64 × Call doc callable}
    (hnext : (Family.step database).next x a = some y) : Family.Accounted database y :=
  member_step (fun hy hstep => hy.step hstep) h hnext

theorem Family.accounted_start (database : Database)
    (objects : Finmap fun _ : UInt64 => UInt64 × Transaction doc callable) :
    Family.Accounted database (Family.start database objects) := by
  intro owner w hw
  rw [Family.start, Finmap.lookup_mapVals] at hw
  obtain ⟨o, -, rfl⟩ := Option.map_eq_some_iff.mp hw
  exact Sekkeizu.accounted_start database o.1 o.2

section Step

variable [Bson doc] {database : Database}
variable {x y : Config (Finmap fun _ : UInt64 => World doc callable) (UInt64 × Event)}
variable {a : UInt64 × Call doc callable}

/-- **A step moves every queue of every owner**, and the call that moves it is the owner's. -/
theorem family_move (h : Family.Accounted database x)
    (hnext : (Family.step database).next x a = some y) {owner : UInt64} {w : World doc callable}
    (hw : x.state.lookup owner = some w) {collection : UInt8} {info : CollectionInfo doc callable}
    (hinfo : w.object.collections.lookup collection = some info) :
    ∃ w' info' call ids, y.state.lookup owner = some w' ∧
      w'.object.collections.lookup collection = some info' ∧
      (owner = a.1 ∧ call = a.2.completed x.state ∨ info' = info) ∧
      QueueMove database.isConnected call collection info (outstanding collection w.submitted)
        info' ids (outstanding collection w'.submitted) := by
  rcases next_member hnext hw with ⟨-, hsame, -⟩ | ⟨rfl, w', hw', hmove⟩
  · exact ⟨w, info, .flagDeletion, [], hsame, hinfo, Or.inr rfl, .stay⟩
  · obtain ⟨w₁, evs, hstep, heq⟩ := Step.next_eq_some.mp hmove
    obtain rfl : w' = w₁ := congrArg Config.state heq
    obtain ⟨info', hinfo', hqueue⟩ := step_move (h _ w hw).allPresent hstep hinfo
    exact ⟨w', info', _, _, hw', hinfo', Or.inl ⟨rfl, rfl⟩, hqueue⟩

/-- **An entry stays**, with its dependency, and stays done. -/
theorem entry_step (h : Family.Accounted database x)
    (hnext : (Family.step database).next x a = some y) {owner : UInt64} {collection : UInt8}
    {id : Nat} {e : TransactionInfo doc callable}
    (he : Family.entry x.state owner collection id = some e) :
    ∃ e', Family.entry y.state owner collection id = some e' ∧ e'.dependency = e.dependency ∧
      (e.done = true → e'.done = true) := by
  obtain ⟨w, info, hw, hinfo, he⟩ := entry_eq_some.mp he
  obtain ⟨w', info', call, ids, hw', hinfo', -, hmove⟩ := family_move h hnext hw hinfo
  obtain ⟨e', he', hdep, -, hdone⟩ := hmove.keeps ((h owner w hw).ledger hinfo).sound he
  exact ⟨e', entry_eq_some.mpr ⟨w', info', hw', hinfo', he'⟩, hdep, hdone⟩

/-- The same, looking back from the state after the step: no step creates a queue. -/
theorem family_move_back (h : Family.Accounted database x)
    (hnext : (Family.step database).next x a = some y) {owner : UInt64} {w' : World doc callable}
    (hw' : y.state.lookup owner = some w') {collection : UInt8}
    {info' : CollectionInfo doc callable}
    (hinfo' : w'.object.collections.lookup collection = some info') :
    ∃ w info call ids, x.state.lookup owner = some w ∧
      w.object.collections.lookup collection = some info ∧
      (owner = a.1 ∧ call = a.2.completed x.state ∨ info' = info) ∧
      QueueMove database.isConnected call collection info (outstanding collection w.submitted)
        info' ids (outstanding collection w'.submitted) := by
  obtain ⟨w, hw⟩ := member_of_next (a := a.2) (k := a.1) hnext hw'
  cases hinfo : w.object.collections.lookup collection with
  | none =>
      exfalso
      rcases next_member (a := a.2) (k := a.1) hnext hw with ⟨-, hsame, -⟩ | ⟨-, w₁, hw₁, hmove⟩
      · obtain rfl := Option.some.inj (hsame.symm.trans hw')
        exact absurd (hinfo.symm.trans hinfo') (by simp)
      · obtain rfl := Option.some.inj (hw₁.symm.trans hw')
        obtain ⟨w₂, evs, hstep, heq⟩ := Step.next_eq_some.mp hmove
        obtain rfl : w₁ = w₂ := congrArg Config.state heq
        have habsent := step_absent (h _ w hw).allPresent hstep hinfo
        exact absurd (habsent.symm.trans hinfo') (by simp)
  | some info =>
      obtain ⟨w₁, info₁, call, ids, hw₁, hinfo₁, hcall, hmove⟩ := family_move h hnext hw hinfo
      obtain rfl := Option.some.inj (hw₁.symm.trans hw')
      obtain rfl := Option.some.inj (hinfo₁.symm.trans hinfo')
      exact ⟨w, info, call, ids, hw, hinfo, hcall, hmove⟩

/-- **An entry has an origin**: it was there before, with the same dependency, or it is the next one of
its queue and, if a dependency, pushed by this very call. -/
theorem entry_origin (h : Family.Accounted database x)
    (hnext : (Family.step database).next x a = some y) {owner : UInt64} {collection : UInt8}
    {id : Nat} {e' : TransactionInfo doc callable}
    (he' : Family.entry y.state owner collection id = some e') :
    (∃ e, Family.entry x.state owner collection id = some e ∧ e'.dependency = e.dependency) ∨
    ((∀ i < id, ∃ e, Family.entry x.state owner collection i = some e) ∧
      ∀ d, e'.dependency = some d → a = (owner, .pushDependency collection d.owner d.id)) := by
  obtain ⟨w', info', hw', hinfo', he'⟩ := entry_eq_some.mp he'
  obtain ⟨w, info, call, ids, hw, hinfo, hcall, hmove⟩ := family_move_back h hnext hw' hinfo'
  have hsound := ((h owner w hw).ledger hinfo).sound
  rcases hcall with ⟨howner, rfl⟩ | rfl
  · rcases hmove.origin he' with ⟨e, he, hdep⟩ | ⟨rfl, hdep⟩
    · exact Or.inl ⟨e, entry_eq_some.mpr ⟨w, info, hw, hinfo, he⟩, hdep⟩
    · refine Or.inr ⟨fun i hi => ?_, fun d hd => ?_⟩
      · exact ⟨_, entry_eq_some.mpr ⟨w, info, hw, hinfo, hsound.lookup_eq hi⟩⟩
      · rw [howner, ← Call.completed_pushDependency.mp (hdep d hd)]
  · exact Or.inl ⟨e', entry_eq_some.mpr ⟨w, info', hw, hinfo, he'⟩, rfl⟩

/-- The same over a whole run. -/
theorem entry_run (h : Family.Accounted database x)
    {later : List (Config (Finmap fun _ : UInt64 => World doc callable) (UInt64 × Event) ×
      (UInt64 × Call doc callable))}
    (hrun : Run (Family.step database) x later y) {owner : UInt64} {collection : UInt8} {id : Nat}
    {e : TransactionInfo doc callable}
    (he : Family.entry x.state owner collection id = some e) (hdone : e.done = true) :
    ∃ e', Family.entry y.state owner collection id = some e' ∧ e'.done = true := by
  apply hrun.invariant_under (fun hy hnext => hy.step hnext)
    (fun y => ∃ e', Family.entry y.state owner collection id = some e' ∧ e'.done = true) ?_ h
    ⟨e, he, hdone⟩
  rintro y z a hy ⟨e', he', hdone'⟩ hnext
  obtain ⟨e'', he'', -, hstays⟩ := entry_step hy hnext he'
  exact ⟨e'', he'', hstays hdone'⟩

end Step

/-! ## The barrier -/

/-- **Dependencies are barriers**: an id a push has returned names an operation or a callable, every
dependency names such an id, and a dependency the scan has passed has its entry done. -/
structure Barriers (database : Database)
    (x : Config (Finmap fun _ : UInt64 => World doc callable) (UInt64 × Event)) : Prop where
  accounted : Family.Accounted database x
  returned : ∀ {owner collection id}, (owner, Event.slot collection id) ∈ x.history →
    ∃ e, Family.entry x.state owner collection id = some e ∧ e.dependency = none
  named : ∀ {owner collection slot e d}, Family.entry x.state owner collection slot = some e →
    e.dependency = some d → (d.owner, Event.slot collection d.id) ∈ x.history
  met : ∀ {owner w collection info}, x.state.lookup owner = some w →
    w.object.collections.lookup collection = some info → ∀ slot < info.firstId, ∀ e d,
    info.transactions.lookup slot = some e → e.dependency = some d →
    ∃ target, Family.entry x.state d.owner collection d.id = some target ∧ target.done = true

namespace Barriers

variable {database : Database}
variable {x y : Config (Finmap fun _ : UInt64 => World doc callable) (UInt64 × Event)}

/-- The entry a dependency names exists, and is an operation or a callable. -/
theorem target (h : Barriers database x) {owner : UInt64} {collection : UInt8} {slot : Nat}
    {e : TransactionInfo doc callable} {d : Dependency}
    (he : Family.entry x.state owner collection slot = some e) (hd : e.dependency = some d) :
    ∃ target, Family.entry x.state d.owner collection d.id = some target ∧
      target.dependency = none :=
  h.returned (h.named he hd)

variable [Bson doc]

/-- What the scan of an update is about to pass is met as well. -/
theorem met_of_consumed (h : Barriers database x) {owner : UInt64} {w : World doc callable}
    {collection : UInt8} {info : CollectionInfo doc callable} (hw : x.state.lookup owner = some w)
    (hinfo : w.object.collections.lookup collection = some info) {slot : Nat}
    (hslot : slot < info.firstId + (info.consumed (familyGetter x.state) collection).length)
    {e : TransactionInfo doc callable} {d : Dependency}
    (he : info.transactions.lookup slot = some e) (hd : e.dependency = some d) :
    ∃ target, Family.entry x.state d.owner collection d.id = some target ∧ target.done = true := by
  by_cases hpassed : slot < info.firstId
  · exact h.met hw hinfo slot hpassed e d he hd
  · have hsound := ((h.accounted owner w hw).ledger hinfo).sound
    have hmet := hsound.met_of_consumed (familyGetter x.state) collection (by omega) hslot he hd
    obtain ⟨target, htarget, -⟩ := h.target (entry_eq_some.mpr ⟨w, info, hw, hinfo, he⟩) hd
    rw [dependencyMet_family htarget] at hmet
    exact ⟨target, htarget, hmet⟩

theorem step (h : Barriers database x) {a : UInt64 × Call doc callable}
    (hnames : NamesReturnedId x a) (hnext : (Family.step database).next x a = some y) :
    Barriers database y where
  accounted := h.accounted.step hnext
  returned := by
    intro owner collection id hmem
    have hevents := mem_eventsOf.mpr hmem
    obtain ⟨k, call⟩ := a
    by_cases hold : (owner, Event.slot collection id) ∈ x.history
    · obtain ⟨e, he, hnone⟩ := h.returned hold
      obtain ⟨e', he', hdep, -⟩ := entry_step h.accounted hnext he
      exact ⟨e', he', hdep.trans hnone⟩
    · -- the event is new, so it is from the owner's own step
      obtain ⟨family, evs, hstep, rfl⟩ := Step.next_eq_some.mp hnext
      obtain ⟨w, w', evs', hlookup, hmove, rfl, rfl⟩ := familyStep_eq_some.mp hstep
      have hnew := (List.mem_append.mp hmem).resolve_left hold
      obtain ⟨ev, hev, heq⟩ := List.mem_map.mp hnew
      obtain ⟨rfl, rfl⟩ := Prod.mk.inj heq
      obtain ⟨e, he, hnone⟩ := operation_of_slot hmove hev
      refine ⟨e, ?_, hnone⟩
      simp only [Family.entry, Finmap.lookup_insert, Option.bind_some, he]
  named := by
    intro owner collection slot e' d he' hd
    have hgrows : x.history <+: y.history := by
      obtain ⟨s, evs, -, rfl⟩ := Step.next_eq_some.mp hnext
      exact List.prefix_append _ _
    rcases entry_origin h.accounted hnext he' with ⟨e, he, hdep⟩ | ⟨-, hpushed⟩
    · exact hgrows.subset (h.named he (hdep ▸ hd))
    · refine hgrows.subset (hnames collection d.owner d.id ?_)
      rw [hpushed d hd]
  met := by
    intro owner w' collection info' hw' hinfo' slot hslot e' d he' hd
    -- what is done stays done, so it is enough to find the entry done before the step
    suffices hbefore : ∃ target, Family.entry x.state d.owner collection d.id = some target ∧
        target.done = true by
      obtain ⟨target, htarget, hdone⟩ := hbefore
      obtain ⟨target', htarget', -, hstays⟩ := entry_step h.accounted hnext htarget
      exact ⟨target', htarget', hstays hdone⟩
    obtain ⟨w, info, call, ids, hw, hinfo, hcall, hmove⟩ :=
      family_move_back h.accounted hnext hw' hinfo'
    have hsound := ((h.accounted owner w hw).ledger hinfo).sound
    have hlen := hsound.consumed_length_le (familyGetter x.state) collection
    have hconsumed : slot < info.firstId +
        (info.consumed (familyGetter x.state) collection).length := by
      by_cases hpassed : slot < info.firstId
      · omega
      · -- passed by this step, which is an update of this owner
        obtain ⟨diff, order, getter, rfl, hscan⟩ := hmove.consumed_by_scan (by omega) hslot
        obtain ⟨-, hcall⟩ := hcall.resolve_right fun heq => hpassed (heq ▸ hslot)
        obtain rfl := Call.completed_update hcall.symm
        exact hscan
    have hlookup := hsound.lookup_eq (show slot < info.currentId by omega)
    obtain ⟨e₁, he₁, hdep, -⟩ := hmove.keeps hsound hlookup
    obtain rfl := Option.some.inj (he₁.symm.trans he')
    exact h.met_of_consumed hw hinfo hconsumed hlookup (hdep.symm.trans hd)

end Barriers

theorem Family.entry_start (database : Database)
    (objects : Finmap fun _ : UInt64 => UInt64 × Transaction doc callable) (owner : UInt64)
    (collection : UInt8) (id : Nat) :
    Family.entry (Family.start database objects).state owner collection id = none := by
  apply Option.eq_none_iff_forall_not_mem.mpr
  intro e he
  obtain ⟨w, info, hw, hinfo, he⟩ := entry_eq_some.mp he
  rw [Family.start, Finmap.lookup_mapVals] at hw
  obtain ⟨o, -, rfl⟩ := Option.map_eq_some_iff.mp hw
  dsimp only [World.start, Transaction.init] at hinfo
  rw [Finmap.lookup_mapVals] at hinfo
  obtain ⟨info₀, -, rfl⟩ := Option.map_eq_some_iff.mp hinfo
  simp at he

theorem barriers_start (database : Database)
    (objects : Finmap fun _ : UInt64 => UInt64 × Transaction doc callable) :
    Barriers database (Family.start database objects) where
  accounted := Family.accounted_start database objects
  returned := fun hmem => absurd hmem List.not_mem_nil
  named := by
    intro owner collection slot e d he
    rw [Family.entry_start] at he
    exact absurd he (by simp)
  met := by
    intro owner w collection info hw hinfo slot hslot e d he
    have hentry := entry_eq_some.mpr ⟨w, info, hw, hinfo, he⟩
    rw [Family.entry_start] at hentry
    exact absurd hentry (by simp)

/-- **Dependencies are barriers in every run** whose dependencies name returned ids. -/
theorem barriers_run [Bson doc] {database : Database}
    {objects : Finmap fun _ : UInt64 => UInt64 × Transaction doc callable}
    {visited : List (Config (Finmap fun _ : UInt64 => World doc callable) (UInt64 × Event) ×
      (UInt64 × Call doc callable))}
    {x : Config (Finmap fun _ : UInt64 => World doc callable) (UInt64 × Event)}
    (hrun : Run (Family.step database) (Family.start database objects) visited x)
    (hnames : Throughout NamesReturnedId visited) : Barriers database x :=
  hrun.invariant (Barriers database) NamesReturnedId
    (fun h hcall hnext => h.step hcall hnext) hnames (barriers_start database objects)

theorem mem_dispatchedTasks {history : List Event} {task : Task} :
    task ∈ dispatchedTasks history ↔ .dispatched task ∈ history := by
  induction history with
  | nil => simp [dispatchedTasks]
  | cons ev history ih =>
      cases ev with
      | dispatched other => simp [dispatchedTasks, ih]
      | _ => simp [dispatchedTasks, ih]

/-- **The barrier.** Whenever a step dispatches an entry of an owner's queue, every dependency at a
smaller slot of that queue has its entry done, already before the step, and in every state after. -/
theorem dependency_barrier [Bson doc] {database : Database}
    {objects : Finmap fun _ : UInt64 => UInt64 × Transaction doc callable}
    {visited : List (Config (Finmap fun _ : UInt64 => World doc callable) (UInt64 × Event) ×
      (UInt64 × Call doc callable))}
    {x : Config (Finmap fun _ : UInt64 => World doc callable) (UInt64 × Event)}
    (hrun : Run (Family.step database) (Family.start database objects) visited x)
    (hnames : Throughout NamesReturnedId visited) {a : UInt64 × Call doc callable}
    {family : Finmap fun _ : UInt64 => World doc callable} {evs : List (UInt64 × Event)}
    (hstep : Family.step database x.state a = some (family, evs)) {owner : UInt64} {task : Task}
    (htask : (owner, .dispatched task) ∈ evs) {id slot : Nat} (hid : id ∈ task.transactions)
    (hslot : slot < id) {e : TransactionInfo doc callable} {d : Dependency}
    (he : Family.entry x.state owner task.collection slot = some e)
    (hd : e.dependency = some d) :
    ∃ target, Family.entry x.state d.owner task.collection d.id = some target ∧
      target.done = true ∧
      ∀ later y, Run (Family.step database) x later y →
        ∃ target', Family.entry y.state d.owner task.collection d.id = some target' ∧
          target'.done = true := by
  have h := barriers_run hrun hnames
  obtain ⟨w, info, hw, hinfo, hlookup⟩ := entry_eq_some.mp he
  have hledger := (h.accounted owner w hw).ledger hinfo
  obtain ⟨k, call⟩ := a
  obtain ⟨w₀, w', evs', hw₀, hmove, rfl, rfl⟩ := familyStep_eq_some.mp hstep
  obtain ⟨ev, hev, heq⟩ := List.mem_map.mp htask
  obtain ⟨rfl, rfl⟩ := Prod.mk.inj heq
  obtain rfl := Option.some.inj (hw₀.symm.trans hw)
  obtain ⟨info', -, hqueue⟩ := step_move (h.accounted k w₀ hw).allPresent hmove hinfo
  have hsent : id ∈ dispatched task.collection evs' :=
    mem_outstanding.mpr ⟨task, mem_dispatchedTasks.mpr hev, rfl, hid⟩
  obtain ⟨diff, order, getter, hcall, hbatch⟩ := hqueue.mem_batch_of_mem hsent
  obtain rfl := Call.completed_update hcall
  obtain ⟨-, hlt, -⟩ := (hledger.sound.mem_batch _ _).mp hbatch
  obtain ⟨target, htarget, hdone⟩ := h.met_of_consumed hw hinfo (by omega) hlookup hd
  exact ⟨target, htarget, hdone, fun later y hlater =>
    entry_run h.accounted hlater htarget hdone⟩

instance (x : Config (Finmap fun _ : UInt64 => World doc callable) (UInt64 × Event))
    (a : UInt64 × Call doc callable) : Decidable (NamesReturnedId x a) :=
  match a with
  | (_, .pushDependency collection owner id) =>
    decidable_of_iff ((owner, Event.slot collection id) ∈ x.history) (by simp [NamesReturnedId])
  | (_, .pushOperation ..) => .isTrue (by simp [NamesReturnedId])
  | (_, .pushOperation₂ ..) => .isTrue (by simp [NamesReturnedId])
  | (_, .pushCallable ..) => .isTrue (by simp [NamesReturnedId])
  | (_, .update ..) => .isTrue (by simp [NamesReturnedId])
  | (_, .flagDeletion) => .isTrue (by simp [NamesReturnedId])
  | (_, .unflagDeletion) => .isTrue (by simp [NamesReturnedId])
  | (_, .runTask _) => .isTrue (by simp [NamesReturnedId])

/-- Owners 1 and 2. -/
def twoOwners : Finmap fun _ : UInt64 => UInt64 × Transaction Unit Unit :=
  let object : UInt64 × Transaction Unit Unit := (0, .blank)
  Finmap.insert 1 object (Finmap.insert 2 object ∅)

/-- Owner 1 waits for a write of owner 2, and sends its own write once that one has run. -/
theorem dependency_barrier_two_owners :
    ∃ (visited : List (Config (Finmap fun _ : UInt64 => World Unit Unit) (UInt64 × Event) ×
        (UInt64 × Call Unit Unit)))
      (x : Config (Finmap fun _ : UInt64 => World Unit Unit) (UInt64 × Event))
      (family : Finmap fun _ : UInt64 => World Unit Unit) (evs : List (UInt64 × Event)),
      Run (Family.step .single) (Family.start .single twoOwners) visited x ∧
      Throughout NamesReturnedId visited ∧
      Family.step .single x.state (1, .update 0 [0] .unknown) = some (family, evs) ∧
      (1, Event.dispatched ⟨0, false, [1]⟩) ∈ evs ∧
      ∃ target, Family.entry x.state 2 0 0 = some target ∧ target.done = true ∧
        ∀ later y, Run (Family.step .single) x later y →
          ∃ target', Family.entry y.state 2 0 0 = some target' ∧ target'.done = true := by
  obtain ⟨x, hx⟩ := Option.isSome_iff_exists.mp (show (exec (Family.step .single)
    (Family.start .single twoOwners)
    [(2, .pushOperation 0 .insert ()), (1, .pushDependency 0 2 0), (1, .pushOperation 0 .insert ()),
      (2, .update 0 [0] .unknown), (1, .update 0 [0] .unknown), (2, .runTask 0)]).isSome = true
    by decide)
  have hnames : Throughout NamesReturnedId (trace (Family.step .single)
      (Family.start .single twoOwners)
      [(2, .pushOperation 0 .insert ()), (1, .pushDependency 0 2 0), (1, .pushOperation 0 .insert ()),
        (2, .update 0 [0] .unknown), (1, .update 0 [0] .unknown), (2, .runTask 0)]) := by decide
  have hstep : ((some x).bind fun x =>
      (Family.step .single x.state (1, .update 0 [0] .unknown)).map Prod.snd) =
      some [(1, .dispatched ⟨0, false, [1]⟩), (1, .returned true)] := by
    rw [← hx]
    decide
  have hentry : ((some x).bind fun x => Family.entry x.state 1 0 0).map
      TransactionInfo.dependency = some (some ⟨2, 0⟩) := by
    rw [← hx]
    decide
  obtain ⟨⟨family, evs⟩, hupdate, hevs⟩ := Option.map_eq_some_iff.mp hstep
  obtain ⟨e, he, hd⟩ := Option.map_eq_some_iff.mp hentry
  have htask : (1, Event.dispatched ⟨0, false, [1]⟩) ∈ evs := by
    rw [show evs = _ from hevs]
    exact List.mem_cons_self
  exact ⟨_, x, family, evs, run_trace hx, hnames, hupdate, htask,
    dependency_barrier (run_trace hx) hnames hupdate htask (List.mem_singleton_self 1)
      Nat.one_pos he hd⟩

end Sekkeizu
