/-
# Sekkeizu.Database.Outages — what becomes of operations handed over without a connection.

While there is no connection `execute` drops what it is handed, without telling the caller: `update` has by then
marked the entries pending and moved past them. It does so in a build without `NDEBUG`, which is the one modelled
here. `database::init` can be called again at any time.

The stamps of the events split the ids handed over in two lists. `Books` is the invariant of one queue against
them: an entry is done exactly when it was handed over under a connection and its task has run. An entry of the
other list is never done and never handed over again, and what depends on it waits for ever
(`outage_is_for_ever`).

No object is destroyed in these runs. Where the owner of a dropped entry is destroyed, the getter no longer knows
it, and what waited for the entry is let through.
-/
import Sekkeizu.Database.Deployment


namespace Sekkeizu

open PartialSystem

variable {doc callable : Type*}

/-- The ids of an owner's queue that were handed over with a connection, or without one. -/
def dispatchedWhile (connected : Bool) (owner : UInt64) (collection : UInt8)
    (history : List (UInt64 × Bool × Event)) : List Nat :=
  dispatched collection (eventsOf connected (eventsOf owner history))

/-! ## One queue -/

/-- **The books of one queue across outages**: what was handed over, what of it reached the pool and what
was dropped. -/
structure Books (info : CollectionInfo doc callable) (sent kept lost outstanding : List Nat) :
    Prop where
  sound : info.Sound
  sent_eq : sent = info.operationsBelow info.firstId
  perm : sent.Perm (kept ++ lost)
  sublist : outstanding.Sublist kept
  done_iff : ∀ id, info.isDone id = true ↔ id ∈ kept ∧ id ∉ outstanding

namespace Books

variable {info : CollectionInfo doc callable} {sent kept lost outstanding : List Nat}

/-- No id is handed over twice. -/
theorem nodup (h : Books info sent kept lost outstanding) : (kept ++ lost).Nodup := by
  have hpairwise : sent.Pairwise (· < ·) := h.sent_eq ▸ info.operationsBelow_pairwise _
  exact h.perm.nodup_iff.mp (hpairwise.imp fun hlt => Nat.ne_of_lt hlt)

theorem lt_first (h : Books info sent kept lost outstanding) {id : Nat} (hid : id ∈ kept ++ lost) :
    id < info.firstId := by
  have hmem : id ∈ info.operationsBelow info.firstId := h.sent_eq ▸ h.perm.mem_iff.mpr hid
  exact (CollectionInfo.mem_operationsBelow.mp hmem).1

/-- A task that has run marks its entries done, whatever the connection is by then. -/
theorem finish {before ids after : List Nat}
    (h : Books info sent kept lost (before ++ ids ++ after)) :
    Books (info.finished ids) sent kept lost (before ++ after) where
  sound := by
    apply h.sound.finished
    intro id hid
    have hkept : id ∈ kept := h.sublist.subset (by simp [hid])
    exact h.sent_eq ▸ h.perm.mem_iff.mpr (List.mem_append_left lost hkept)
  sent_eq := by
    rw [h.sent_eq]
    exact (CollectionInfo.Sound.operationsBelow_finished ids _).symm
  perm := h.perm
  sublist := by
    refine List.Sublist.trans ?_ h.sublist
    exact List.Sublist.append (List.sublist_append_left _ _) (List.Sublist.refl _)
  done_iff := by
    intro id
    have hkept : ∀ id ∈ before ++ ids ++ after, id ∈ kept := fun id hid => h.sublist.subset hid
    have hnodup : (before ++ ids ++ after).Nodup :=
      ((List.nodup_append.mp h.nodup).1).sublist h.sublist
    rw [List.nodup_append, List.nodup_append] at hnodup
    obtain ⟨⟨-, -, hbefore⟩, -, hafter⟩ := hnodup
    by_cases hmem : id ∈ info.transactions
    · rw [isDone_finished info ids hmem, h.done_iff id]
      simp only [List.mem_append, not_or]
      constructor
      · rintro (⟨hin, ⟨hb, -⟩, ha⟩ | hids)
        · exact ⟨hin, hb, ha⟩
        · refine ⟨hkept id (by simp [hids]), fun hb => hbefore id hb id hids rfl, fun ha => ?_⟩
          exact hafter id (List.mem_append_right before hids) id ha rfl
      · rintro ⟨hin, hb, ha⟩
        by_cases hids : id ∈ ids
        · exact Or.inr hids
        · exact Or.inl ⟨hin, ⟨hb, hids⟩, ha⟩
    · -- no entry: not done, and never handed over
      have hnone : info.transactions.lookup id = none := Finmap.lookup_eq_none.mpr hmem
      have hnot : (info.finished ids).isDone id = false := by
        unfold CollectionInfo.isDone
        rw [CollectionInfo.Sound.lookup_finished]
        simp [hnone]
      rw [hnot]
      refine iff_of_false Bool.false_ne_true fun hin => hmem ?_
      rw [h.sound.mem_iff]
      exact Nat.lt_of_lt_of_le (h.lt_first (List.mem_append_left lost hin.1)) h.sound.first_le

variable [Bson doc]

/-- What was dropped is there, and is not done. -/
theorem not_done_of_lost (h : Books info sent kept lost outstanding) {id : Nat} (hid : id ∈ lost) :
    ∃ e, info.transactions.lookup id = some e ∧ e.done = false := by
  have hlt := h.lt_first (List.mem_append_right kept hid)
  have hlookup := h.sound.lookup_eq (Nat.lt_of_lt_of_le hlt h.sound.first_le)
  refine ⟨_, hlookup, ?_⟩
  have hnot : ¬ info.isDone id = true := by
    intro hdone
    have hkept := ((h.done_iff id).mp hdone).1
    exact (List.nodup_append.mp h.nodup).2.2 id hkept id hid rfl
  simpa only [CollectionInfo.isDone, hlookup, Bool.not_eq_true] using hnot

/-- A scan hands over the next operations. The pool gets them only with a connection. -/
theorem scan (h : Books info sent kept lost outstanding) (connected : Bool)
    (getter : Getter doc callable) (collection : UInt8) :
    Books (info.scanned getter collection) (sent ++ info.batch getter collection)
      (kept ++ if connected then info.batch getter collection else [])
      (lost ++ if connected then [] else info.batch getter collection)
      (if connected then outstanding ++ info.batch getter collection else outstanding) where
  sound := h.sound.scanned getter collection
  sent_eq := by rw [h.sound.operationsBelow_scanned, h.sent_eq]
  perm := by
    have happend := h.perm.append_right (info.batch getter collection)
    cases connected with
    | true =>
        simp only [if_true, List.append_nil]
        refine happend.trans ?_
        rw [List.append_assoc, List.append_assoc]
        exact List.perm_append_comm.append_left kept
    | false => simpa using happend
  sublist := by
    cases connected with
    | true => exact h.sublist.append (List.Sublist.refl _)
    | false => simpa using h.sublist
  done_iff := by
    intro id
    rw [isDone_scanned, h.done_iff id]
    cases connected with
    | false => simp
    | true =>
        -- what the scan takes was not handed over before, and is outstanding now
        simp only [if_true, List.mem_append, not_or]
        constructor
        · rintro ⟨hkept, hout⟩
          refine ⟨Or.inl hkept, hout, fun hnew => ?_⟩
          have hold := h.lt_first (List.mem_append_left lost hkept)
          have hle := ((h.sound.mem_batch getter collection).mp hnew).1
          omega
        · rintro ⟨hkept | hnew, hout, hnot⟩
          · exact ⟨hkept, hout⟩
          · exact absurd hnew hnot

/-- **Every move keeps the books.** -/
theorem move (h : Books info sent kept lost outstanding) {connected : Bool}
    {call : Call doc callable} {collection : UInt8} {info' : CollectionInfo doc callable}
    {ids outstanding' : List Nat}
    (hmove : QueueMove connected call collection info outstanding info' ids outstanding') :
    Books info' (sent ++ ids) (kept ++ if connected then ids else [])
      (lost ++ if connected then [] else ids) outstanding' := by
  cases hmove with
  | stay => simpa using h
  | push write hwrite =>
      simp only [ite_self, List.append_nil]
      refine ⟨h.sound.pushed hwrite.fresh hwrite.callable, ?_, h.perm, h.sublist, fun id => ?_⟩
      · exact h.sent_eq.trans h.sound.operationsBelow_pushed.symm
      · rw [isDone_pushed hwrite.fresh h.sound]
        exact h.done_iff id
  | scan diff order getter hcall => exact h.scan connected getter collection
  | finish position before ids after hcall hout =>
      subst hout
      simpa using h.finish

end Books

/-! ## Every queue of every owner -/

/-- The books of every queue of one object. -/
def World.Booked (x : Config (World doc callable) (Bool × Event)) : Prop :=
  ∀ collection info, x.state.object.collections.lookup collection = some info →
    Books info (dispatched collection (x.history.map Prod.snd))
      (dispatched collection (eventsOf true x.history))
      (dispatched collection (eventsOf false x.history)) (outstanding collection x.state.submitted)

theorem World.Booked.allPresent {x : Config (World doc callable) (Bool × Event)}
    (h : World.Booked x) : x.state.object.AllPresent :=
  fun hlookup id hid => ((h _ _ hlookup).sound.mem_iff id).mpr hid

/-- The stamp of a step sends its events into one of the two lists. -/
theorem eventsOf_stamped (connected at_ : Bool) (evs : List Event) :
    eventsOf connected (evs.map fun ev => (at_, ev)) = if connected = at_ then evs else [] := by
  split_ifs with heq
  · rw [heq, eventsOf_self]
  · exact eventsOf_ne (Ne.symm heq) evs

theorem World.Booked.step [Bson doc] {database : Database} {x y : Config (World doc callable) (Bool × Event)}
    {a : Bool × Call doc callable} (h : World.Booked x)
    (hnext : (World.stampedStep database).next x a = some y) : World.Booked y := by
  obtain ⟨w, evs, hstep, rfl⟩ := Step.next_eq_some.mp hnext
  obtain ⟨plain, hplain, rfl⟩ := stampedStep_eq_some.mp hstep
  intro collection info' hinfo'
  cases hinfo : x.state.object.collections.lookup collection with
  | none =>
      have habsent := step_absent h.allPresent hplain hinfo
      exact absurd (habsent.symm.trans hinfo') (by simp)
  | some info =>
      obtain ⟨info'', hinfo'', hmove⟩ := step_move h.allPresent hplain hinfo
      obtain rfl := Option.some.inj (hinfo''.symm.trans hinfo')
      have hbooks := (h collection info hinfo).move hmove
      have hplain_eq : (plain.map fun ev => (a.1, ev)).map Prod.snd = plain := by simp
      simp only [List.map_append, hplain_eq, eventsOf_append, eventsOf_stamped, dispatched_append]
      cases hconn : a.1 with
      | true => simpa [hconn, dispatched, dispatchedTasks, outstanding] using hbooks
      | false => simpa [hconn, dispatched, dispatchedTasks, outstanding] using hbooks

theorem World.booked_start (database : Database) (executeEvery : UInt64)
    (object : Transaction doc callable) :
    World.Booked ⟨(World.start database executeEvery object).state, []⟩ := by
  intro collection info hinfo
  -- an object starts the same on any database, so also on one that is not connected
  have hledger := (accounted_start { database with isConnected := false } executeEvery object).ledger hinfo
  refine ⟨hledger.sound, hledger.sent_eq, List.Perm.refl _, List.Sublist.refl _, fun id => ?_⟩
  rw [hledger.offline rfl id]
  exact iff_of_false Bool.false_ne_true fun hin => absurd hin.1 List.not_mem_nil

namespace Deployment

/-- **The books of every owner.** An owner without an object has no history. -/
structure Booked (x : Config (Deployment doc callable) (UInt64 × Bool × Event)) : Prop where
  present : ∀ owner w, x.state.family.lookup owner = some w →
    World.Booked (memberConfig (view x) owner w)
  absent : ∀ owner, x.state.family.lookup owner = none → eventsOf owner x.history = []

variable {x y : Config (Deployment doc callable) (UInt64 × Bool × Event)}
variable {a : Deployment.Action doc callable}

theorem Booked.create (h : Booked x) {owner executeEvery : UInt64} {object : Transaction doc callable}
    (hnone : x.state.family.lookup owner = none) :
    Booked ⟨⟨x.state.database, x.state.family.insert owner
      (World.start x.state.database executeEvery object).state⟩, x.history⟩ where
  present := by
    intro other w hw
    by_cases heq : other = owner
    · subst heq
      rw [Finmap.lookup_insert] at hw
      obtain rfl := Option.some.inj hw
      have hstart := World.booked_start x.state.database executeEvery object
      rwa [← h.absent other hnone] at hstart
    · exact h.present other w ((Finmap.lookup_insert_of_ne _ heq).symm.trans hw)
  absent := by
    intro other hother
    apply h.absent other
    by_cases heq : other = owner
    · exact heq ▸ hnone
    · exact (Finmap.lookup_insert_of_ne _ heq).symm.trans hother

theorem booked_start (database : Database) :
    Booked (Deployment.start database : Config (Deployment doc callable) _) where
  present := by
    intro owner w hw
    exact absurd hw (by simp [Deployment.start])
  absent := fun _ _ => rfl

variable [Bson doc]

theorem Booked.step (h : Booked x) (hnext : Deployment.step.next x a = some y) : Booked y := by
  rcases view_next hnext with hsame | ⟨owner, executeEvery, object, -, hnone, rfl⟩ |
    ⟨owner, call, -, hfamily⟩
  · have hstate : y.state.family = x.state.family := congrArg Config.state hsame
    refine ⟨fun owner w hw => ?_, fun owner hnone => ?_⟩
    · rw [hsame]
      exact h.present owner w (hstate ▸ hw)
    · show eventsOf owner (view y).history = []
      rw [hsame]
      exact h.absent owner (hstate ▸ hnone)
  · exact h.create hnone
  · refine ⟨member_step (x := view x) (y := view y) (fun hy hstep => hy.step hstep) h.present hfamily,
      fun other hnone => ?_⟩
    obtain ⟨hbefore, hevents⟩ := absent_of_next (x := view x) (y := view y) hfamily hnone
    exact hevents.trans (h.absent other hbefore)

/-- **A step moves every queue of every owner**; if the queue is not left alone, the call is the owner's,
with the getter of the family. -/
theorem step_queue (h : Booked x) (hnext : Deployment.step.next x a = some y) {owner : UInt64}
    {w : World doc callable} (hw : x.state.family.lookup owner = some w) {collection : UInt8}
    {info : CollectionInfo doc callable}
    (hinfo : w.object.collections.lookup collection = some info) :
    ∃ w' info' connected call ids, y.state.family.lookup owner = some w' ∧
      w'.object.collections.lookup collection = some info' ∧
      (a = .call owner call ∨ info' = info) ∧
      QueueMove connected (call.completed x.state.family) collection info
        (outstanding collection w.submitted) info' ids (outstanding collection w'.submitted) := by
  rcases view_next hnext with hsame | ⟨k, executeEvery, object, -, hnone, rfl⟩ | ⟨k, call, rfl, hfamily⟩
  · have hsame : y.state.family = x.state.family := congrArg Config.state hsame
    exact ⟨w, info, true, .flagDeletion, [], hsame ▸ hw, hinfo, Or.inr rfl, .stay⟩
  · have hne : owner ≠ k := by
      rintro rfl
      exact absurd (hnone.symm.trans hw) (by simp)
    exact ⟨w, info, true, .flagDeletion, [], (Finmap.lookup_insert_of_ne _ hne).trans hw, hinfo,
      Or.inr rfl, .stay⟩
  · rcases next_member hfamily hw with ⟨-, hsame, -⟩ | ⟨rfl, w', hw', hmove⟩
    · exact ⟨w, info, true, .flagDeletion, [], hsame, hinfo, Or.inr rfl, .stay⟩
    · obtain ⟨w₁, evs, hstep, heq⟩ := Step.next_eq_some.mp hmove
      obtain rfl : w' = w₁ := congrArg Config.state heq
      obtain ⟨plain, hplain, -⟩ := stampedStep_eq_some.mp hstep
      obtain ⟨info', hinfo', hqueue⟩ := step_move (h.present _ w hw).allPresent hplain hinfo
      exact ⟨w', info', _, call, _, hw', hinfo', Or.inl rfl, hqueue⟩

/-- The entry has been dropped: handed over while there was no connection. -/
def Lost (owner : UInt64) (collection : UInt8) (id : Nat)
    (x : Config (Deployment doc callable) (UInt64 × Bool × Event)) : Prop :=
  id ∈ dispatchedWhile false owner collection x.history ∧
    ∃ w info, x.state.family.lookup owner = some w ∧
      w.object.collections.lookup collection = some info

theorem Lost.entry (h : Booked x) {owner : UInt64} {collection : UInt8} {id : Nat}
    (hlost : Lost owner collection id x) :
    ∃ e, Family.entry x.state.family owner collection id = some e ∧ e.done = false := by
  obtain ⟨hmem, w, info, hw, hinfo⟩ := hlost
  obtain ⟨e, he, hdone⟩ := (h.present owner w hw collection info hinfo).not_done_of_lost hmem
  exact ⟨e, entry_eq_some.mpr ⟨w, info, hw, hinfo, he⟩, hdone⟩

theorem Lost.step (h : Booked x) (hnext : Deployment.step.next x a = some y) {owner : UInt64}
    {collection : UInt8} {id : Nat} (hlost : Lost owner collection id x) :
    Lost owner collection id y := by
  obtain ⟨hmem, w, info, hw, hinfo⟩ := hlost
  obtain ⟨w', info', -, -, -, hw', hinfo', -, -⟩ := step_queue h hnext hw hinfo
  obtain ⟨d, evs, -, rfl⟩ := Step.next_eq_some.mp hnext
  refine ⟨?_, w', info', hw', hinfo'⟩
  simp only [dispatchedWhile, eventsOf_append, dispatched_append, List.mem_append]
  exact Or.inl hmem

/-- Slot `slot` of a queue depends on an owner's entry, and the scan has not passed it. -/
def Waits (waiting : UInt64) (collection : UInt8) (slot : Nat) (owner : UInt64) (id : Nat)
    (x : Config (Deployment doc callable) (UInt64 × Bool × Event)) : Prop :=
  ∃ w info e, x.state.family.lookup waiting = some w ∧
    w.object.collections.lookup collection = some info ∧ info.firstId ≤ slot ∧
    info.transactions.lookup slot = some e ∧ e.dependency = some ⟨owner, id⟩

/-- **What waits for a dropped entry goes on waiting.** -/
theorem Waits.step (h : Booked x) (hnext : Deployment.step.next x a = some y)
    {waiting owner : UInt64} {collection : UInt8} {slot id : Nat}
    (hlost : Lost owner collection id x) (hwaits : Waits waiting collection slot owner id x) :
    Waits waiting collection slot owner id y := by
  obtain ⟨w, info, e, hw, hinfo, hfirst, he, hdep⟩ := hwaits
  obtain ⟨w', info', connected, call, ids, hw', hinfo', hcall, hmove⟩ := step_queue h hnext hw hinfo
  have hsound := (h.present waiting w hw collection info hinfo).sound
  obtain ⟨e', he', hdep', -, -⟩ := hmove.keeps hsound he
  refine ⟨w', info', e', hw', hinfo', ?_, he', hdep'.trans hdep⟩
  by_contra hpassed
  -- only a scan could have passed the slot, and it asks the family for the entry
  obtain ⟨diff, order, getter, hupdate, hconsumed⟩ := hmove.consumed_by_scan hfirst (by omega)
  obtain rfl := Call.completed_update hupdate
  have hmet := hsound.met_of_consumed (familyGetter x.state.family) collection hfirst hconsumed he hdep
  obtain ⟨target, htarget, hdone⟩ := hlost.entry h
  have hsame : dependencyMet (familyGetter x.state.family) collection slot ⟨owner, id⟩ = target.done :=
    dependencyMet_family htarget
  rw [hmet, hdone] at hsame
  exact absurd hsame (by simp)

theorem booked_run {database : Database}
    {visited : List (Config (Deployment doc callable) (UInt64 × Bool × Event) ×
      Deployment.Action doc callable)}
    (hrun : Run Deployment.step (Deployment.start database) visited x) : Booked x :=
  hrun.invariant' Booked (fun h hnext => h.step hnext) (booked_start database)

end Deployment

/-- **An outage is for ever**, while no object is destroyed. After every run, `init`s and new objects included,
what a queue has handed over is what it handed over with a connection and what without, each operation once; an
entry is done exactly when it is of the first kind and its task has run. What is of the second kind is not done
at the end of any run from there, whatever `init` does, and every dependency that waits for it then waits
still. -/
theorem outage_is_for_ever [Bson doc] {database : Database}
    {visited : List (Config (Deployment doc callable) (UInt64 × Bool × Event) ×
      Deployment.Action doc callable)}
    {x : Config (Deployment doc callable) (UInt64 × Bool × Event)}
    (hrun : Run Deployment.step (Deployment.start database) visited x) {owner : UInt64}
    {w : World doc callable} (hw : x.state.family.lookup owner = some w) {collection : UInt8}
    {info : CollectionInfo doc callable}
    (hinfo : w.object.collections.lookup collection = some info) :
    (info.operationsBelow info.firstId).Perm
        (dispatchedWhile true owner collection x.history ++
          dispatchedWhile false owner collection x.history) ∧
      (∀ id, info.isDone id = true ↔
        id ∈ dispatchedWhile true owner collection x.history ∧
          id ∉ outstanding collection w.submitted) ∧
      ∀ id ∈ dispatchedWhile false owner collection x.history, ∀ later y,
        Run Deployment.step x later y →
        (∃ e, Family.entry y.state.family owner collection id = some e ∧ e.done = false) ∧
          ∀ waiting slot, Deployment.Waits waiting collection slot owner id x →
            Deployment.Waits waiting collection slot owner id y := by
  have hbooked := Deployment.booked_run hrun
  have hbooks := hbooked.present owner w hw collection info hinfo
  refine ⟨hbooks.sent_eq ▸ hbooks.perm, hbooks.done_iff, fun id hid later y hlater => ?_⟩
  have hlost : Deployment.Lost owner collection id x := ⟨hid, w, info, hw, hinfo⟩
  have hkeep : ∀ {y z : Config (Deployment doc callable) (UInt64 × Bool × Event)} {a},
      Deployment.Booked y ∧ Deployment.Lost owner collection id y →
        Deployment.step.next y a = some z →
        Deployment.Booked z ∧ Deployment.Lost owner collection id z :=
    fun h hnext => ⟨h.1.step hnext, h.2.step h.1 hnext⟩
  obtain ⟨hbooked', hlost'⟩ := hlater.invariant' _ hkeep ⟨hbooked, hlost⟩
  refine ⟨hlost'.entry hbooked', fun waiting slot hwaits => ?_⟩
  exact hlater.invariant_under hkeep (Deployment.Waits waiting collection slot owner id)
    (fun h hwaits hnext => hwaits.step h.1 hnext h.2) ⟨hbooked, hlost⟩ hwaits

/-- A write sent before the ping is answered, and another owner that then waits for it. -/
def lateInit : List (Deployment.Action Unit Unit) :=
  [.create 1 0 .blank, .create 2 0 .blank, .call 2 (.pushOperation 0 .insert ()),
    .call 2 (.update 0 [0] .unknown), .init true true, .call 1 (.pushDependency 0 2 0),
    .call 1 (.pushOperation 0 .insert ()), .call 2 (.pushOperation 0 .insert ()),
    .call 2 (.update 0 [0] .unknown), .call 1 (.update 0 [0] .unknown), .call 2 (.runTask 0)]

theorem outage_is_for_ever_late_init :
    ∃ (visited : List (Config (Deployment Unit Unit) (UInt64 × Bool × Event) ×
        Deployment.Action Unit Unit))
      (x : Config (Deployment Unit Unit) (UInt64 × Bool × Event)),
      Run Deployment.step (Deployment.start { Database.single with isConnected := false }) visited x ∧
      x.state.database.isConnected = true ∧
      dispatchedWhile false 2 0 x.history = [0] ∧ dispatchedWhile true 2 0 x.history = [1] ∧
      ∀ later y, Run Deployment.step x later y →
        (∃ e, Family.entry y.state.family 2 0 0 = some e ∧ e.done = false) ∧
          Deployment.Waits 1 0 0 2 0 y := by
  obtain ⟨x, hx⟩ := Option.isSome_iff_exists.mp (show (exec Deployment.step
    (Deployment.start { Database.single with isConnected := false }) lateInit).isSome = true by decide)
  have hfacts : (some x).map (fun x => (x.state.database.isConnected,
      dispatchedWhile false 2 0 x.history, dispatchedWhile true 2 0 x.history)) =
      some (true, [0], [1]) := by
    rw [← hx]
    decide
  have hqueue : ((some x).bind fun x => (x.state.family.lookup 2).bind fun w =>
      w.object.collections.lookup 0).isSome = true := by
    rw [← hx]
    decide
  have hdependency : ((some x).bind fun x => (x.state.family.lookup 1).bind fun w =>
      (w.object.collections.lookup 0).bind fun info => (info.transactions.lookup 0).map fun e =>
        (info.firstId, e.dependency)) = some (0, some ⟨2, 0⟩) := by
    rw [← hx]
    decide
  simp only [Option.map_some, Option.some.injEq, Prod.mk.injEq] at hfacts
  obtain ⟨hconnected, hlost, hkept⟩ := hfacts
  obtain ⟨info, hinfo⟩ := Option.isSome_iff_exists.mp hqueue
  rw [Option.bind_some] at hinfo hdependency
  obtain ⟨w, hw, hinfo⟩ := Option.bind_eq_some_iff.mp hinfo
  obtain ⟨u, hu, hdependency⟩ := Option.bind_eq_some_iff.mp hdependency
  obtain ⟨queue, hqueue, hdependency⟩ := Option.bind_eq_some_iff.mp hdependency
  obtain ⟨e, he, hpair⟩ := Option.map_eq_some_iff.mp hdependency
  obtain ⟨hfirst, hdep⟩ := Prod.mk.inj hpair
  have hwaits : Deployment.Waits 1 0 0 2 0 x :=
    ⟨u, queue, e, hu, hqueue, Nat.le_of_eq hfirst, he, hdep⟩
  refine ⟨_, x, run_trace hx, hconnected, hlost, hkept, fun later y hlater => ?_⟩
  obtain ⟨-, -, hforever⟩ := outage_is_for_ever (run_trace hx) hw hinfo
  obtain ⟨hentry, hstill⟩ := hforever 0 (hlost ▸ List.mem_singleton_self 0) later y hlater
  exact ⟨hentry, hstill 1 0 hwaits⟩

end Sekkeizu
