/-
# Sekkeizu.Database.Callables — the counter of pending callables.

`push_callable` raises `_pending_callables` and the scan lowers it for every callable it sends, whichever
way the scan ends, so the counter follows the number of callables still queued (`Counted`). It follows
modulo 256: the counter is a byte. With 256 callables queued it reads zero, and `update` finds nothing to
do until the clock runs out (`idle_with_256_callables`). The counter is right exactly as long as fewer than
256 are queued (`callables_accounted_iff`).
-/
import Sekkeizu.Database.Ledger
import Sekkeizu.Semantics.Totals


namespace Sekkeizu

open Finmap (Enumerates weight_of_lookup)
open PartialSystem

variable {doc callable : Type*}

/-! ## Sound objects -/

/-- Every queue of the object is sound. -/
def Transaction.AllSound (t : Transaction doc callable) : Prop :=
  ∀ {collection info}, t.collections.lookup collection = some info → info.Sound

theorem Transaction.AllSound.allPresent {t : Transaction doc callable} (h : t.AllSound) :
    t.AllPresent :=
  fun hlookup id hid => ((h hlookup).mem_iff id).mpr hid

variable [Bson doc]

/-! ## Queued callables -/

/-- The callables of a queue with `id >= first_id`. -/
def CollectionInfo.queuedCallables (info : CollectionInfo doc callable) : Nat :=
  info.queue.countP fun q => q.2.callable.isSome

/-- The callables queued in all collections. -/
def Transaction.queuedCallables (t : Transaction doc callable) : Nat :=
  t.collections.total fun _ info => info.queuedCallables

/-- **The counter is right**, and `update` does not idle while a callable is queued. -/
structure CallablesAccounted (t : Transaction doc callable) : Prop where
  counted : t.pendingCallables.toNat = t.queuedCallables
  served : ∀ diff, t.idles diff = true → t.queuedCallables = 0

/-- What every step keeps: the counter is right modulo 256. -/
def Counted (t : Transaction doc callable) : Prop :=
  t.pendingCallables = UInt8.ofNat t.queuedCallables

/-- **The boundary of one state.** -/
theorem Counted.accounted_iff {t : Transaction doc callable} (h : Counted t) :
    CallablesAccounted t ↔ t.queuedCallables < 256 := by
  have hmod : t.pendingCallables.toNat = t.queuedCallables % 256 := by
    rw [h, UInt8.toNat_ofNat']
  constructor
  · intro haccounted
    have hcounted := haccounted.counted
    omega
  · intro hlt
    have hcounted : t.pendingCallables.toNat = t.queuedCallables := by omega
    refine ⟨hcounted, fun diff hidles => ?_⟩
    simp only [Transaction.idles, Bool.and_eq_true, beq_iff_eq] at hidles
    rw [← hcounted, hidles.1]
    rfl

/-! ## One queue -/

section Queue

theorem entriesFrom_congr {entries entries' : Finmap fun _ : Nat => TransactionInfo doc callable}
    {first n : Nat}
    (h : ∀ id, first ≤ id → id < first + n → entries'.lookup id = entries.lookup id) :
    entriesFrom entries' first n = entriesFrom entries first n := by
  apply List.map_congr_left
  intro id hid
  obtain ⟨hlo, hhi⟩ := List.mem_range'_1.mp hid
  rw [h id hlo hhi]

theorem entriesFrom_append (entries : Finmap fun _ : Nat => TransactionInfo doc callable)
    (first m n : Nat) :
    entriesFrom entries first (m + n) =
      entriesFrom entries first m ++ entriesFrom entries (first + m) n := by
  rw [entriesFrom, entriesFrom, entriesFrom, ← List.map_append, ← List.range'_append_1]

variable {info : CollectionInfo doc callable}

/-- A push puts its entry behind the queue. -/
theorem CollectionInfo.Sound.queue_pushed (h : info.Sound)
    (write : TransactionInfo doc callable → TransactionInfo doc callable) :
    (info.pushed write).queue =
      info.queue ++ [(info.currentId, write (info.entry info.currentId))] := by
  have hfirst := h.first_le
  have hlen : info.currentId + 1 - info.firstId = (info.currentId - info.firstId) + 1 := by omega
  have hlast : info.firstId + (info.currentId - info.firstId) = info.currentId := by omega
  rw [CollectionInfo.queue, CollectionInfo.pushed, hlen, entriesFrom_append, hlast]
  congr 1
  · apply entriesFrom_congr
    intro id _ hhi
    dsimp only at hhi
    exact Finmap.lookup_insert_of_ne _ (by omega)
  · simp [entriesFrom]

theorem CollectionInfo.Sound.queuedCallables_pushed (h : info.Sound)
    (write : TransactionInfo doc callable → TransactionInfo doc callable) :
    (info.pushed write).queuedCallables = info.queuedCallables +
      if (write (info.entry info.currentId)).callable.isSome then 1 else 0 := by
  rw [CollectionInfo.queuedCallables, h.queue_pushed, List.countP_append, List.countP_singleton]
  rfl

/-- An entry of the queue is not done, and no dependency if it is a callable. -/
theorem CollectionInfo.Sound.sent_of_callable (h : info.Sound)
    {q : Nat × TransactionInfo doc callable} (hq : q ∈ info.queue)
    (hcallable : q.2.callable.isSome = true) : q.2.sent = true := by
  obtain ⟨id, hid, rfl⟩ := List.mem_map.mp hq
  obtain ⟨hlo, hhi⟩ := List.mem_range'_1.mp hid
  have hlookup := h.lookup_eq (show id < info.currentId by omega)
  rw [hlookup, Option.getD_some] at hcallable ⊢
  have hdep : (info.entry id).dependency = none := by
    by_contra hne
    rw [(h.dependency hlookup hne).2.2] at hcallable
    exact absurd hcallable (by simp)
  simp [TransactionInfo.sent, (h.fresh hlo hlookup).2, hdep]

/-- A scan takes its part off the head of the queue. -/
theorem CollectionInfo.Sound.queue_scanned (h : info.Sound) (getter : Getter doc callable)
    (collection : UInt8) :
    info.queue = info.consumed getter collection ++ (info.scanned getter collection).queue := by
  have hle := h.consumed_length_le getter collection
  have hrest : (info.scanned getter collection).queue =
      entriesFrom info.transactions (info.firstId + (info.consumed getter collection).length)
        (info.currentId - (info.firstId + (info.consumed getter collection).length)) := by
    apply entriesFrom_congr
    intro id hlo _
    rw [CollectionInfo.Sound.lookup_scanned, if_neg]
    intro hmem
    have := ((h.mem_batch getter collection).mp hmem).2.1
    have hlo : info.firstId + (info.consumed getter collection).length ≤ id := hlo
    omega
  rw [hrest]
  nth_rewrite 1 [h.consumed_eq getter collection]
  rw [← entriesFrom_append, CollectionInfo.queue]
  congr 1
  omega

/-- The scan sends every callable it takes. -/
theorem CollectionInfo.Sound.queuedCallables_scanned (h : info.Sound) (getter : Getter doc callable)
    (collection : UInt8) :
    (info.scanned getter collection).queuedCallables +
      sentCallables (info.consumed getter collection) = info.queuedCallables := by
  have hqueue := h.queue_scanned getter collection
  have hsent : sentCallables (info.consumed getter collection) =
      (info.consumed getter collection).countP fun q => q.2.callable.isSome := by
    apply List.countP_congr
    intro q hq
    have hmem : q ∈ info.queue := hqueue ▸ List.mem_append_left _ hq
    rw [Bool.and_eq_true]
    exact and_iff_right_of_imp (h.sent_of_callable hmem)
  rw [hsent, CollectionInfo.queuedCallables, CollectionInfo.queuedCallables, hqueue,
    List.countP_append, Nat.add_comm]

/-- The marks of a finished task are no callables. -/
theorem CollectionInfo.queuedCallables_finished (ids : List Nat) :
    (info.finished ids).queuedCallables = info.queuedCallables := by
  rw [CollectionInfo.queuedCallables, CollectionInfo.queuedCallables, CollectionInfo.queue,
    CollectionInfo.queue, entriesFrom, entriesFrom, List.countP_map, List.countP_map]
  apply List.countP_congr
  intro id _
  simp only [Function.comp_apply, CollectionInfo.Sound.lookup_finished]
  split_ifs
  · cases info.transactions.lookup id <;> rfl
  · rfl

end Queue

/-! ## All queues -/

theorem Transaction.AllSound.scan {t : Transaction doc callable} (h : t.AllSound)
    {collection : UInt8} {info : CollectionInfo doc callable}
    (hlookup : t.collections.lookup collection = some info) (getter : Getter doc callable) :
    (t.scan getter collection info).AllSound := by
  intro c info' hc
  rw [Transaction.scan, Finmap.lookup_insert_eq] at hc
  split_ifs at hc with heq
  · exact Option.some.inj hc ▸ (h hlookup).scanned getter collection
  · exact h hc

/-- Replacing one queue changes the total by the difference. -/
theorem queuedCallables_insert {t t' : Transaction doc callable} {collection : UInt8}
    {info info' : CollectionInfo doc callable}
    (hlookup : t.collections.lookup collection = some info)
    (h : t'.collections = t.collections.insert collection info') :
    t'.queuedCallables + info.queuedCallables = t.queuedCallables + info'.queuedCallables := by
  have htotal := Finmap.total_insert (fun _ => CollectionInfo.queuedCallables) collection info'
    t.collections
  rw [weight_of_lookup hlookup] at htotal
  rw [Transaction.queuedCallables, h]
  exact htotal

namespace Counted

/-- A scan lowers the counter by the callables it sends. -/
theorem scan {t : Transaction doc callable} (h : Counted t) {collection : UInt8}
    {info : CollectionInfo doc callable}
    (hlookup : t.collections.lookup collection = some info) (hsound : info.Sound)
    (getter : Getter doc callable) : Counted (t.scan getter collection info) := by
  have htotal : (t.scan getter collection info).queuedCallables + info.queuedCallables = _ :=
    queuedCallables_insert hlookup rfl
  have hqueue := hsound.queuedCallables_scanned getter collection
  have hsum : t.queuedCallables = (t.scan getter collection info).queuedCallables +
      sentCallables (info.consumed getter collection) := by omega
  have hcounter : t.pendingCallables = _ := h
  show t.pendingCallables - _ = _
  rw [hcounter, hsum, UInt8.ofNat_add, UInt8.add_sub_cancel]

theorem dispatch {t : Transaction doc callable} (h : Counted t) (hsound : t.AllSound)
    (getter : Getter doc callable) (order : List UInt8) : Counted (t.dispatch getter order).1 := by
  induction order generalizing t with
  | nil => exact h
  | cons first order ih =>
      cases hlookup : t.collections.lookup first with
      | none =>
          rw [dispatch_absent hlookup]
          exact ih h hsound
      | some info =>
          have hscan := h.scan hlookup (hsound hlookup) getter
          by_cases hdrained : info.firstId = info.currentId
          · rw [dispatch_drained hlookup hdrained]
            exact ih h hsound
          · by_cases hbatch : info.batch getter first = []
            · rw [dispatch_halts hsound.allPresent hlookup ⟨hdrained, hbatch⟩]
              exact hscan
            · rw [dispatch_sends hsound.allPresent hlookup hbatch]
              exact ih hscan (hsound.scan hlookup getter)

theorem update {t : Transaction doc callable} (h : Counted t) (hsound : t.AllSound) (diff : UInt64)
    (order : List UInt8) (getter : Getter doc callable) :
    Counted (t.update diff order getter).2.1 := by
  unfold Transaction.update
  split_ifs
  · exact h
  · exact h
  · have hsound' : { t with sinceLastExecution := 0 }.AllSound := hsound
    exact dispatch (t := { t with sinceLastExecution := 0 }) h hsound' getter order

/-- One more entry, and one more on the counter if it is a callable. -/
theorem pushEntry {t t' : Transaction doc callable} (h : Counted t) (hsound : t.AllSound)
    {collection : UInt8} {slot : Nat}
    {write : TransactionInfo doc callable → TransactionInfo doc callable}
    (hpush : t.pushEntry collection write = some (slot, t')) (isCallable : Bool)
    (hwrite : ∀ e, (write e).callable.isSome = isCallable) :
    Counted { t' with
      pendingCallables := t'.pendingCallables + if isCallable then 1 else 0 } := by
  unfold Transaction.pushEntry at hpush
  cases hlookup : t.collections.lookup collection with
  | none => simp [hlookup] at hpush
  | some info =>
      simp only [hlookup, Option.some.injEq, Prod.mk.injEq] at hpush
      obtain ⟨-, rfl⟩ := hpush
      have htotal : Transaction.queuedCallables { t with
          collections := t.collections.insert collection (info.pushed write) } +
            info.queuedCallables = _ := queuedCallables_insert hlookup rfl
      rw [(hsound hlookup).queuedCallables_pushed, hwrite] at htotal
      have hsum : (Transaction.queuedCallables { t with
          collections := t.collections.insert collection (info.pushed write) }) =
          t.queuedCallables + if isCallable then 1 else 0 := by omega
      have hcounter : t.pendingCallables = _ := h
      show t.pendingCallables + _ = UInt8.ofNat (Transaction.queuedCallables { t with
        collections := t.collections.insert collection (info.pushed write) })
      rw [hsum, hcounter, UInt8.ofNat_add]
      cases isCallable <;> rfl

theorem runTask {t : Transaction doc callable} (h : Counted t) (task : Task) :
    Counted (t.runTask task) := by
  have hsame : (t.runTask task).queuedCallables = t.queuedCallables := by
    apply Finmap.total_congr
    intro collection
    rw [Finmap.weight, Finmap.weight, Transaction.runTask, Finmap.lookup_modify]
    split_ifs
    · cases t.collections.lookup collection with
      | none => rfl
      | some info => exact CollectionInfo.queuedCallables_finished task.transactions
    · rfl
  rw [Counted, hsame]
  exact h

/-- **Every step keeps the counter right modulo 256.** -/
theorem step {database : Database} {w w' : World doc callable} {call : Call doc callable}
    {evs : List Event} (h : Counted w.object) (hsound : w.object.AllSound)
    (hstep : World.step database w call = some (w', evs)) : Counted w'.object := by
  have hother : ∀ {t : Transaction doc callable},
      Counted { t with pendingCallables := t.pendingCallables + 0 } → Counted t := by
    intro t ht
    rwa [UInt8.add_zero] at ht
  cases call with
  | pushOperation collection type operation =>
      obtain ⟨⟨slot, t⟩, hpush, heq⟩ := Option.map_eq_some_iff.mp hstep
      obtain ⟨rfl, -⟩ := Prod.mk.inj heq
      unfold Transaction.pushOperation at hpush
      split_ifs at hpush
      exact hother (h.pushEntry hsound hpush false fun _ => rfl)
  | pushOperation₂ collection type operation₁ operation₂ =>
      obtain ⟨⟨slot, t⟩, hpush, heq⟩ := Option.map_eq_some_iff.mp hstep
      obtain ⟨rfl, -⟩ := Prod.mk.inj heq
      unfold Transaction.pushOperation₂ at hpush
      split_ifs at hpush
      exact hother (h.pushEntry hsound hpush false fun _ => rfl)
  | pushCallable collection function =>
      obtain ⟨⟨slot, t⟩, hpush, heq⟩ := Option.map_eq_some_iff.mp hstep
      obtain ⟨rfl, -⟩ := Prod.mk.inj heq
      obtain ⟨⟨slot', t'⟩, hentry, heq'⟩ := Option.map_eq_some_iff.mp hpush
      obtain ⟨-, rfl⟩ := Prod.mk.inj heq'
      exact h.pushEntry hsound hentry true fun _ => rfl
  | pushDependency collection owner id =>
      obtain ⟨⟨slot, t⟩, hpush, heq⟩ := Option.map_eq_some_iff.mp hstep
      obtain ⟨rfl, -⟩ := Prod.mk.inj heq
      exact hother (h.pushEntry hsound hpush false fun _ => rfl)
  | update diff order getter =>
      simp only [World.step] at hstep
      split_ifs at hstep
      obtain ⟨rfl, -⟩ := Prod.mk.inj (Option.some.inj hstep)
      exact h.update hsound diff order getter
  | flagDeletion =>
      obtain ⟨rfl, -⟩ := Prod.mk.inj (Option.some.inj hstep)
      exact h
  | unflagDeletion =>
      obtain ⟨rfl, -⟩ := Prod.mk.inj (Option.some.inj hstep)
      exact h
  | runTask position =>
      simp only [World.step] at hstep
      cases htask : w.submitted[position]? with
      | none => simp [htask] at hstep
      | some task =>
          simp only [htask] at hstep
          obtain ⟨rfl, -⟩ := Prod.mk.inj (Option.some.inj hstep)
          exact h.runTask task

theorem start (database : Database) (executeEvery : UInt64) (t : Transaction doc callable) :
    Counted (World.start database executeEvery t).state.object := by
  have hnone : (World.start database executeEvery t).state.object.queuedCallables = 0 := by
    rw [Transaction.queuedCallables, World.start, Transaction.init]
    apply Finset.sum_eq_zero
    intro collection _
    rw [Finmap.weight, Finmap.lookup_mapVals]
    cases Finmap.lookup collection _ <;> rfl
  rw [Counted, hnone]
  rfl

end Counted

/-- The counter is right modulo 256 after every run. -/
theorem counted_run {database : Database} {executeEvery : UInt64} {t : Transaction doc callable}
    {visited : List (Config (World doc callable) Event × Call doc callable)}
    {x : Config (World doc callable) Event}
    (hrun : Run (World.step database) (World.start database executeEvery t) visited x) :
    Counted x.state.object := by
  apply hrun.invariant_under (fun haccounted hnext => haccounted.step hnext)
    (fun y => Counted y.state.object) ?_ (accounted_start database executeEvery t)
    (Counted.start database executeEvery t)
  intro y z call haccounted hcounted hnext
  obtain ⟨w, evs, hstep, rfl⟩ := Step.next_eq_some.mp hnext
  exact hcounted.step (fun hlookup => (haccounted.ledger hlookup).sound) hstep

/-- **When the counter is right**: after any run from `init`, exactly when fewer than 256 callables are
queued. -/
theorem callables_accounted_iff {database : Database} {executeEvery : UInt64}
    {t : Transaction doc callable}
    {visited : List (Config (World doc callable) Event × Call doc callable)}
    {x : Config (World doc callable) Event}
    (hrun : Run (World.step database) (World.start database executeEvery t) visited x) :
    CallablesAccounted x.state.object ↔ x.state.object.queuedCallables < 256 :=
  (counted_run hrun).accounted_iff

theorem pushCallable_of_lookup {t : Transaction doc callable} {collection : UInt8}
    {info : CollectionInfo doc callable} (hlookup : t.collections.lookup collection = some info)
    (function : callable) :
    ∃ (write : TransactionInfo doc callable → TransactionInfo doc callable)
      (t' : Transaction doc callable),
      t.pushCallable collection function = some (info.currentId, t') ∧
        (∀ e, (write e).callable.isSome = true) ∧
        t'.collections = t.collections.insert collection (info.pushed write) ∧
        t'.executeEvery = t.executeEvery ∧ t'.sinceLastExecution = t.sinceLastExecution := by
  let write : TransactionInfo doc callable → TransactionInfo doc callable := fun transaction =>
    { transaction with
      dependency := none
      operationOp1 := Bson.initializer
      operationOp2 := Bson.initializer
      callable := some function
      done := false
      pending := false }
  refine ⟨write, { t with
    collections := t.collections.insert collection (info.pushed write)
    pendingCallables := t.pendingCallables + 1 }, ?_, fun _ => rfl, rfl, rfl, rfl⟩
  unfold Transaction.pushCallable Transaction.pushEntry
  rw [hlookup]
  rfl

/-- Any number of callables can be queued, within one tick. -/
theorem run_pushCallable (executeEvery : UInt64) (n : Nat) :
    ∃ (visited : List (Config (World Unit Unit) Event × Call Unit Unit))
      (x : Config (World Unit Unit) Event) (info : CollectionInfo Unit Unit),
      Run (World.step .single) (World.start .single executeEvery .blank) visited x ∧
        x.state.object.collections.lookup 0 = some info ∧
        x.state.object.queuedCallables = n ∧
        x.state.object.executeEvery = executeEvery ∧ x.state.object.sinceLastExecution = 0 := by
  induction n with
  | zero => exact ⟨[], _, .new, .start, rfl, rfl, rfl, rfl⟩
  | succ n ih =>
      obtain ⟨visited, x, info, hrun, hinfo, hqueued, hevery, hsince⟩ := ih
      have hsound := ((accounted_run hrun).ledger hinfo).sound
      obtain ⟨write, t, hpush, hwrite, hcollections, hevery', hsince'⟩ :=
        pushCallable_of_lookup hinfo ()
      have hnext : (World.step .single).next x (.pushCallable 0 ()) =
          some ⟨{ x.state with object := t }, x.history ++ [.slot 0 info.currentId]⟩ := by
        refine Step.next_eq_some.mpr ⟨_, _, ?_, rfl⟩
        rw [World.step, hpush]
        rfl
      have hone : t.queuedCallables = n + 1 := by
        have htotal := queuedCallables_insert hinfo hcollections
        rw [hsound.queuedCallables_pushed, hwrite, if_pos rfl] at htotal
        omega
      refine ⟨_, _, info.pushed write, hrun.snoc hnext, ?_, hone, hevery'.trans hevery,
        hsince'.trans hsince⟩
      rw [hcollections]
      exact Finmap.lookup_insert _

/-- With 256 callables queued the counter reads zero, and an `update` within the execution interval finds
nothing to do. -/
theorem idle_with_256_callables :
    ∃ (visited : List (Config (World Unit Unit) Event × Call Unit Unit))
      (x : Config (World Unit Unit) Event),
      Run (World.step .single) (World.start .single 1000 .blank) visited x ∧
        x.state.object.queuedCallables = 256 ∧ x.state.object.idles 16 = true ∧
        ¬ CallablesAccounted x.state.object := by
  obtain ⟨visited, x, info, hrun, -, hqueued, hevery, hsince⟩ := run_pushCallable 1000 256
  have hcounter : x.state.object.pendingCallables = 0 := by
    have hcounted : x.state.object.pendingCallables = _ := counted_run hrun
    rw [hcounted, hqueued]
    rfl
  have hidles : x.state.object.idles 16 = true := by
    rw [Transaction.idles, hcounter, hevery, hsince]
    decide
  refine ⟨visited, x, hrun, hqueued, hidles, fun haccounted => ?_⟩
  have hnone := haccounted.served 16 hidles
  omega

/-- One callable behind a write. -/
theorem callables_accounted_iff_one_callable :
    ∃ (visited : List (Config (World Unit Unit) Event × Call Unit Unit))
      (x : Config (World Unit Unit) Event),
      visited.map Prod.snd = [.pushOperation 0 .insert (), .pushCallable 0 ()] ∧
      Run (World.step .single) (World.start .single 1000 .blank) visited x ∧
      (CallablesAccounted x.state.object ↔ x.state.object.queuedCallables < 256) := by
  obtain ⟨x, hx⟩ := Option.isSome_iff_exists.mp (show (exec (World.step .single)
    (World.start .single 1000 (Transaction.blank : Transaction Unit Unit))
    [.pushOperation 0 .insert (), .pushCallable 0 ()]).isSome = true by decide)
  obtain ⟨visited, hrun, hacts⟩ := run_of_exec hx
  exact ⟨visited, x, hacts, hrun, callables_accounted_iff hrun⟩

end Sekkeizu
