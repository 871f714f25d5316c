/-
# Sekkeizu.Database.Progress — owners that wait for each other do not wait forever.

Once every submitted task has run, some queue can move, whatever waits for what: dependencies name
entries that were pushed earlier, so of all undrained queues of one collection the one whose head was
pushed first has nothing undone to wait for (`ready_of_oldest`). The dispatch loop also has to get to
that collection, so the collection is the first in the common iteration order that any owner has not
drained.

`Ranked` is the order of pushing, kept beside the run: no object records it.
-/
import Sekkeizu.Database.Dispatch
import Sekkeizu.Database.Family
import Sekkeizu.Database.Independence


namespace Sekkeizu

open Finmap (Enumerates)
open PartialSystem

variable {doc callable : Type*} [Bson doc]

/-! ## The order of pushing -/

/-- **A ranking of the entries by age**: later entries of a queue rank higher, and so does a dependency
above the entry it names. -/
structure Ranked (family : Finmap fun _ : UInt64 => World doc callable)
    (rank : UInt64 → UInt8 → Nat → Nat) (bound : Nat) : Prop where
  below : ∀ {owner collection id e}, Family.entry family owner collection id = some e →
    rank owner collection id < bound
  increasing : ∀ {owner collection i j e}, Family.entry family owner collection j = some e →
    i < j → rank owner collection i < rank owner collection j
  older : ∀ {owner collection slot e d}, Family.entry family owner collection slot = some e →
    e.dependency = some d → rank d.owner collection d.id < rank owner collection slot

/-- A queue has no gaps. -/
theorem entry_below {database : Database}
    {x : Config (Finmap fun _ : UInt64 => World doc callable) (UInt64 × Event)}
    (h : Family.Accounted database x) {owner : UInt64} {collection : UInt8} {i j : Nat}
    {e : TransactionInfo doc callable}
    (he : Family.entry x.state owner collection j = some e) (hij : i < j) :
    ∃ e', Family.entry x.state owner collection i = some e' := by
  obtain ⟨w, info, hw, hinfo, he⟩ := entry_eq_some.mp he
  have hsound := ((h owner w hw).ledger hinfo).sound
  have hlt := hsound.lt_of_lookup he
  exact ⟨_, entry_eq_some.mpr ⟨w, info, hw, hinfo, hsound.lookup_eq (Nat.lt_trans hij hlt)⟩⟩

/-- What a step pushes ranks above everything that was there. -/
theorem Ranked.step {database : Database}
    {x y : Config (Finmap fun _ : UInt64 => World doc callable) (UInt64 × Event)}
    {rank : UInt64 → UInt8 → Nat → Nat} {bound : Nat} (hranked : Ranked x.state rank bound)
    (h : Barriers database x) {a : UInt64 × Call doc callable} (hnames : NamesReturnedId x a)
    (hnext : (Family.step database).next x a = some y) :
    ∃ rank' bound', Ranked y.state rank' bound' := by
  classical
  let rank' : UInt64 → UInt8 → Nat → Nat := fun owner collection id =>
    if ∃ e, Family.entry x.state owner collection id = some e then rank owner collection id
    else bound
  have hold : ∀ {owner collection id e}, Family.entry x.state owner collection id = some e →
      rank' owner collection id = rank owner collection id := fun he => if_pos ⟨_, he⟩
  have hnew : ∀ {owner collection id},
      (¬ ∃ e, Family.entry x.state owner collection id = some e) →
        rank' owner collection id = bound := fun hnone => if_neg hnone
  refine ⟨rank', bound + 1, ?_, ?_, ?_⟩
  · intro owner collection id e' _
    by_cases hin : ∃ e, Family.entry x.state owner collection id = some e
    · obtain ⟨e, he⟩ := hin
      rw [hold he]
      exact Nat.lt_succ_of_lt (hranked.below he)
    · rw [hnew hin]
      exact Nat.lt_succ_self bound
  · intro owner collection i j e' he' hij
    by_cases hin : ∃ e, Family.entry x.state owner collection j = some e
    · obtain ⟨e, he⟩ := hin
      obtain ⟨e₀, he₀⟩ := entry_below h.accounted he hij
      rw [hold he, hold he₀]
      exact hranked.increasing he hij
    · rcases entry_origin h.accounted hnext he' with ⟨e, he, -⟩ | ⟨hbelow, -⟩
      · exact absurd ⟨e, he⟩ hin
      · obtain ⟨e₀, he₀⟩ := hbelow i hij
        rw [hnew hin, hold he₀]
        exact hranked.below he₀
  · intro owner collection slot e' d he' hd
    by_cases hin : ∃ e, Family.entry x.state owner collection slot = some e
    · obtain ⟨e, he⟩ := hin
      obtain ⟨e₁, he₁, hdep, -⟩ := entry_step h.accounted hnext he
      obtain rfl := Option.some.inj (he₁.symm.trans he')
      have hd₀ := hdep.symm.trans hd
      obtain ⟨target, htarget, -⟩ := h.target he hd₀
      rw [hold he, hold htarget]
      exact hranked.older he hd₀
    · rcases entry_origin h.accounted hnext he' with ⟨e, he, -⟩ | ⟨-, hpushed⟩
      · exact absurd ⟨e, he⟩ hin
      · have hnamed := hnames collection d.owner d.id (by rw [hpushed d hd])
        obtain ⟨target, htarget, -⟩ := h.returned hnamed
        rw [hnew hin, hold htarget]
        exact hranked.below htarget

/-- Every run has such a ranking. -/
theorem ranked_run {database : Database}
    {objects : Finmap fun _ : UInt64 => UInt64 × Transaction doc callable}
    {visited : List (Config (Finmap fun _ : UInt64 => World doc callable) (UInt64 × Event) ×
      (UInt64 × Call doc callable))}
    {x : Config (Finmap fun _ : UInt64 => World doc callable) (UInt64 × Event)}
    (hrun : Run (Family.step database) (Family.start database objects) visited x)
    (hnames : Throughout NamesReturnedId visited) :
    Barriers database x ∧ ∃ rank bound, Ranked x.state rank bound := by
  refine hrun.invariant (fun x => Barriers database x ∧ ∃ rank bound, Ranked x.state rank bound)
    NamesReturnedId ?_ hnames ⟨barriers_start database objects, ?_⟩
  · rintro y z a ⟨h, rank, bound, hranked⟩ hcall hnext
    exact ⟨h.step hcall hnext, hranked.step h hcall hnext⟩
  · have hnone : ∀ {owner collection id e},
        Family.entry (Family.start database objects).state owner collection id ≠ some e := by
      intro owner collection id e he
      rw [Family.entry_start] at he
      exact absurd he (by simp)
    exact ⟨fun _ _ _ => 0, 0, fun he => absurd he hnone, fun he => absurd he hnone,
      fun he => absurd he hnone⟩

/-! ## The oldest head is ready -/

/-- An owner's queue that is not drained and whose head waits for nothing undone. -/
structure Ready (family : Finmap fun _ : UInt64 => World doc callable) (owner : UInt64)
    (w : World doc callable) (collection : UInt8) (info : CollectionInfo doc callable) : Prop where
  member : family.lookup owner = some w
  queue : w.object.collections.lookup collection = some info
  undrained : info.firstId ≠ info.currentId
  met : ∀ d, (info.entry info.firstId).dependency = some d →
    ∃ target, Family.entry family d.owner collection d.id = some target ∧ target.done = true

/-- Some owner has not drained this collection. -/
def SomeUndrained (family : Finmap fun _ : UInt64 => World doc callable) (collection : UInt8) : Prop :=
  ∃ owner w info, family.lookup owner = some w ∧
    w.object.collections.lookup collection = some info ∧ info.firstId ≠ info.currentId

section Oldest

variable {database : Database}
variable {x : Config (Finmap fun _ : UInt64 => World doc callable) (UInt64 × Event)}

/-- **Of the undrained queues of one collection the one with the oldest head is ready**, once all tasks
have run: what its head names is older, so it is not at or behind the head of any undrained queue. -/
theorem ready_of_oldest (h : Barriers database x) (hconn : database.isConnected = true)
    (hidle : ∀ owner w, x.state.lookup owner = some w → w.submitted = [])
    {rank : UInt64 → UInt8 → Nat → Nat} {bound : Nat} (hranked : Ranked x.state rank bound)
    {collection : UInt8} (hsome : SomeUndrained x.state collection) :
    ∃ owner w info, Ready x.state owner w collection info := by
  classical
  have hexists : ∃ n owner w info, x.state.lookup owner = some w ∧
      w.object.collections.lookup collection = some info ∧ info.firstId ≠ info.currentId ∧
      rank owner collection info.firstId = n := by
    obtain ⟨owner, w, info, hw, hinfo, hundrained⟩ := hsome
    exact ⟨_, owner, w, info, hw, hinfo, hundrained, rfl⟩
  obtain ⟨owner, w, info, hw, hinfo, hundrained, hrank⟩ := Nat.find_spec hexists
  have holdest : ∀ {owner' w' info'}, x.state.lookup owner' = some w' →
      w'.object.collections.lookup collection = some info' → info'.firstId ≠ info'.currentId →
      rank owner collection info.firstId ≤ rank owner' collection info'.firstId := by
    intro owner' w' info' hw' hinfo' hundrained'
    rw [hrank]
    exact Nat.find_min' hexists ⟨owner', w', info', hw', hinfo', hundrained', rfl⟩
  refine ⟨owner, w, info, hw, hinfo, hundrained, fun d hd => ?_⟩
  have hsound := ((h.accounted owner w hw).ledger hinfo).sound
  have hlt := Nat.lt_of_le_of_ne hsound.first_le hundrained
  have hhead : Family.entry x.state owner collection info.firstId =
      some (info.entry info.firstId) :=
    entry_eq_some.mpr ⟨w, info, hw, hinfo, hsound.lookup_eq hlt⟩
  have holder := hranked.older hhead hd
  obtain ⟨target, htarget, hop⟩ := h.target hhead hd
  refine ⟨target, htarget, ?_⟩
  obtain ⟨w', info', hw', hinfo', hlookup⟩ := entry_eq_some.mp htarget
  have haccounted := h.accounted d.owner w' hw'
  have hsound' := (haccounted.ledger hinfo').sound
  have hcurrent := hsound'.lt_of_lookup hlookup
  have hpassed : d.id < info'.firstId := by
    by_contra hbehind
    -- the named entry waits in an undrained queue, whose head is no younger than it
    have hle := holdest hw' hinfo' (by omega)
    have hheadLe : rank d.owner collection info'.firstId ≤ rank d.owner collection d.id := by
      rcases Nat.lt_or_eq_of_le (Nat.le_of_not_lt hbehind) with hbefore | heq
      · exact Nat.le_of_lt (hranked.increasing htarget hbefore)
      · rw [heq]
    omega
  have hdone := haccounted.done_of_idle hconn (hidle d.owner w' hw') hinfo' d.id
    (CollectionInfo.mem_operationsBelow.mpr
      ⟨hpassed, CollectionInfo.isOperation_iff.mpr ⟨target, hlookup, hop⟩⟩)
  simpa only [CollectionInfo.isDone, hlookup] using hdone

/-- Another owner's step, or any step that is not this owner's, leaves a ready queue ready. -/
theorem Ready.other {owner : UInt64} {w : World doc callable} {collection : UInt8}
    {info : CollectionInfo doc callable} (hready : Ready x.state owner w collection info)
    (h : Family.Accounted database x)
    {y : Config (Finmap fun _ : UInt64 => World doc callable) (UInt64 × Event)}
    {a : UInt64 × Call doc callable} (hne : owner ≠ a.1)
    (hnext : (Family.step database).next x a = some y) :
    Ready y.state owner w collection info := by
  refine ⟨?_, hready.queue, hready.undrained, fun d hd => ?_⟩
  · rcases next_member (k := a.1) (a := a.2) hnext hready.member with ⟨-, hsame, -⟩ | ⟨heq, -⟩
    · exact hsame
    · exact absurd heq hne
  · obtain ⟨target, htarget, hdone⟩ := hready.met d hd
    obtain ⟨target', htarget', -, hstays⟩ := entry_step h hnext htarget
    exact ⟨target', htarget', hstays hdone⟩

end Oldest

/-! ## Updating every owner -/

/-- One `update` of each listed owner, in this order, each with its own time difference. -/
def updates (order : List UInt8) (calls : List (UInt64 × UInt64)) :
    List (UInt64 × Call doc callable) :=
  calls.map fun call => (call.1, .update call.2 order .unknown)

section Updates

variable {database : Database}
variable {x y : Config (Finmap fun _ : UInt64 => World doc callable) (UInt64 × Event)}

/-- All objects iterate their collections in this order. -/
def CommonOrder (family : Finmap fun _ : UInt64 => World doc callable) (order : List UInt8) : Prop :=
  ∀ owner w, family.lookup owner = some w → Enumerates order w.object.collections

theorem CommonOrder.step {order : List UInt8} (horder : CommonOrder x.state order)
    (h : Family.Accounted database x) {a : UInt64 × Call doc callable}
    (hnext : (Family.step database).next x a = some y) : CommonOrder y.state order := by
  intro owner w' hw'
  obtain ⟨w, hw⟩ := member_of_next (k := a.1) (a := a.2) hnext hw'
  apply Enumerates.congr (horder owner w hw)
  intro collection
  rw [Finmap.mem_iff, Finmap.mem_iff]
  constructor
  · rintro ⟨info', hinfo'⟩
    obtain ⟨w₁, info, call, ids, hw₁, hinfo, -⟩ := family_move_back h hnext hw' hinfo'
    obtain rfl := Option.some.inj (hw₁.symm.trans hw)
    exact ⟨info, hinfo⟩
  · rintro ⟨info, hinfo⟩
    obtain ⟨w₁, info', call, ids, hw₁, hinfo', -⟩ := family_move h hnext hw hinfo
    obtain rfl := Option.some.inj (hw₁.symm.trans hw')
    exact ⟨info', hinfo'⟩

/-- `update` of a member is always enabled. -/
theorem update_enabled (database : Database) {order : List UInt8} (horder : CommonOrder x.state order)
    {owner : UInt64} {w : World doc callable} (hw : x.state.lookup owner = some w) (diff : UInt64) :
    ∃ y, (Family.step database).next x (owner, .update diff order .unknown) = some y := by
  have hstep : (World.step database w
      (.update diff order (familyGetter x.state))).isSome = true := by
    simp only [World.step, if_pos (horder owner w hw), Option.isSome_some]
  obtain ⟨⟨w', evs⟩, hmove⟩ := Option.isSome_iff_exists.mp hstep
  exact ⟨_, Step.next_eq_some.mpr ⟨_, _, familyStep_eq_some.mpr ⟨w, w', evs, hw, hmove, rfl, rfl⟩, rfl⟩⟩

/-- No run of the family moves a `firstId` back. -/
theorem family_first_le (h : Family.Accounted database x)
    {later : List (Config (Finmap fun _ : UInt64 => World doc callable) (UInt64 × Event) ×
      (UInt64 × Call doc callable))}
    (hrun : Run (Family.step database) x later y) {owner : UInt64} {w : World doc callable}
    (hw : x.state.lookup owner = some w) {collection : UInt8} {info : CollectionInfo doc callable}
    (hinfo : w.object.collections.lookup collection = some info) :
    ∃ w' info', y.state.lookup owner = some w' ∧
      w'.object.collections.lookup collection = some info' ∧ info.firstId ≤ info'.firstId := by
  apply hrun.invariant_under (fun hy hnext => hy.step hnext)
    (fun y => ∃ w' info', y.state.lookup owner = some w' ∧
      w'.object.collections.lookup collection = some info' ∧ info.firstId ≤ info'.firstId) ?_ h
    ⟨w, info, hw, hinfo, Nat.le_refl _⟩
  rintro y z a hy ⟨w', info', hw', hinfo', hle⟩ hnext
  obtain ⟨w'', info'', call, ids, hw'', hinfo'', -, hmove⟩ := family_move hy hnext hw' hinfo'
  exact ⟨w'', info'', hw'', hinfo'', Nat.le_trans hle hmove.first_le⟩

/-- A round of updates of members goes through. -/
theorem exec_updates (h : Family.Accounted database x) {order : List UInt8}
    (horder : CommonOrder x.state order) {calls : List (UInt64 × UInt64)}
    (hmembers : ∀ call ∈ calls, ∃ w, x.state.lookup call.1 = some w) :
    ∃ z, exec (Family.step database) x (updates order calls) = some z := by
  induction calls generalizing x with
  | nil => exact ⟨x, rfl⟩
  | cons call calls ih =>
      obtain ⟨w, hw⟩ := hmembers call List.mem_cons_self
      obtain ⟨y, hnext⟩ := update_enabled database horder hw call.2
      have hstay : ∀ other ∈ calls, ∃ w, y.state.lookup other.1 = some w := by
        intro other hother
        obtain ⟨w₀, hw₀⟩ := hmembers other (List.mem_cons_of_mem _ hother)
        rcases next_member hnext hw₀ with ⟨-, hsame, -⟩ | ⟨-, w', hw', -⟩
        · exact ⟨w₀, hsame⟩
        · exact ⟨w', hw'⟩
      obtain ⟨z, hz⟩ := ih (h.step hnext) (horder.step h hnext) hstay
      refine ⟨z, ?_⟩
      rw [updates, List.map_cons, exec, hnext]
      exact hz

/-- **The update of a ready queue's owner moves it**, when no earlier collection of the owner has
entries left and the update is past the gate. -/
theorem Ready.update {owner : UInt64} {w : World doc callable} {collection : UInt8}
    {info : CollectionInfo doc callable} (hready : Ready x.state owner w collection info)
    (h : Family.Accounted database x) {order : List UInt8} (horder : CommonOrder x.state order)
    (hearlier : ∀ earlier ∈ order.takeWhile (· ≠ collection), ∀ info₀,
      w.object.collections.lookup earlier = some info₀ → info₀.firstId = info₀.currentId)
    (hflagged : w.object.flagged = false) {diff : UInt64} (hgate : w.object.idles diff = false)
    (hnext : (Family.step database).next x (owner, .update diff order .unknown) = some y) :
    ∃ w' info', y.state.lookup owner = some w' ∧
      w'.object.collections.lookup collection = some info' ∧ info.firstId < info'.firstId := by
  classical
  have haccounted := h owner w hready.member
  have hsound := (haccounted.ledger hready.queue).sound
  have hlt := Nat.lt_of_le_of_ne hsound.first_le hready.undrained
  obtain ⟨w', hw', hmove⟩ : ∃ w', y.state.lookup owner = some w' ∧
      (World.step database).next (memberConfig x owner w)
        (.update diff order (familyGetter x.state)) = some (memberConfig y owner w') := by
    rcases next_member hnext hready.member with ⟨hne, -⟩ | ⟨-, w', hw', hmove⟩
    · exact absurd rfl hne
    · exact ⟨w', hw', hmove⟩
  have hobject : w'.object = (w.object.update diff order (familyGetter x.state)).2.1 := by
    obtain ⟨w₁, evs, hstep, heq⟩ := Step.next_eq_some.mp hmove
    obtain rfl : w' = w₁ := congrArg Config.state heq
    replace hstep : World.step database w (.update diff order (familyGetter x.state)) =
      some (w', evs) := hstep
    rw [World.step, if_pos (horder owner w hready.member)] at hstep
    exact (congrArg World.object (Prod.mk.inj (Option.some.inj hstep)).1).symm
  have hmoves : info.consumed (familyGetter x.state) collection ≠ [] := by
    apply hsound.consumed_ne_nil _ _ hlt
    intro d hd
    obtain ⟨target, htarget, hdone⟩ := hready.met d hd
    rw [dependencyMet_family htarget, hdone]
  have hreached : ¬ MeetsStalled (familyGetter x.state) w.object order collection := by
    rintro ⟨earlier, hmem, info₀, hinfo₀, hstalls⟩
    exact hstalls.1 (hearlier earlier hmem info₀ hinfo₀)
  have hdeletes : w.object.deletes order = false := by simp [Transaction.deletes, hflagged]
  have hshare := outcome_eq haccounted (familyGetter x.state) (horder owner w hready.member)
    hdeletes hgate hready.queue
  rw [if_neg (show ¬ MeetsStalled (familyGetter x.state) (memberConfig x owner w).state.object
    order collection from hreached)] at hshare
  have hfirst : (w'.object.collections.lookup collection).map CollectionInfo.firstId =
      some (info.firstId + (info.consumed (familyGetter x.state) collection).length) := by
    rw [hobject]
    exact congrArg Prod.snd hshare
  obtain ⟨info', hinfo', hfirst⟩ := Option.map_eq_some_iff.mp hfirst
  have hpos := List.length_pos_of_ne_nil hmoves
  exact ⟨w', info', hw', hinfo', by omega⟩

/-- A round of updates that includes the owner of a ready queue moves that queue. -/
theorem Ready.updates {owner : UInt64} {w : World doc callable} {collection : UInt8}
    {info : CollectionInfo doc callable} (hready : Ready x.state owner w collection info)
    (h : Family.Accounted database x) {order : List UInt8} (horder : CommonOrder x.state order)
    (hearlier : ∀ earlier ∈ order.takeWhile (· ≠ collection), ∀ info₀,
      w.object.collections.lookup earlier = some info₀ → info₀.firstId = info₀.currentId)
    (hflagged : w.object.flagged = false) {calls : List (UInt64 × UInt64)}
    (hgate : ∀ call ∈ calls, call.1 = owner → w.object.idles call.2 = false)
    (howner : ∃ call ∈ calls, call.1 = owner)
    {z : Config (Finmap fun _ : UInt64 => World doc callable) (UInt64 × Event)}
    (hexec : exec (Family.step database) x (updates order calls) = some z) :
    ∃ w' info', z.state.lookup owner = some w' ∧
      w'.object.collections.lookup collection = some info' ∧ info.firstId < info'.firstId := by
  induction calls generalizing x with
  | nil => exact absurd howner (by simp)
  | cons call calls ih =>
      obtain ⟨k, diff⟩ := call
      rw [Sekkeizu.updates, List.map_cons, exec] at hexec
      dsimp only at hexec
      cases hnext : (Family.step database).next x (k, .update diff order .unknown) with
      | none => simp [hnext] at hexec
      | some y =>
          rw [hnext] at hexec
          by_cases heq : k = owner
          · subst heq
            obtain ⟨w', info', hw', hinfo', hlt⟩ := hready.update h horder hearlier hflagged
              (hgate (k, diff) List.mem_cons_self rfl) hnext
            obtain ⟨w'', info'', hw'', hinfo'', hle⟩ :=
              family_first_le (h.step hnext) (run_trace hexec) hw' hinfo'
            exact ⟨w'', info'', hw'', hinfo'', Nat.lt_of_lt_of_le hlt hle⟩
          · refine ih (hready.other h (Ne.symm heq) hnext) (h.step hnext) (horder.step h hnext)
              (fun other hother => hgate other (List.mem_cons_of_mem _ hother)) ?_ hexec
            obtain ⟨other, hother, hsame⟩ := howner
            rcases List.mem_cons.mp hother with rfl | hother
            · exact absurd hsame heq
            · exact ⟨other, hother, hsame⟩

end Updates

/-- The first collection of an order that has a property. -/
theorem first_collection {order : List UInt8} {P : UInt8 → Prop} (h : ∃ c ∈ order, P c) :
    ∃ c ∈ order, P c ∧ ∀ earlier ∈ order.takeWhile (· ≠ c), ¬ P earlier := by
  classical
  obtain ⟨c, hc⟩ := Option.isSome_iff_exists.mp
    (List.find?_isSome.mpr (show ∃ c ∈ order, decide (P c) = true by simpa using h))
  obtain ⟨hP, before, after, rfl, hbefore⟩ := List.find?_eq_some_iff_append.mp hc
  refine ⟨c, by simp, of_decide_eq_true hP, fun earlier hmem => ?_⟩
  have hin : earlier ∈ before := by
    rw [List.takeWhile_append] at hmem
    split_ifs at hmem with hall
    · simpa using hmem
    · exact (List.takeWhile_prefix _).subset hmem
  simpa using hbefore earlier hin

/-- **No stuck state.** In a family of unflagged owners on a connected database, whose collections all
iterate in one order and whose dependencies name returned ids: once every submitted task has run, and
some queue is not drained, a round of updates past their gates moves some queue of some owner. -/
theorem no_stuck_state {database : Database} (hconn : database.isConnected = true)
    {objects : Finmap fun _ : UInt64 => UInt64 × Transaction doc callable}
    {visited : List (Config (Finmap fun _ : UInt64 => World doc callable) (UInt64 × Event) ×
      (UInt64 × Call doc callable))}
    {x : Config (Finmap fun _ : UInt64 => World doc callable) (UInt64 × Event)}
    (hrun : Run (Family.step database) (Family.start database objects) visited x)
    (hnames : Throughout NamesReturnedId visited)
    (hflagged : ∀ owner w, x.state.lookup owner = some w → w.object.flagged = false)
    {order : List UInt8} (horder : CommonOrder x.state order)
    (hidle : ∀ owner w, x.state.lookup owner = some w → w.submitted = [])
    (hundrained : ∃ collection, SomeUndrained x.state collection)
    {calls : List (UInt64 × UInt64)}
    (hcalls : ∀ owner, (∃ w, x.state.lookup owner = some w) ↔ ∃ call ∈ calls, call.1 = owner)
    (hgate : ∀ call ∈ calls, ∀ w, x.state.lookup call.1 = some w →
      w.object.idles call.2 = false) :
    ∃ z, exec (Family.step database) x (updates order calls) = some z ∧
      ∃ owner w w' collection info info',
        x.state.lookup owner = some w ∧ w.object.collections.lookup collection = some info ∧
        z.state.lookup owner = some w' ∧ w'.object.collections.lookup collection = some info' ∧
        info.firstId < info'.firstId := by
  obtain ⟨h, rank, bound, hranked⟩ := ranked_run hrun hnames
  obtain ⟨c, hc⟩ := hundrained
  have hin : c ∈ order := by
    obtain ⟨owner, w, info, hw, hinfo, -⟩ := hc
    exact (horder owner w hw).mem_iff.mpr (Finmap.mem_of_lookup_eq_some hinfo)
  obtain ⟨collection, -, hsome, hfirst⟩ := first_collection ⟨c, hin, hc⟩
  obtain ⟨owner, w, info, hready⟩ := ready_of_oldest h hconn hidle hranked hsome
  obtain ⟨z, hz⟩ := exec_updates h.accounted horder
    fun call hcall => (hcalls call.1).mpr ⟨call, hcall, rfl⟩
  have hearlier : ∀ earlier ∈ order.takeWhile (· ≠ collection), ∀ info₀,
      w.object.collections.lookup earlier = some info₀ → info₀.firstId = info₀.currentId := by
    intro earlier hmem info₀ hinfo₀
    by_contra hne
    exact hfirst earlier hmem ⟨owner, w, info₀, hready.member, hinfo₀, hne⟩
  have hgate' : ∀ call ∈ calls, call.1 = owner → w.object.idles call.2 = false := by
    rintro call hcall rfl
    exact hgate call hcall w hready.member
  obtain ⟨w', info', hw', hinfo', hlt⟩ := hready.updates h.accounted horder hearlier
    (hflagged owner w hready.member) hgate' ((hcalls owner).mp ⟨w, hready.member⟩) hz
  exact ⟨z, hz, owner, w, w', collection, info, info', hready.member, hready.queue, hw', hinfo', hlt⟩

/-- Owner 1 waits for owner 2, who has sent nothing yet; one round of updates moves owner 2. -/
theorem no_stuck_state_two_owners :
    ∃ (x z : Config (Finmap fun _ : UInt64 => World Unit Unit) (UInt64 × Event)),
      exec (Family.step .single) (Family.start .single twoOwners)
        [(2, .pushOperation 0 .insert ()), (1, .pushDependency 0 2 0),
          (1, .pushOperation 0 .insert ())] = some x ∧
      exec (Family.step .single) x (updates [0] [(1, 0), (2, 0)]) = some z ∧
      ∃ owner w w' collection info info',
        x.state.lookup owner = some w ∧ w.object.collections.lookup collection = some info ∧
        z.state.lookup owner = some w' ∧ w'.object.collections.lookup collection = some info' ∧
        info.firstId < info'.firstId := by
  obtain ⟨x, hx⟩ := Option.isSome_iff_exists.mp (show (exec (Family.step .single)
    (Family.start .single twoOwners)
    [(2, .pushOperation 0 .insert ()), (1, .pushDependency 0 2 0),
      (1, .pushOperation 0 .insert ())]).isSome = true by decide)
  have hnames : Throughout NamesReturnedId (trace (Family.step .single)
      (Family.start .single twoOwners)
      [(2, .pushOperation 0 .insert ()), (1, .pushDependency 0 2 0),
        (1, .pushOperation 0 .insert ())]) := by decide
  have hkeys : (some x).map (fun x => x.state.keys) = some {1, 2} := by
    rw [← hx]
    decide
  have hone : ((some x).bind fun x => x.state.lookup 1).map (fun w => (w.object.flagged,
      w.submitted, decide (Enumerates [0] w.object.collections), w.object.idles 0)) =
      some (false, [], true, false) := by
    rw [← hx]
    decide
  have htwo : ((some x).bind fun x => x.state.lookup 2).map (fun w => (w.object.flagged,
      w.submitted, decide (Enumerates [0] w.object.collections), w.object.idles 0)) =
      some (false, [], true, false) := by
    rw [← hx]
    decide
  have hundrained : ((some x).bind fun x => x.state.lookup 2).bind (fun w =>
      (w.object.collections.lookup 0).map fun info => (info.firstId, info.currentId)) =
      some (0, 1) := by
    rw [← hx]
    decide
  replace hkeys : x.state.keys = {1, 2} := Option.some.inj hkeys
  have hall : ∀ owner w, x.state.lookup owner = some w → w.object.flagged = false ∧
      w.submitted = [] ∧ Enumerates [0] w.object.collections ∧ w.object.idles 0 = false := by
    intro owner w hw
    have howner : owner ∈ x.state.keys := Finmap.mem_keys.mpr (Finmap.mem_of_lookup_eq_some hw)
    rw [hkeys, Finset.mem_insert, Finset.mem_singleton] at howner
    rcases howner with rfl | rfl
    · simpa [hw] using hone
    · simpa [hw] using htwo
  have hsome : ∃ collection, SomeUndrained x.state collection := by
    obtain ⟨w, hw, hqueue⟩ := Option.bind_eq_some_iff.mp hundrained
    obtain ⟨info, hinfo, hids⟩ := Option.map_eq_some_iff.mp hqueue
    obtain ⟨hfirst, hcurrent⟩ := Prod.mk.inj hids
    exact ⟨0, 2, w, info, hw, hinfo, by rw [hfirst, hcurrent]; decide⟩
  have hcalls : ∀ owner, (∃ w, x.state.lookup owner = some w) ↔
      ∃ call ∈ [((1 : UInt64), (0 : UInt64)), (2, 0)], call.1 = owner := by
    intro owner
    have hmem : (∃ w, x.state.lookup owner = some w) ↔ owner ∈ x.state.keys := by
      rw [Finmap.mem_keys, Finmap.mem_iff]
    rw [hmem, hkeys]
    simp [eq_comm]
  have hgate : ∀ call ∈ [((1 : UInt64), (0 : UInt64)), (2, 0)], ∀ w,
      x.state.lookup call.1 = some w → w.object.idles call.2 = false := by
    intro call hcall w hw
    have hzero : call.2 = 0 := by
      simp only [List.mem_cons, List.not_mem_nil, or_false] at hcall
      rcases hcall with rfl | rfl <;> rfl
    rw [hzero]
    exact (hall call.1 w hw).2.2.2
  obtain ⟨z, hz, hmoved⟩ := no_stuck_state rfl (run_trace hx) hnames
    (fun owner w hw => (hall owner w hw).1) (fun owner w hw => (hall owner w hw).2.2.1)
    (fun owner w hw => (hall owner w hw).2.1) hsome hcalls hgate
  exact ⟨x, z, hx, hz, hmoved⟩

end Sekkeizu
