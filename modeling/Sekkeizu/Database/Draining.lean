/-
# Sekkeizu.Database.Draining — owners that push nothing more are done after a bounded number of rounds.

In a round the pool runs dry, every owner is updated, and the pool runs dry again. As long as some queue of
some owner holds an entry that has not been consumed, a round consumes one, so the rounds needed are at most
the entries that are left (`remaining`), whatever waits for what. After that every owner is finished, and the
next update of one that is flagged gives it up, unless one of its queues ends in a dependency
(`drains_within_remaining`).
-/
import Sekkeizu.Database.Completion
import Sekkeizu.Database.Progress
import Sekkeizu.Semantics.Potentials
import Sekkeizu.Semantics.Totals


namespace Sekkeizu

open Finmap (Enumerates)
open PartialSystem

variable {doc callable : Type*}

/-! ## What is left -/

/-- The entries of a queue that have not been consumed. -/
def CollectionInfo.remaining (info : CollectionInfo doc callable) : ℕ := info.currentId - info.firstId

/-- The entries of all queues of an object. -/
def Transaction.remaining (t : Transaction doc callable) : ℕ :=
  t.collections.total fun _ info => info.remaining

/-- The entries of all owners. -/
def remaining (family : Finmap fun _ : UInt64 => World doc callable) : ℕ :=
  family.total fun _ w => w.object.remaining

/-- The pool has run all tasks of all owners. -/
def Dry (family : Finmap fun _ : UInt64 => World doc callable) : Prop :=
  ∀ owner w, family.lookup owner = some w → w.submitted = []

/-- The call is an update, or runs a task. -/
def Call.isQuiet : Call doc callable → Bool
  | .update .. | .runTask _ => true
  | _ => false

/-- The call runs a task. -/
def Call.isRun : Call doc callable → Bool
  | .runTask _ => true
  | _ => false

/-- The pool runs until it is dry. -/
def RunsDry [Bson doc] (database : Database)
    (x y : Config (Finmap fun _ : UInt64 => World doc callable) (UInt64 × Event)) : Prop :=
  Dry y.state ∧ ∃ visited, Run (Family.step database) x visited y ∧
    ∀ p ∈ visited, p.2.2.isRun = true

/-- **One round**: the pool runs dry, every owner is updated past its gate, and the pool runs dry again. -/
def Round [Bson doc] (database : Database) (order : List UInt8)
    (x z : Config (Finmap fun _ : UInt64 => World doc callable) (UInt64 × Event)) : Prop :=
  ∃ y y' calls, RunsDry database x y ∧
    (∀ owner w, y.state.lookup owner = some w → ∃ call ∈ calls, call.1 = owner) ∧
    (∀ call ∈ calls, ∀ w, y.state.lookup call.1 = some w → w.object.idles call.2 = false) ∧
    exec (Family.step database) y (updates order calls) = some y' ∧ RunsDry database y' z

theorem Call.isQuiet_of_isRun {call : Call doc callable} (h : call.isRun = true) :
    call.isQuiet = true := by
  cases call <;> simp_all [Call.isRun, Call.isQuiet]

/-! ## Quiet steps -/

/-- Updates and tasks push nothing and move no `firstId` back. -/
theorem QueueMove.quiet [Bson doc] {connected : Bool} {call : Call doc callable} {collection : UInt8}
    {info info' : CollectionInfo doc callable} {out ids out' : List Nat}
    (h : QueueMove connected call collection info out info' ids out') (hquiet : call.isQuiet = true) :
    info'.currentId = info.currentId ∧ info.firstId ≤ info'.firstId := by
  refine ⟨?_, h.first_le⟩
  cases h with
  | stay => rfl
  | push write hwrite =>
      have hpush := hwrite.isPush
      cases call <;> simp_all [Call.isPush, Call.isQuiet]
  | scan => rfl
  | finish => rfl

theorem Call.isQuiet_completed {family : Finmap fun _ : UInt64 => World doc callable}
    {call : Call doc callable} : (call.completed family).isQuiet = call.isQuiet := by
  cases call <;> rfl

section Steps

variable [Bson doc] {database : Database}
variable {x y : Config (Finmap fun _ : UInt64 => World doc callable) (UInt64 × Event)}
variable {a : UInt64 × Call doc callable}

/-- A queue after a quiet step has the entries it had, and no more of them left. -/
theorem quiet_back (h : Family.Accounted database x) (hquiet : a.2.isQuiet = true)
    (hnext : (Family.step database).next x a = some y) {owner : UInt64} {w' : World doc callable}
    (hw' : y.state.lookup owner = some w') {collection : UInt8} {info' : CollectionInfo doc callable}
    (hinfo' : w'.object.collections.lookup collection = some info') :
    ∃ w info, x.state.lookup owner = some w ∧ w.object.collections.lookup collection = some info ∧
      info'.currentId = info.currentId ∧ info.firstId ≤ info'.firstId := by
  obtain ⟨w, info, call, ids, hw, hinfo, hcall, hmove⟩ := family_move_back h hnext hw' hinfo'
  rcases hcall with ⟨-, rfl⟩ | rfl
  · exact ⟨w, info, hw, hinfo, hmove.quiet (Call.isQuiet_completed.trans hquiet)⟩
  · exact ⟨w, info', hw, hinfo, rfl, Nat.le_refl _⟩

/-- The same over a run. -/
theorem quiet_run_back (h : Family.Accounted database x)
    {later : List (Config (Finmap fun _ : UInt64 => World doc callable) (UInt64 × Event) ×
      (UInt64 × Call doc callable))}
    (hrun : Run (Family.step database) x later y) (hquiet : ∀ p ∈ later, p.2.2.isQuiet = true)
    {owner : UInt64} {w' : World doc callable} (hw' : y.state.lookup owner = some w')
    {collection : UInt8} {info' : CollectionInfo doc callable}
    (hinfo' : w'.object.collections.lookup collection = some info') :
    ∃ w info, x.state.lookup owner = some w ∧ w.object.collections.lookup collection = some info ∧
      info'.currentId = info.currentId ∧ info.firstId ≤ info'.firstId := by
  induction hrun generalizing w' info' with
  | start => exact ⟨w', info', hw', hinfo', rfl, Nat.le_refl _⟩
  | @snoc visited y z a hinit hnext ih =>
      have hall := List.forall_mem_append.mp hquiet
      have hy : Family.Accounted database y :=
        hinit.invariant' (Family.Accounted database) (fun hy hnext => hy.step hnext) h
      obtain ⟨w₁, info₁, hw₁, hinfo₁, hcurrent₁, hfirst₁⟩ :=
        quiet_back hy (hall.2 _ (List.mem_singleton_self _)) hnext hw' hinfo'
      obtain ⟨w, info, hw, hinfo, hcurrent, hfirst⟩ := ih hall.1 hw₁ hinfo₁
      exact ⟨w, info, hw, hinfo, hcurrent₁.trans hcurrent, Nat.le_trans hfirst hfirst₁⟩

end Steps

/-! ## The potential -/

/-- An object none of whose queues has more left. -/
theorem Transaction.remaining_le {t t' : Transaction doc callable}
    (h : ∀ collection info', t'.collections.lookup collection = some info' →
      ∃ info, t.collections.lookup collection = some info ∧ info'.remaining ≤ info.remaining) :
    t'.remaining ≤ t.remaining := by
  apply Finmap.total_le
  intro collection
  cases hinfo' : t'.collections.lookup collection with
  | none =>
      rw [Finmap.weight_of_notMem (Finmap.lookup_eq_none.mp hinfo')]
      exact Nat.zero_le _
  | some info' =>
      obtain ⟨info, hinfo, hle⟩ := h collection info' hinfo'
      rw [Finmap.weight_of_lookup hinfo', Finmap.weight_of_lookup hinfo]
      exact hle

/-- The same, with one queue that has less left. -/
theorem Transaction.remaining_lt {t t' : Transaction doc callable}
    (h : ∀ collection info', t'.collections.lookup collection = some info' →
      ∃ info, t.collections.lookup collection = some info ∧ info'.remaining ≤ info.remaining)
    {collection : UInt8} {info info' : CollectionInfo doc callable}
    (hinfo : t.collections.lookup collection = some info)
    (hinfo' : t'.collections.lookup collection = some info') (hlt : info'.remaining < info.remaining) :
    t'.remaining < t.remaining := by
  apply Finmap.total_lt (k := collection)
  · intro other
    cases hother' : t'.collections.lookup other with
    | none =>
        rw [Finmap.weight_of_notMem (Finmap.lookup_eq_none.mp hother')]
        exact Nat.zero_le _
    | some other' =>
        obtain ⟨info₀, hinfo₀, hle⟩ := h other other' hother'
        rw [Finmap.weight_of_lookup hother', Finmap.weight_of_lookup hinfo₀]
        exact hle
  · rw [Finmap.weight_of_lookup hinfo', Finmap.weight_of_lookup hinfo]
    exact hlt

section Potential

variable {database : Database}
variable {x y : Config (Finmap fun _ : UInt64 => World doc callable) (UInt64 × Event)}
variable {later : List (Config (Finmap fun _ : UInt64 => World doc callable) (UInt64 × Event) ×
  (UInt64 × Call doc callable))}

/-- Nothing is left when every queue is consumed. -/
theorem remaining_eq_zero (h : Family.Accounted database x) :
    remaining x.state = 0 ↔ ∀ owner w, x.state.lookup owner = some w → ∀ collection info,
      w.object.collections.lookup collection = some info → info.firstId = info.currentId := by
  rw [remaining, Finmap.total_eq_zero_iff]
  refine forall₃_congr fun owner w hw => ?_
  rw [Transaction.remaining, Finmap.total_eq_zero_iff]
  refine forall₃_congr fun collection info hinfo => ?_
  have hle := ((h owner w hw).ledger hinfo).sound.first_le
  rw [CollectionInfo.remaining]
  omega

variable [Bson doc]

theorem remaining_back (h : Family.Accounted database x) (hrun : Run (Family.step database) x later y)
    (hquiet : ∀ p ∈ later, p.2.2.isQuiet = true) {owner : UInt64} {w w' : World doc callable}
    (hw : x.state.lookup owner = some w) (hw' : y.state.lookup owner = some w') :
    ∀ collection info', w'.object.collections.lookup collection = some info' →
      ∃ info, w.object.collections.lookup collection = some info ∧ info'.remaining ≤ info.remaining := by
  intro collection info' hinfo'
  obtain ⟨w₁, info, hw₁, hinfo, hcurrent, hfirst⟩ := quiet_run_back h hrun hquiet hw' hinfo'
  obtain rfl := Option.some.inj (hw₁.symm.trans hw)
  refine ⟨info, hinfo, ?_⟩
  rw [CollectionInfo.remaining, CollectionInfo.remaining, hcurrent]
  exact Nat.sub_le_sub_left hfirst _

/-- No owner has more left after a quiet run. -/
theorem weight_remaining_le (h : Family.Accounted database x)
    (hrun : Run (Family.step database) x later y) (hquiet : ∀ p ∈ later, p.2.2.isQuiet = true)
    (owner : UInt64) :
    Finmap.weight (fun _ w => w.object.remaining) y.state owner ≤
      Finmap.weight (fun _ w => w.object.remaining) x.state owner := by
  cases hw' : y.state.lookup owner with
  | none =>
      rw [Finmap.weight_of_notMem (Finmap.lookup_eq_none.mp hw')]
      exact Nat.zero_le _
  | some w' =>
      rw [Finmap.weight_of_lookup hw']
      cases hw : x.state.lookup owner with
      | some w =>
          rw [Finmap.weight_of_lookup hw]
          exact Transaction.remaining_le (remaining_back h hrun hquiet hw hw')
      | none =>
          -- no such owner, and so none with a queue
          have hzero : w'.object.remaining = 0 := by
            apply Finmap.total_eq_zero_iff.mpr
            intro collection info' hinfo'
            obtain ⟨w₁, -, hw₁, -⟩ := quiet_run_back h hrun hquiet hw' hinfo'
            exact absurd (hw.symm.trans hw₁) (by simp)
          rw [hzero]
          exact Nat.zero_le _

theorem remaining_le (h : Family.Accounted database x) (hrun : Run (Family.step database) x later y)
    (hquiet : ∀ p ∈ later, p.2.2.isQuiet = true) : remaining y.state ≤ remaining x.state :=
  Finmap.total_le (weight_remaining_le h hrun hquiet)

/-- A queue that has moved lowers the potential. -/
theorem remaining_lt (h : Family.Accounted database x) (hrun : Run (Family.step database) x later y)
    (hquiet : ∀ p ∈ later, p.2.2.isQuiet = true) {owner : UInt64} {w w' : World doc callable}
    (hw : x.state.lookup owner = some w) (hw' : y.state.lookup owner = some w') {collection : UInt8}
    {info info' : CollectionInfo doc callable}
    (hinfo : w.object.collections.lookup collection = some info)
    (hinfo' : w'.object.collections.lookup collection = some info')
    (hmoved : info.firstId < info'.firstId) (hle : info'.firstId ≤ info'.currentId) :
    remaining y.state < remaining x.state := by
  obtain ⟨w₁, info₁, hw₁, hinfo₁, hcurrent, -⟩ := quiet_run_back h hrun hquiet hw' hinfo'
  obtain rfl := Option.some.inj (hw₁.symm.trans hw)
  obtain rfl := Option.some.inj (hinfo₁.symm.trans hinfo)
  have hless : info'.remaining < info₁.remaining := by
    simp only [CollectionInfo.remaining]
    omega
  apply Finmap.total_lt (weight_remaining_le h hrun hquiet) (k := owner)
  rw [Finmap.weight_of_lookup hw', Finmap.weight_of_lookup hw]
  exact Transaction.remaining_lt (remaining_back h hrun hquiet hw hw') hinfo hinfo' hless

end Potential

/-! ## What a round keeps -/

/-- The deletion is scheduled of flagged objects only. -/
theorem scheduled_step [Bson doc] {database : Database} {v w : Config (World doc callable) Event}
    (h : Accounted database v) {call : Call doc callable}
    (hnext : (World.step database).next v call = some w)
    (hv : v.state.object.scheduled = true → v.state.object.flagged = true) :
    w.state.object.scheduled = true → w.state.object.flagged = true := by
  obtain ⟨s, ev, hstep, rfl⟩ := Step.next_eq_some.mp hnext
  cases fires_of_step hstep with
  | push _ _ _ _ _ _ _ _ hflags _ =>
      intro hs
      exact hflags.1.trans (hv (hflags.2.symm.trans hs))
  | update diff order getter horder =>
      dsimp only
      cases hdeletes : v.state.object.deletes order with
      | true =>
          rw [update_of_deletes hdeletes]
          rw [Transaction.deletes, Bool.and_eq_true] at hdeletes
          exact fun _ => hdeletes.1
      | false =>
          obtain ⟨-, hflagged, hscheduled⟩ := update_of_keeps h.allPresent hdeletes diff getter
          rw [hflagged, hscheduled]
          exact hv
  | flag => exact fun _ => rfl
  | unflag => exact fun hs => absurd hs (by simp [Transaction.unflagDeletion])
  | run _ _ _ _ _ _ => exact hv

/-- An update or a task leaves the flags of an unflagged object alone. -/
theorem quiet_flags [Bson doc] {database : Database} {v w : Config (World doc callable) Event}
    (h : Accounted database v) {call : Call doc callable} (hquiet : call.isQuiet = true)
    (hnext : (World.step database).next v call = some w) (hv : v.state.object.flagged = false) :
    w.state.object.flagged = false ∧ w.state.object.scheduled = v.state.object.scheduled := by
  obtain ⟨s, ev, hstep, rfl⟩ := Step.next_eq_some.mp hnext
  cases fires_of_step hstep with
  | push _ _ _ _ _ _ hwrite =>
      have hpush := hwrite.isPush
      cases call <;> simp_all [Call.isPush, Call.isQuiet]
  | update diff order getter horder =>
      have hdeletes : v.state.object.deletes order = false := by simp [Transaction.deletes, hv]
      obtain ⟨-, hflagged, hscheduled⟩ := update_of_keeps h.allPresent hdeletes diff getter
      exact ⟨hflagged.trans hv, hscheduled⟩
  | flag => simp [Call.isQuiet] at hquiet
  | unflag => simp [Call.isQuiet] at hquiet
  | run _ _ _ _ _ _ => exact ⟨hv, rfl⟩

/-- A family of unflagged owners with one common order, whose dependencies are barriers and have ages. -/
structure Orderly (database : Database) (order : List UInt8)
    (x : Config (Finmap fun _ : UInt64 => World doc callable) (UInt64 × Event)) : Prop where
  barriers : Barriers database x
  ranked : ∃ rank bound, Ranked x.state rank bound
  common : CommonOrder x.state order
  flags : ∀ owner w, x.state.lookup owner = some w →
    w.object.flagged = false ∧ w.object.scheduled = false

namespace Orderly

variable [Bson doc] {database : Database} {order : List UInt8}
variable {x y z : Config (Finmap fun _ : UInt64 => World doc callable) (UInt64 × Event)}

theorem step (h : Orderly database order x) {a : UInt64 × Call doc callable}
    (hquiet : a.2.isQuiet = true) (hnext : (Family.step database).next x a = some y) :
    Orderly database order y := by
  obtain ⟨k, call⟩ := a
  have haccounted := h.barriers.accounted
  have hnames : NamesReturnedId x (k, call) := by
    rintro collection owner id rfl
    simp [Call.isQuiet] at hquiet
  obtain ⟨rank, bound, hranked⟩ := h.ranked
  refine ⟨h.barriers.step hnames hnext, hranked.step h.barriers hnames hnext,
    h.common.step haccounted hnext, fun owner w' hw' => ?_⟩
  obtain ⟨w, hw⟩ := member_of_next hnext hw'
  rcases next_member hnext hw with ⟨-, hsame, -⟩ | ⟨rfl, w₁, hw₁, hmove⟩
  · obtain rfl := Option.some.inj (hsame.symm.trans hw')
    exact h.flags owner w hw
  · obtain rfl := Option.some.inj (hw₁.symm.trans hw')
    have hflags := h.flags owner w hw
    have hafter := quiet_flags (haccounted owner w hw) (Call.isQuiet_completed.trans hquiet) hmove
      hflags.1
    exact ⟨hafter.1, hafter.2.trans hflags.2⟩

theorem run (h : Orderly database order x)
    {later : List (Config (Finmap fun _ : UInt64 => World doc callable) (UInt64 × Event) ×
      (UInt64 × Call doc callable))}
    (hrun : Run (Family.step database) x later y) (hquiet : ∀ p ∈ later, p.2.2.isQuiet = true) :
    Orderly database order y :=
  hrun.invariant (Orderly database order)
    (fun _ (a : UInt64 × Call doc callable) => a.2.isQuiet = true)
    (fun hx hcall hnext => hx.step hcall hnext) hquiet h

end Orderly

/-! ## Rounds -/

/-- The tasks the pool holds for all owners. -/
def tasksLeft (family : Finmap fun _ : UInt64 => World doc callable) : ℕ :=
  family.total fun _ w => w.submitted.length

section Rounds

variable {database : Database} {order : List UInt8}
variable {x y z : Config (Finmap fun _ : UInt64 => World doc callable) (UInt64 × Event)}

theorem dry_iff {family : Finmap fun _ : UInt64 => World doc callable} :
    Dry family ↔ tasksLeft family = 0 := by
  rw [tasksLeft, Finmap.total_eq_zero_iff]
  exact forall₃_congr fun _ w _ => List.length_eq_zero_iff.symm

/-- There is a time difference that passes the gate. -/
theorem exists_gate (t : Transaction doc callable) : ∃ diff, t.idles diff = false := by
  refine ⟨t.executeEvery - t.sinceLastExecution, ?_⟩
  have hsum : t.sinceLastExecution + (t.executeEvery - t.sinceLastExecution) = t.executeEvery := by
    rw [UInt64.add_comm, UInt64.sub_add_cancel]
  simp [Transaction.idles, hsum]

variable [Bson doc]

/-- **The pool can always run dry.** -/
theorem exists_runsDry (database : Database)
    (x : Config (Finmap fun _ : UInt64 => World doc callable) (UInt64 × Event)) :
    ∃ y, RunsDry database x y := by
  have hlower : ∀ {x : Config (Finmap fun _ : UInt64 => World doc callable) (UInt64 × Event)},
      True → 0 < tasksLeft x.state → ∃ a y, a.2.isRun = true ∧
        (Family.step database).next x a = some y ∧ True ∧ tasksLeft y.state < tasksLeft x.state := by
    intro x _ hpos
    -- some owner has a task, and the oldest one is run
    obtain ⟨owner, w, hw, hne⟩ : ∃ owner w, x.state.lookup owner = some w ∧ w.submitted ≠ [] := by
      by_contra hnone
      push Not at hnone
      exact Nat.lt_irrefl 0 (dry_iff.mp hnone ▸ hpos)
    obtain ⟨task, rest, hsubmitted⟩ := List.exists_cons_of_ne_nil hne
    have hstep : World.step database w (.runTask 0) =
        some ({ object := w.object.runTask task, submitted := rest }, [.ran task]) := by
      simp [World.step, hsubmitted]
    refine ⟨(owner, .runTask 0), _, rfl, Step.next_eq_some.mpr
      ⟨_, _, familyStep_eq_some.mpr ⟨w, _, _, hw, hstep, rfl, rfl⟩, rfl⟩, trivial, ?_⟩
    have htotal := Finmap.total_insert (fun _ (w : World doc callable) => w.submitted.length) owner
      { object := w.object.runTask task, submitted := rest } x.state
    rw [Finmap.weight_of_lookup hw, hsubmitted, List.length_cons] at htotal
    dsimp only [tasksLeft] at htotal ⊢
    omega
  obtain ⟨visited, y, hrun, hruns, hzero⟩ := exists_run_to_zero (fun _ => True)
    (fun a : UInt64 × Call doc callable => a.2.isRun = true)
    (fun y => tasksLeft y.state) hlower (show True from trivial) (x := x)
  exact ⟨y, dry_iff.mpr hzero, visited, hrun, hruns⟩

theorem RunsDry.quiet_run (h : RunsDry database x y) :
    ∃ visited, Run (Family.step database) x visited y ∧ ∀ p ∈ visited, p.2.2.isQuiet = true := by
  obtain ⟨-, visited, hrun, hruns⟩ := h
  exact ⟨visited, hrun, fun p hp => Call.isQuiet_of_isRun (hruns p hp)⟩

/-- A list of updates is quiet. -/
theorem quiet_updates {calls : List (UInt64 × UInt64)}
    (hexec : exec (Family.step database) x (updates order calls) = some y) :
    ∃ visited, Run (Family.step database) x visited y ∧ ∀ p ∈ visited, p.2.2.isQuiet = true := by
  refine ⟨_, run_trace hexec, fun p hp => ?_⟩
  have hmem : p.2 ∈ (updates order calls : List (UInt64 × Call doc callable)) := by
    rw [← actions_trace hexec]
    exact List.mem_map_of_mem hp
  obtain ⟨call, -, heq⟩ := List.mem_map.mp hmem
  rw [← heq]
  rfl

/-- **Updating every owner consumes an entry**, when the pool is dry and there is one left. -/
theorem Orderly.progress (h : Orderly database order x) (hconn : database.isConnected = true)
    (hdry : Dry x.state) {calls : List (UInt64 × UInt64)}
    (hcalls : ∀ owner w, x.state.lookup owner = some w → ∃ call ∈ calls, call.1 = owner)
    (hgate : ∀ call ∈ calls, ∀ w, x.state.lookup call.1 = some w → w.object.idles call.2 = false)
    (hexec : exec (Family.step database) x (updates order calls) = some y) :
    remaining y.state < remaining x.state ∨ remaining x.state = 0 := by
  have haccounted := h.barriers.accounted
  by_cases hzero : remaining x.state = 0
  · exact Or.inr hzero
  left
  -- the first collection in the common order that some owner has not drained
  have hsome : ∃ collection ∈ order, SomeUndrained x.state collection := by
    rw [remaining_eq_zero haccounted] at hzero
    push Not at hzero
    obtain ⟨owner, w, hw, collection, info, hinfo, hne⟩ := hzero
    refine ⟨collection, ?_, owner, w, info, hw, hinfo, hne⟩
    exact (h.common owner w hw).mem_iff.mpr (Finmap.mem_of_lookup_eq_some hinfo)
  obtain ⟨collection, -, hundrained, hfirst⟩ := first_collection hsome
  obtain ⟨rank, bound, hranked⟩ := h.ranked
  obtain ⟨owner, w, info, hready⟩ := ready_of_oldest h.barriers hconn hdry hranked hundrained
  have hearlier : ∀ earlier ∈ order.takeWhile (· ≠ collection), ∀ info₀,
      w.object.collections.lookup earlier = some info₀ → info₀.firstId = info₀.currentId := by
    intro earlier hmem info₀ hinfo₀
    by_contra hne
    exact hfirst earlier hmem ⟨owner, w, info₀, hready.member, hinfo₀, hne⟩
  have hgate' : ∀ call ∈ calls, call.1 = owner → w.object.idles call.2 = false := by
    rintro call hcall rfl
    exact hgate call hcall w hready.member
  obtain ⟨w', info', hw', hinfo', hmoved⟩ := hready.updates haccounted h.common hearlier
    (h.flags owner w hready.member).1 hgate' (hcalls owner w hready.member) hexec
  obtain ⟨visited, hrun, hquiet⟩ := quiet_updates hexec
  have hle := (((h.run hrun hquiet).barriers.accounted owner w' hw').ledger hinfo').sound.first_le
  exact remaining_lt haccounted hrun hquiet hready.member hw' hready.queue hinfo' hmoved hle

theorem Orderly.round (h : Orderly database order x) (hround : Round database order x z) :
    Orderly database order z := by
  obtain ⟨y, y', calls, hfirst, -, -, hexec, hlast⟩ := hround
  obtain ⟨visited₁, hrun₁, hquiet₁⟩ := hfirst.quiet_run
  obtain ⟨visited₂, hrun₂, hquiet₂⟩ := quiet_updates hexec
  obtain ⟨visited₃, hrun₃, hquiet₃⟩ := hlast.quiet_run
  exact ((h.run hrun₁ hquiet₁).run hrun₂ hquiet₂).run hrun₃ hquiet₃

/-- **A round consumes an entry** as long as one is left. -/
theorem Orderly.round_lowers (h : Orderly database order x) (hconn : database.isConnected = true)
    (hround : Round database order x z) :
    remaining z.state < remaining x.state ∨ remaining z.state = 0 := by
  obtain ⟨y, y', calls, hfirst, hcalls, hgate, hexec, hlast⟩ := hround
  obtain ⟨visited₁, hrun₁, hquiet₁⟩ := hfirst.quiet_run
  obtain ⟨visited₂, hrun₂, hquiet₂⟩ := quiet_updates hexec
  obtain ⟨visited₃, hrun₃, hquiet₃⟩ := hlast.quiet_run
  have hy := h.run hrun₁ hquiet₁
  have hy' := hy.run hrun₂ hquiet₂
  have hle₁ := remaining_le h.barriers.accounted hrun₁ hquiet₁
  have hle₂ := remaining_le hy.barriers.accounted hrun₂ hquiet₂
  have hle₃ := remaining_le hy'.barriers.accounted hrun₃ hquiet₃
  rcases hy.progress hconn hfirst.1 hcalls hgate hexec with hlt | hzero
  · exact Or.inl (by omega)
  · exact Or.inr (by omega)

/-- **A round can always be made.** -/
theorem Orderly.exists_round (h : Orderly database order x) : ∃ z, Round database order x z := by
  classical
  obtain ⟨y, hfirst⟩ := exists_runsDry database x
  obtain ⟨visited, hrun, hquiet⟩ := hfirst.quiet_run
  have hy := h.run hrun hquiet
  have hgate : ∀ owner, ∃ diff, ∀ w, y.state.lookup owner = some w → w.object.idles diff = false := by
    intro owner
    cases y.state.lookup owner with
    | none => exact ⟨0, fun w hw => absurd hw (by simp)⟩
    | some w =>
        obtain ⟨diff, hdiff⟩ := exists_gate w.object
        exact ⟨diff, fun w' hw => Option.some.inj hw ▸ hdiff⟩
  choose diff hdiff using hgate
  let calls := y.state.keys.toList.map fun owner => (owner, diff owner)
  have hmem : ∀ call ∈ calls, ∃ w, y.state.lookup call.1 = some w := by
    intro call hcall
    obtain ⟨owner, howner, rfl⟩ := List.mem_map.mp hcall
    exact Finmap.mem_iff.mp (Finmap.mem_keys.mp (Finset.mem_toList.mp howner))
  obtain ⟨y', hexec⟩ := exec_updates hy.barriers.accounted hy.common hmem
  obtain ⟨z, hlast⟩ := exists_runsDry database y'
  refine ⟨z, y, y', calls, hfirst, ?_, ?_, hexec, hlast⟩
  · intro owner w hw
    refine ⟨(owner, diff owner), List.mem_map_of_mem ?_, rfl⟩
    exact Finset.mem_toList.mpr (Finmap.mem_keys.mpr (Finmap.mem_of_lookup_eq_some hw))
  · intro call hcall w hw
    obtain ⟨owner, -, rfl⟩ := List.mem_map.mp hcall
    exact hdiff owner w hw

end Rounds

/-! ## The end of the work -/

/-- In a dry pool, an object with nothing left is finished. -/
theorem Accounted.finished {database : Database} {v : Config (World doc callable) Event}
    (h : Accounted database v) (hconn : database.isConnected = true) (hdry : v.state.submitted = [])
    (hleft : ∀ collection info, v.state.object.collections.lookup collection = some info →
      info.firstId = info.currentId) : v.state.object.Finished := by
  intro collection info hinfo
  refine ⟨hleft collection info hinfo, fun id hop => ?_⟩
  obtain ⟨e, he, -⟩ := CollectionInfo.isOperation_iff.mp hop
  have hlt := (h.ledger hinfo).sound.lt_of_lookup he
  apply h.done_of_idle hconn hdry hinfo id
  exact CollectionInfo.mem_operationsBelow.mpr ⟨by rw [hleft collection info hinfo]; exact hlt, hop⟩

/-- A finished object that is flagged now is given up by its next update, unless a queue ends in a
dependency. -/
theorem Accounted.given_up_iff [Bson doc] {database : Database} {v : Config (World doc callable) Event}
    (h : Accounted database v) (hfinished : v.state.object.Finished)
    (hscheduled : v.state.object.scheduled = false) {order : List UInt8}
    (horder : Enumerates order v.state.object.collections) (diff : UInt64)
    (getter : Getter doc callable) :
    (v.state.object.flagDeletion.update diff order getter).1 = false ↔
      ∀ collection info, v.state.object.collections.lookup collection = some info →
        info.endsInDependency = false := by
  have hpresent : v.state.object.flagDeletion.AllPresent := h.allPresent
  have hanswer : (v.state.object.flagDeletion.update diff order getter).1 = false ↔
      v.state.object.flagDeletion.deletes order = true := by
    cases hdeletes : v.state.object.flagDeletion.deletes order with
    | true => simp only [update_of_deletes hdeletes]
    | false => simp [(update_of_keeps hpresent hdeletes diff getter).1]
  have hcheck : v.state.object.flagDeletion.deletes order = v.state.object.canDelete order := by
    simp only [Transaction.deletes, Transaction.flagDeletion, hscheduled, Bool.true_and, Bool.false_or]
    rfl
  rw [hanswer, hcheck, hfinished.canDelete_iff (fun hlookup => (h.ledger hlookup).sound) horder]

/-- Every run of unflagged owners with one common order is orderly. -/
theorem orderly_run [Bson doc] {database : Database}
    {objects : Finmap fun _ : UInt64 => UInt64 × Transaction doc callable}
    {visited : List (Config (Finmap fun _ : UInt64 => World doc callable) (UInt64 × Event) ×
      (UInt64 × Call doc callable))}
    {x : Config (Finmap fun _ : UInt64 => World doc callable) (UInt64 × Event)}
    (hrun : Run (Family.step database) (Family.start database objects) visited x)
    (hnames : Throughout NamesReturnedId visited)
    (hflagged : ∀ owner w, x.state.lookup owner = some w → w.object.flagged = false)
    {order : List UInt8} (horder : CommonOrder x.state order) : Orderly database order x := by
  obtain ⟨hbarriers, hranked⟩ := ranked_run hrun hnames
  refine ⟨hbarriers, hranked, horder, fun owner w hw => ⟨hflagged owner w hw, ?_⟩⟩
  have hscheduled : ∀ owner w, x.state.lookup owner = some w →
      Accounted database (memberConfig x owner w) ∧
        (w.object.scheduled = true → w.object.flagged = true) := by
    apply hrun.invariant' (fun x => ∀ owner w, x.state.lookup owner = some w →
      Accounted database (memberConfig x owner w) ∧
        (w.object.scheduled = true → w.object.flagged = true))
    · intro y z a hy hnext
      exact member_step (I := fun v => Accounted database v ∧
          (v.state.object.scheduled = true → v.state.object.flagged = true))
        (fun hv hstep => ⟨hv.1.step hstep, scheduled_step hv.1 hstep hv.2⟩) hy hnext
    · intro owner w hw
      refine ⟨Family.accounted_start database objects owner w hw, ?_⟩
      rw [Family.start, Finmap.lookup_mapVals] at hw
      obtain ⟨o, -, rfl⟩ := Option.map_eq_some_iff.mp hw
      simp [World.start, Transaction.init]
  by_contra hs
  have hflag := (hscheduled owner w hw).2 (by simpa using hs)
  exact absurd ((hflagged owner w hw).symm.trans hflag) (by simp)

/-- **Owners that push nothing more are done in bounded time.** Take a family of unflagged owners on a
connected database, whose collections iterate in one order and whose dependencies name returned ids, in any
state it reaches. If at most `n` entries of all its queues are not consumed, then `n + 1` rounds can be made,
and after any `n + 1` rounds every owner is finished: every entry is consumed and every operation and callable
is done. An owner flagged then is given up by its next update exactly if no queue of it ends in a dependency. -/
theorem drains_within_remaining [Bson doc] {database : Database} (hconn : database.isConnected = true)
    {objects : Finmap fun _ : UInt64 => UInt64 × Transaction doc callable}
    {visited : List (Config (Finmap fun _ : UInt64 => World doc callable) (UInt64 × Event) ×
      (UInt64 × Call doc callable))}
    {x : Config (Finmap fun _ : UInt64 => World doc callable) (UInt64 × Event)}
    (hrun : Run (Family.step database) (Family.start database objects) visited x)
    (hnames : Throughout NamesReturnedId visited)
    (hflagged : ∀ owner w, x.state.lookup owner = some w → w.object.flagged = false)
    {order : List UInt8} (horder : CommonOrder x.state order) {n : ℕ} (hn : remaining x.state ≤ n) :
    (∃ z, Rounds (Round database order) (n + 1) x z) ∧
    ∀ z, Rounds (Round database order) (n + 1) x z → ∀ owner w, z.state.lookup owner = some w →
      w.object.Finished ∧ w.submitted = [] ∧
      ∀ diff getter, (w.object.flagDeletion.update diff order getter).1 = false ↔
        ∀ collection info, w.object.collections.lookup collection = some info →
          info.endsInDependency = false := by
  have horderly := orderly_run hrun hnames hflagged horder
  have hkeep : ∀ x z : Config (Finmap fun _ : UInt64 => World doc callable) (UInt64 × Event),
      Orderly database order x → Round database order x z → Orderly database order z :=
    fun x z hx hround => hx.round hround
  refine ⟨Rounds.exist hkeep (fun x hx => hx.exists_round) horderly (n + 1), fun z hrounds owner w hw => ?_⟩
  have hz : Orderly database order z := hrounds.keeps hkeep horderly
  have hzero : remaining z.state = 0 :=
    hrounds.zero_of_le hkeep (fun y => remaining y.state) (fun x y hx hround => hx.round_lowers hconn hround)
      horderly (Nat.le_succ_of_le hn)
  -- the last round has left the pool dry
  have hdry : Dry z.state := by
    cases hrounds with
    | snoc _ hround =>
        obtain ⟨_, _, _, _, _, _, _, hlast⟩ := hround
        exact hlast.1
  have haccounted := hz.barriers.accounted
  have hfinished : w.object.Finished :=
    (haccounted owner w hw).finished hconn (hdry owner w hw)
      ((remaining_eq_zero haccounted).mp hzero owner w hw)
  exact ⟨hfinished, hdry owner w hw, fun diff getter =>
    (haccounted owner w hw).given_up_iff hfinished (hz.flags owner w hw).2 (hz.common owner w hw)
      diff getter⟩

/-- Owner 1 waits for owner 2, who has sent nothing yet: three entries, so four rounds are enough. -/
theorem drains_within_remaining_two_owners :
    ∃ (x z : Config (Finmap fun _ : UInt64 => World Unit Unit) (UInt64 × Event)),
      exec (Family.step .single) (Family.start .single twoOwners)
        [(2, .pushOperation 0 .insert ()), (1, .pushDependency 0 2 0),
          (1, .pushOperation 0 .insert ())] = some x ∧
      Rounds (Round .single [0]) 4 x z ∧
      ∀ owner w, z.state.lookup owner = some w → w.object.Finished := by
  obtain ⟨x, hx⟩ := Option.isSome_iff_exists.mp (show (exec (Family.step .single)
    (Family.start .single twoOwners)
    [(2, .pushOperation 0 .insert ()), (1, .pushDependency 0 2 0),
      (1, .pushOperation 0 .insert ())]).isSome = true by decide)
  have hnames : Throughout NamesReturnedId (trace (Family.step .single)
      (Family.start .single twoOwners)
      [(2, .pushOperation 0 .insert ()), (1, .pushDependency 0 2 0),
        (1, .pushOperation 0 .insert ())]) := by decide
  have hkeys : (some x).map (fun x => x.state.keys) = some {1, 2} := by
    rw [← hx]
    decide
  have hone : ((some x).bind fun x => x.state.lookup 1).map (fun w => (w.object.flagged,
      decide (Enumerates [0] w.object.collections))) = some (false, true) := by
    rw [← hx]
    decide
  have htwo : ((some x).bind fun x => x.state.lookup 2).map (fun w => (w.object.flagged,
      decide (Enumerates [0] w.object.collections))) = some (false, true) := by
    rw [← hx]
    decide
  have hleft : (some x).map (fun x => remaining x.state) = some 3 := by
    rw [← hx]
    decide
  replace hkeys : x.state.keys = {1, 2} := Option.some.inj hkeys
  have hall : ∀ owner w, x.state.lookup owner = some w →
      w.object.flagged = false ∧ Enumerates [0] w.object.collections := by
    intro owner w hw
    have howner : owner ∈ x.state.keys := Finmap.mem_keys.mpr (Finmap.mem_of_lookup_eq_some hw)
    rw [hkeys, Finset.mem_insert, Finset.mem_singleton] at howner
    rcases howner with rfl | rfl
    · simpa [hw] using hone
    · simpa [hw] using htwo
  obtain ⟨⟨z, hz⟩, hdone⟩ := drains_within_remaining (n := 3) rfl (run_trace hx) hnames
    (fun owner w hw => (hall owner w hw).1) (fun owner w hw => (hall owner w hw).2)
    (Nat.le_of_eq (Option.some.inj hleft))
  exact ⟨x, z, hx, hz, fun owner w hw => (hdone z hz owner w hw).1⟩

end Sekkeizu
