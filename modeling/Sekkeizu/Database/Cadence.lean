/-
# Sekkeizu.Database.Cadence — how often an object writes.

`update` adds up the time it is told and returns early until that reaches `execute_every`, unless a callable
is counted. The time of an early return is kept, the time of a pass is used up. `write_rate` bounds the passes
of a whole run from both sides by the time the object was told, and the tasks of a collection by the passes: no
collection gets more than one task per `execute_every`, callables apart, and none waits much longer. An `update`
that answers `false` returns before it looks at the time, which then counts for nothing.

The clock of the source is a 64-bit word, and the sum wraps. The bounds are for updates whose time leaves room
for `execute_every` in it.
-/
import Sekkeizu.Database.Ledger
import Sekkeizu.Semantics.Throttles


namespace Sekkeizu

open Finmap (Enumerates)
open PartialSystem
open DrivenSystem (Throttle)

variable {doc callable : Type*}

/-- The call is an `update` that does not answer `false`; the time it is told. -/
def Call.time (t : Transaction doc callable) : Call doc callable → Option UInt64
  | .update diff order _ => if t.deletes order then none else some diff
  | _ => none

/-- The call is an `update` that passes the gate. -/
def Call.passes (t : Transaction doc callable) (call : Call doc callable) : Bool :=
  match call.time t with
  | none => false
  | some diff => !t.idles diff

/-- It passes with a callable counted. -/
def Call.isForced (t : Transaction doc callable) (call : Call doc callable) : Bool :=
  call.passes t && t.pendingCallables != 0

/-- The gate after the call. -/
def Call.tell (t : Transaction doc callable) (call : Call doc callable) (g : Throttle) : Throttle :=
  match call.time t with
  | none => g
  | some diff => g.tell t.executeEvery.toNat (t.pendingCallables != 0) diff.toNat

section Steps

variable (visited : List (Config (World doc callable) Event × Call doc callable))

/-- How many updates of the run passed the gate. -/
def passes : Nat := visited.countP fun p => p.2.passes p.1.state.object

/-- How many of them with a callable counted. -/
def forcedPasses : Nat := visited.countP fun p => p.2.isForced p.1.state.object

/-- The time the updates of the run were told, those that answer `false` apart: such an update returns before it
looks at its time. -/
def timeTold : Nat := (visited.filterMap fun p => p.2.time p.1.state.object).map UInt64.toNat |>.sum

/-- The gate after the run. -/
def gateAfter : Throttle := visited.foldl (fun g p => p.2.tell p.1.state.object g) .new

end Steps

/-- The tasks that have been handed over for a collection. -/
def tasksFor (collection : UInt8) (history : List Event) : List Task :=
  (dispatchedTasks history).filter (·.collection = collection)

/-- No update is told more time than this. -/
def TimeAtMost (longest : Nat) (_ : Config (World doc callable) Event) (call : Call doc callable) : Prop :=
  ∀ diff order getter, call = .update diff order getter → diff.toNat ≤ longest

/-! ## What a call does to the clock -/

/-- The dispatch loop writes no clock. -/
theorem dispatch_clock [Bson doc] (getter : Getter doc callable) (order : List UInt8)
    {t : Transaction doc callable} (ht : t.AllPresent) :
    (t.dispatch getter order).1.sinceLastExecution = t.sinceLastExecution ∧
      (t.dispatch getter order).1.executeEvery = t.executeEvery := by
  induction order generalizing t with
  | nil => exact ⟨rfl, rfl⟩
  | cons first order ih =>
      cases hlookup : t.collections.lookup first with
      | none =>
          rw [dispatch_absent hlookup]
          exact ih ht
      | some info =>
          by_cases hdrained : info.firstId = info.currentId
          · rw [dispatch_drained hlookup hdrained]
            exact ih ht
          · by_cases hbatch : info.batch getter first = []
            · rw [dispatch_halts ht hlookup ⟨hdrained, hbatch⟩]
              exact ⟨rfl, rfl⟩
            · rw [dispatch_sends ht hlookup hbatch]
              exact ih (ht.scan hlookup)

theorem pushEntry_clock [Bson doc] {t t' : Transaction doc callable} {collection : UInt8} {slot : Nat}
    {write : TransactionInfo doc callable → TransactionInfo doc callable}
    (h : t.pushEntry collection write = some (slot, t')) :
    t'.sinceLastExecution = t.sinceLastExecution ∧ t'.executeEvery = t.executeEvery := by
  unfold Transaction.pushEntry at h
  cases hlookup : t.collections.lookup collection with
  | none => simp [hlookup] at h
  | some info =>
      simp only [hlookup, Option.some.injEq, Prod.mk.injEq] at h
      obtain ⟨-, rfl⟩ := h
      exact ⟨rfl, rfl⟩

/-- **Only an update writes the clock, or hands over a task.** -/
theorem quiet_step [Bson doc] {database : Database} {w w' : World doc callable} {call : Call doc callable}
    {evs : List Event} (hstep : World.step database w call = some (w', evs))
    (hcall : ∀ diff order getter, call ≠ .update diff order getter) :
    w'.object.sinceLastExecution = w.object.sinceLastExecution ∧
      w'.object.executeEvery = w.object.executeEvery ∧ dispatchedTasks evs = [] := by
  cases call with
  | pushOperation collection type operation =>
      obtain ⟨⟨slot, t⟩, hpush, heq⟩ := Option.map_eq_some_iff.mp hstep
      obtain ⟨rfl, rfl⟩ := Prod.mk.inj heq
      unfold Transaction.pushOperation at hpush
      split_ifs at hpush
      exact ⟨(pushEntry_clock hpush).1, (pushEntry_clock hpush).2, rfl⟩
  | pushOperation₂ collection type operation₁ operation₂ =>
      obtain ⟨⟨slot, t⟩, hpush, heq⟩ := Option.map_eq_some_iff.mp hstep
      obtain ⟨rfl, rfl⟩ := Prod.mk.inj heq
      unfold Transaction.pushOperation₂ at hpush
      split_ifs at hpush
      exact ⟨(pushEntry_clock hpush).1, (pushEntry_clock hpush).2, rfl⟩
  | pushCallable collection function =>
      obtain ⟨⟨slot, t⟩, hpush, heq⟩ := Option.map_eq_some_iff.mp hstep
      obtain ⟨rfl, rfl⟩ := Prod.mk.inj heq
      obtain ⟨⟨slot', t'⟩, hentry, heq'⟩ := Option.map_eq_some_iff.mp hpush
      obtain ⟨rfl, rfl⟩ := Prod.mk.inj heq'
      exact ⟨(pushEntry_clock hentry).1, (pushEntry_clock hentry).2, rfl⟩
  | pushDependency collection owner id =>
      obtain ⟨⟨slot, t⟩, hpush, heq⟩ := Option.map_eq_some_iff.mp hstep
      obtain ⟨rfl, rfl⟩ := Prod.mk.inj heq
      exact ⟨(pushEntry_clock hpush).1, (pushEntry_clock hpush).2, rfl⟩
  | update diff order getter => exact absurd rfl (hcall diff order getter)
  | flagDeletion =>
      obtain ⟨rfl, rfl⟩ := Prod.mk.inj (Option.some.inj hstep)
      exact ⟨rfl, rfl, rfl⟩
  | unflagDeletion =>
      obtain ⟨rfl, rfl⟩ := Prod.mk.inj (Option.some.inj hstep)
      exact ⟨rfl, rfl, rfl⟩
  | runTask position =>
      simp only [World.step] at hstep
      cases htask : w.submitted[position]? with
      | none => simp [htask] at hstep
      | some task =>
          simp only [htask] at hstep
          obtain ⟨rfl, rfl⟩ := Prod.mk.inj (Option.some.inj hstep)
          exact ⟨rfl, rfl, rfl⟩

/-- The early return, in numbers, when the sum of the clock does not wrap. -/
theorem idles_iff {t : Transaction doc callable} {diff : UInt64}
    (hroom : t.sinceLastExecution.toNat + diff.toNat < 2 ^ 64) :
    t.idles diff = true ↔ (t.pendingCallables != 0) = false ∧
      t.sinceLastExecution.toNat + diff.toNat < t.executeEvery.toNat := by
  rw [Transaction.idles, Bool.and_eq_true, decide_eq_true_iff, UInt64.lt_iff_toNat_lt,
    UInt64.toNat_add, Nat.mod_eq_of_lt hroom]
  simp

/-- A pass hands over at most one task for a collection. -/
theorem dispatch_length_le [Bson doc] {t : Transaction doc callable} (ht : t.AllPresent) {order : List UInt8}
    (horder : Enumerates order t.collections) (getter : Getter doc callable) (collection : UInt8) :
    ((t.dispatch getter order).2.filter (·.collection = collection)).length ≤ 1 := by
  by_cases hmem : collection ∈ order
  · by_cases hreached : Reached getter t order collection
    · obtain ⟨info, hlookup⟩ := Finmap.mem_iff.mp (horder.mem_iff.mp hmem)
      rw [(dispatch_of_reached ht horder.nodup hmem hlookup hreached).2, CollectionInfo.sentTasks]
      cases info.batch getter collection with
      | nil => exact Nat.zero_le 1
      | cons _ _ => exact Nat.le_refl 1
    · rw [(dispatch_of_not_reached ht horder.nodup hreached).2]
      exact Nat.zero_le 1
  · rw [(dispatch_of_notMem getter ht hmem).2]
    exact Nat.zero_le 1

/-! ## The gate over a run -/

/-- **The gate of an object and the gate that counts**: they hold the same time, the counts are those of the
run, and the tasks of a collection are no more than the passes. -/
structure Cadence (database : Database) (executeEvery : UInt64) (longest : Nat)
    (visited : List (Config (World doc callable) Event × Call doc callable))
    (x : Config (World doc callable) Event) : Prop where
  every : x.state.object.executeEvery = executeEvery
  level : (gateAfter visited).level = x.state.object.sinceLastExecution.toNat
  paced : (gateAfter visited).Paced executeEvery.toNat longest
  timed : (gateAfter visited).timed + forcedPasses visited = passes visited
  forced : (gateAfter visited).forced = forcedPasses visited
  total : (gateAfter visited).total = timeTold visited
  tasks : ∀ collection, (tasksFor collection x.history).length ≤ passes visited

section Snoc

variable (visited : List (Config (World doc callable) Event × Call doc callable))
variable (x : Config (World doc callable) Event) (call : Call doc callable)

theorem gateAfter_snoc :
    gateAfter (visited ++ [(x, call)]) = call.tell x.state.object (gateAfter visited) := by
  rw [gateAfter, List.foldl_append]
  rfl

theorem passes_snoc :
    passes (visited ++ [(x, call)]) = passes visited + (call.passes x.state.object).toNat := by
  rw [passes, List.countP_append]
  cases h : call.passes x.state.object <;> simp [passes, h]

theorem forcedPasses_snoc :
    forcedPasses (visited ++ [(x, call)]) =
      forcedPasses visited + (call.isForced x.state.object).toNat := by
  rw [forcedPasses, List.countP_append]
  cases h : call.isForced x.state.object <;> simp [forcedPasses, h]

theorem timeTold_snoc :
    timeTold (visited ++ [(x, call)]) =
      timeTold visited + ((call.time x.state.object).map UInt64.toNat).getD 0 := by
  rw [timeTold, List.filterMap_append, List.map_append, List.sum_append]
  cases h : call.time x.state.object <;> simp [timeTold, h]

end Snoc

theorem tasksFor_append (collection : UInt8) (h₁ h₂ : List Event) :
    tasksFor collection (h₁ ++ h₂) = tasksFor collection h₁ ++ tasksFor collection h₂ := by
  rw [tasksFor, dispatchedTasks_append, List.filter_append]
  rfl

namespace Cadence

variable {database : Database} {executeEvery : UInt64} {longest : Nat}
variable {visited : List (Config (World doc callable) Event × Call doc callable)}
variable {x : Config (World doc callable) Event}

/-- A call that is told no time leaves all of it alone. -/
theorem quiet (h : Cadence database executeEvery longest visited x) {call : Call doc callable}
    {w : World doc callable} {evs : List Event} (htime : call.time x.state.object = none)
    (hclock : w.object.sinceLastExecution = x.state.object.sinceLastExecution ∧
      w.object.executeEvery = x.state.object.executeEvery ∧ dispatchedTasks evs = []) :
    Cadence database executeEvery longest (visited ++ [(x, call)]) ⟨w, x.history ++ evs⟩ := by
  have hgate : gateAfter (visited ++ [(x, call)]) = gateAfter visited := by
    rw [gateAfter_snoc, Call.tell, htime]
  have hpass : call.passes x.state.object = false := by
    rw [Call.passes, htime]
  have hpasses : passes (visited ++ [(x, call)]) = passes visited := by
    rw [passes_snoc, hpass]
    rfl
  have hforced : forcedPasses (visited ++ [(x, call)]) = forcedPasses visited := by
    rw [forcedPasses_snoc, Call.isForced, hpass]
    rfl
  have htold : timeTold (visited ++ [(x, call)]) = timeTold visited := by
    rw [timeTold_snoc, htime]
    rfl
  refine ⟨hclock.2.1.trans h.every, ?_, ?_, ?_, ?_, ?_, fun collection => ?_⟩
  · rw [hgate, h.level, hclock.1]
  · rw [hgate]
    exact h.paced
  · rw [hgate, hforced, hpasses]
    exact h.timed
  · rw [hgate, hforced]
    exact h.forced
  · rw [hgate, htold]
    exact h.total
  · rw [tasksFor_append, hpasses, show tasksFor collection evs = [] by simp [tasksFor, hclock.2.2],
      List.append_nil]
    exact h.tasks collection

variable [Bson doc]

/-- An update that is kept moves both gates alike. -/
theorem update (h : Cadence database executeEvery longest visited x)
    (hfits : executeEvery.toNat + longest < 2 ^ 64) (ht : x.state.object.AllPresent) {diff : UInt64}
    {order : List UInt8} {getter : Getter doc callable} (hdiff : diff.toNat ≤ longest)
    (horder : Enumerates order x.state.object.collections)
    (hkept : x.state.object.deletes order = false) (submitted : List Task) :
    Cadence database executeEvery longest (visited ++ [(x, .update diff order getter)])
      ⟨⟨(x.state.object.update diff order getter).2.1, submitted⟩,
        x.history ++ ((x.state.object.update diff order getter).2.2.map .dispatched ++
          [.returned (x.state.object.update diff order getter).1])⟩ := by
  have htime : Call.time x.state.object (.update diff order getter) = some diff := by
    rw [Call.time, hkept]
    rfl
  have hroom : x.state.object.sinceLastExecution.toNat + diff.toNat < 2 ^ 64 := by
    have := h.paced.level_le
    rw [h.level] at this
    omega
  have hpaced := h.paced.tell hdiff (x.state.object.pendingCallables != 0)
  have hgate : gateAfter (visited ++ [(x, .update diff order getter)]) =
      (gateAfter visited).tell executeEvery.toNat (x.state.object.pendingCallables != 0) diff.toNat := by
    rw [gateAfter_snoc, Call.tell, htime, h.every]
  have htold : timeTold (visited ++ [(x, .update diff order getter)]) =
      timeTold visited + diff.toNat := by
    rw [timeTold_snoc, htime]
    rfl
  have hpasses : Call.passes x.state.object (.update diff order getter) =
      !x.state.object.idles diff := by
    rw [Call.passes, htime]
  have hforcedPass : Call.isForced x.state.object (.update diff order getter) =
      (!x.state.object.idles diff && x.state.object.pendingCallables != 0) := by
    rw [Call.isForced, hpasses]
  cases hidle : x.state.object.idles diff with
  | true =>
      -- held: the time is added on both sides
      obtain ⟨hforce, hless⟩ := (idles_iff hroom).mp hidle
      have hupdate : x.state.object.update diff order getter = (true, { x.state.object with
          sinceLastExecution := x.state.object.sinceLastExecution + diff }, []) := by
        rw [Transaction.update, if_neg (by simp [hkept]), if_pos hidle]
      have hheld : gateAfter (visited ++ [(x, .update diff order getter)]) =
          ⟨(gateAfter visited).level + diff.toNat, (gateAfter visited).timed,
            (gateAfter visited).forced, (gateAfter visited).total + diff.toNat⟩ := by
        rw [hgate, Throttle.tell, hforce, if_neg Bool.false_ne_true, if_neg]
        rw [h.level, ← h.every]
        omega
      rw [hidle] at hpasses hforcedPass
      rw [hupdate]
      refine ⟨h.every, ?_, hgate ▸ hpaced, ?_, ?_, ?_, fun collection => ?_⟩
      · rw [hheld, h.level]
        show _ = (x.state.object.sinceLastExecution + diff).toNat
        rw [UInt64.toNat_add, Nat.mod_eq_of_lt hroom]
      · rw [hheld, forcedPasses_snoc, passes_snoc, hpasses, hforcedPass]
        exact h.timed
      · rw [hheld, forcedPasses_snoc, hforcedPass]
        exact h.forced
      · rw [hheld, htold, ← h.total]
      · rw [tasksFor_append, passes_snoc, hpasses, List.length_append]
        exact h.tasks collection
  | false =>
      -- passed: nothing is held on either side
      have hupdate : x.state.object.update diff order getter =
          (true, { x.state.object with sinceLastExecution := 0 }.dispatch getter order) := by
        rw [Transaction.update, if_neg (by simp [hkept]), if_neg (by simp [hidle])]
      have ht' : { x.state.object with sinceLastExecution := 0 }.AllPresent := ht
      have hopened : gateAfter (visited ++ [(x, .update diff order getter)]) =
          ⟨0, (gateAfter visited).timed + (!(x.state.object.pendingCallables != 0)).toNat,
            (gateAfter visited).forced + (x.state.object.pendingCallables != 0).toNat,
            (gateAfter visited).total + diff.toNat⟩ := by
        rw [hgate, Throttle.tell]
        cases hforce : (x.state.object.pendingCallables != 0) with
        | true => rfl
        | false =>
            have hreached : ¬ (x.state.object.sinceLastExecution.toNat + diff.toNat <
                x.state.object.executeEvery.toNat) := by
              intro hless
              have hidles := (idles_iff hroom).mpr ⟨hforce, hless⟩
              exact absurd (hidle.symm.trans hidles) (by simp)
            rw [if_neg Bool.false_ne_true, if_pos]
            · rfl
            · rw [h.level, ← h.every]
              omega
      rw [hidle, Bool.not_false] at hpasses hforcedPass
      rw [Bool.true_and] at hforcedPass
      rw [hupdate]
      refine ⟨(dispatch_clock getter order ht').2.trans h.every, ?_, hgate ▸ hpaced, ?_, ?_, ?_,
        fun collection => ?_⟩
      · rw [hopened, (dispatch_clock getter order ht').1]
        rfl
      · rw [hopened, forcedPasses_snoc, passes_snoc, hpasses, hforcedPass, ← h.timed]
        cases (x.state.object.pendingCallables != 0)
        · show _ + 1 + (_ + 0) = _ + _ + 1
          omega
        · show _ + 0 + (_ + 1) = _ + _ + 1
          omega
      · rw [hopened, forcedPasses_snoc, hforcedPass, ← h.forced]
      · rw [hopened, htold, ← h.total]
      · rw [tasksFor_append, passes_snoc, hpasses, List.length_append]
        apply Nat.add_le_add (h.tasks collection)
        show ((dispatchedTasks _).filter _).length ≤ 1
        rw [dispatchedTasks_update]
        exact dispatch_length_le ht' horder getter collection

/-- **Every step keeps it.** -/
theorem step (h : Cadence database executeEvery longest visited x)
    (hfits : executeEvery.toNat + longest < 2 ^ 64) (haccounted : Accounted database x)
    {call : Call doc callable} (hshort : TimeAtMost longest x call)
    {y : Config (World doc callable) Event} (hnext : (World.step database).next x call = some y) :
    Cadence database executeEvery longest (visited ++ [(x, call)]) y := by
  obtain ⟨w, evs, hstep, rfl⟩ := Step.next_eq_some.mp hnext
  by_cases hcall : ∃ diff order getter, call = .update diff order getter
  · obtain ⟨diff, order, getter, rfl⟩ := hcall
    cases fires_of_step hstep with
    | push _ _ _ _ _ _ hwrite => exact absurd hwrite.isPush (by simp [Call.isPush])
    | update _ _ _ horder =>
        cases hdeletes : x.state.object.deletes order with
        | true =>
            apply h.quiet
            · rw [Call.time, hdeletes]
              rfl
            · rw [Transaction.update, if_pos hdeletes]
              exact ⟨rfl, rfl, rfl⟩
        | false =>
            exact h.update hfits haccounted.allPresent (hshort diff order getter rfl) horder hdeletes _
  · have hother : ∀ diff order getter, call ≠ .update diff order getter :=
      fun diff order getter heq => hcall ⟨diff, order, getter, heq⟩
    refine h.quiet ?_ (quiet_step hstep hother)
    cases call with
    | update diff order getter => exact absurd rfl (hother diff order getter)
    | _ => rfl

end Cadence

theorem cadence_start (database : Database) (executeEvery : UInt64) (longest : Nat)
    (t : Transaction doc callable) :
    Cadence database executeEvery longest [] (World.start database executeEvery t) where
  every := rfl
  level := rfl
  paced := Throttle.paced_new _ _
  timed := rfl
  forced := rfl
  total := rfl
  tasks := fun _ => Nat.le_refl 0

theorem cadence_run [Bson doc] {database : Database} {executeEvery : UInt64} {longest : Nat}
    (hfits : executeEvery.toNat + longest < 2 ^ 64) {t : Transaction doc callable}
    {visited : List (Config (World doc callable) Event × Call doc callable)}
    {x : Config (World doc callable) Event}
    (hrun : Run (World.step database) (World.start database executeEvery t) visited x)
    (hshort : Throughout (TimeAtMost longest) visited) :
    Cadence database executeEvery longest visited x := by
  induction hrun with
  | start => exact cadence_start database executeEvery longest t
  | snoc hinit hnext ih =>
      rw [throughout_snoc] at hshort
      exact (ih hshort.1).step hfits (accounted_run hinit) hshort.2 hnext

/-- **The write rate.** In every run from `init` with an `execute_every`, in which no update is told more time
than `longest` and the two fit the clock: a collection gets no more tasks than updates pass; an update that
passes without a callable counted uses up `execute_every` of the time told; and the time told is used up by
`execute_every` and `longest` for each pass, but for less than another `execute_every`. The time told to an
update that answers `false` is not counted. -/
theorem write_rate [Bson doc] {database : Database} {executeEvery : UInt64} {longest : Nat}
    (hfits : executeEvery.toNat + longest < 2 ^ 64) {t : Transaction doc callable}
    {visited : List (Config (World doc callable) Event × Call doc callable)}
    {x : Config (World doc callable) Event}
    (hrun : Run (World.step database) (World.start database executeEvery t) visited x)
    (hshort : Throughout (TimeAtMost longest) visited) :
    (∀ collection, (tasksFor collection x.history).length ≤ passes visited) ∧
      passes visited * executeEvery.toNat ≤
        timeTold visited + forcedPasses visited * executeEvery.toNat ∧
      timeTold visited ≤
        passes visited * (executeEvery.toNat + longest) + x.state.object.sinceLastExecution.toNat ∧
      (x.state.object.sinceLastExecution.toNat < executeEvery.toNat ∨
        x.state.object.sinceLastExecution = 0) := by
  have h := cadence_run hfits hrun hshort
  have hlower := h.paced.timed_le
  have hupper := h.paced.total_le
  have hheld := h.paced.held
  rw [h.level] at hlower hupper hheld
  rw [h.total] at hlower hupper
  rw [h.forced, h.timed] at hupper
  refine ⟨h.tasks, ?_, hupper, hheld.imp id fun hzero => ?_⟩
  · rw [← h.timed, Nat.add_mul]
    omega
  · exact UInt64.toNat_inj.mp hzero

instance (longest : Nat) (x : Config (World doc callable) Event) (call : Call doc callable) :
    Decidable (TimeAtMost longest x call) :=
  match call with
  | .update diff order getter => decidable_of_iff (diff.toNat ≤ longest) (by simp [TimeAtMost])
  | .pushOperation .. => .isTrue (by simp [TimeAtMost])
  | .pushOperation₂ .. => .isTrue (by simp [TimeAtMost])
  | .pushCallable .. => .isTrue (by simp [TimeAtMost])
  | .pushDependency .. => .isTrue (by simp [TimeAtMost])
  | .flagDeletion => .isTrue (by simp [TimeAtMost])
  | .unflagDeletion => .isTrue (by simp [TimeAtMost])
  | .runTask _ => .isTrue (by simp [TimeAtMost])

/-- Writes every 200 ms, sent every 500 ms: of four updates the third one passes. -/
def fourUpdates : List (Call Unit Unit) :=
  [.pushOperation 0 .insert (), .update 200 [0] .unknown, .pushOperation 0 .insert (),
    .update 200 [0] .unknown, .pushOperation 0 .insert (), .update 200 [0] .unknown,
    .pushOperation 0 .insert (), .update 200 [0] .unknown]

theorem write_rate_four_updates :
    ∃ (visited : List (Config (World Unit Unit) Event × Call Unit Unit))
      (x : Config (World Unit Unit) Event),
      visited.map Prod.snd = fourUpdates ∧
      Run (World.step .single) (World.start .single 500 .blank) visited x ∧
      passes visited = 1 ∧ timeTold visited = 800 ∧
      (tasksFor 0 x.history).length ≤ 1 ∧ 1 * 500 ≤ timeTold visited + forcedPasses visited * 500 ∧
      timeTold visited ≤ 1 * (500 + 200) + x.state.object.sinceLastExecution.toNat := by
  obtain ⟨x, hx⟩ := Option.isSome_iff_exists.mp (show (exec (World.step .single)
    (World.start .single 500 (Transaction.blank : Transaction Unit Unit)) fourUpdates).isSome = true
    by decide)
  have hshort : Throughout (TimeAtMost 200) (trace (World.step .single)
      (World.start .single 500 (Transaction.blank : Transaction Unit Unit)) fourUpdates) := by decide
  have hcounts : (fun visited => (passes visited, timeTold visited)) (trace (World.step .single)
      (World.start .single 500 (Transaction.blank : Transaction Unit Unit)) fourUpdates) = (1, 800) := by
    decide
  obtain ⟨hpasses, htold⟩ := Prod.mk.inj hcounts
  obtain ⟨htasks, hlower, hupper, -⟩ := write_rate (by decide) (run_trace hx) hshort
  rw [hpasses] at htasks hlower hupper
  exact ⟨_, x, actions_trace hx, run_trace hx, hpasses, htold, htasks 0, hlower, hupper⟩

end Sekkeizu
