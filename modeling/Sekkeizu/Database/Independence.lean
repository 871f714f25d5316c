/-
# Sekkeizu.Database.Independence — what one collection's share of an `update` depends on.

The dispatch loop leaves a collection's queue to its own scan, but whether it gets there at all is up
to the collections iterated before it: one with entries left and nothing to send ends the loop
(`break`, where a drained one is skipped with `continue`). Such a queue has no operation ahead of its
first unmet dependency (`Stalls`).

`outcome_eq_iff` compares two updates, of two objects, that see the same queue and the same dependency
answers for a collection: they treat it alike exactly when its scan would not move anyway, or both or
neither of them meets a stalled collection first. `stalled_collection_blocks_another` is the case of one
object and two iteration orders.
-/
import Sekkeizu.Database.Ledger


namespace Sekkeizu

open Finmap (Enumerates)
open PartialSystem

variable {doc callable : Type*}

/-! ## Where a scan stops, read off the queue -/

section Stalls

variable [Bson doc] (getter : Getter doc callable) (collection : UInt8) (info : CollectionInfo doc callable)

/-- The entry at `slot` is a dependency that is not met. -/
def CollectionInfo.Unmet (slot : Nat) : Prop :=
  ∃ d, (info.entry slot).dependency = some d ∧ dependencyMet getter collection slot d = false

/-- Entries are left, and every operation among them has an unmet dependency ahead of it. -/
def CollectionInfo.Stalls : Prop :=
  info.firstId ≠ info.currentId ∧
    ∀ id, info.firstId ≤ id → info.isOperation id = true →
      ∃ slot, info.firstId ≤ slot ∧ slot < id ∧ info.Unmet getter collection slot

/-- The scan stays where it is: nothing is left, or the head is an unmet dependency. -/
def CollectionInfo.Stays : Prop :=
  info.firstId = info.currentId ∨ info.Unmet getter collection info.firstId

end Stalls

section Queue

variable {getter : Getter doc callable} {collection : UInt8} {info : CollectionInfo doc callable}

/-- The scan takes a fresh operation at its head. -/
theorem acceptEntry_operation {e : TransactionInfo doc callable} {id : Nat}
    (hfresh : e.pending = false ∧ e.done = false) (hop : e.dependency = none) :
    ∃ mode, acceptEntry getter collection (false, false) (id, e) = some mode := by
  unfold acceptEntry
  simp only [hfresh.1, hfresh.2, hop]
  cases e.callable with
  | none => simp
  | some f => simp

/-- It passes a fresh dependency that is met, with its flags unchanged. -/
theorem acceptEntry_met {e : TransactionInfo doc callable} {id : Nat} {d : Dependency}
    {mode : Bool × Bool} (hfresh : e.pending = false ∧ e.done = false)
    (hdep : e.dependency = some d) (hmet : dependencyMet getter collection id d = true) :
    acceptEntry getter collection mode (id, e) = some mode := by
  unfold acceptEntry
  simp [hfresh.1, hfresh.2, hdep, hmet]

/-- The scan reads nothing of the getter but the dependency answers. -/
theorem acceptEntry_congr {getter₁ getter₂ : Getter doc callable} {collection : UInt8}
    (h : ∀ slot d, dependencyMet getter₁ collection slot d = dependencyMet getter₂ collection slot d) :
    acceptEntry getter₁ collection = acceptEntry getter₂ collection := by
  funext mode q
  unfold acceptEntry
  simp only [h]

variable [Bson doc]

/-- **The scan sends something as soon as one operation has no unmet dependency ahead of it.** The
least operation is reached over met dependencies only. -/
theorem batch_ne_nil_of_operation (h : info.Sound) {id : Nat} (hle : info.firstId ≤ id)
    (hop : info.isOperation id = true)
    (hmet : ∀ slot, info.firstId ≤ slot → slot < id → ¬ info.Unmet getter collection slot) :
    info.batch getter collection ≠ [] := by
  classical
  have hexists : ∃ k, info.firstId ≤ k ∧ info.isOperation k = true := ⟨id, hle, hop⟩
  obtain ⟨hlow, hleast⟩ := Nat.find_spec hexists
  have hmin : ∀ k, info.firstId ≤ k → k < Nat.find hexists → info.isOperation k = false := by
    intro k hk hlt
    have := Nat.find_min hexists hlt
    simpa [hk] using this
  have hfind : Nat.find hexists ≤ id := Nat.find_min' hexists ⟨hle, hop⟩
  generalize Nat.find hexists = least at hlow hleast hmin hfind
  obtain ⟨e, he, hdep⟩ := CollectionInfo.isOperation_iff.mp hleast
  have hcurrent := h.lt_of_lookup he
  -- the queue: dependencies up to `least`, then `least`, then the rest
  obtain ⟨n, hn⟩ : ∃ n, info.currentId - info.firstId = (least - info.firstId) + (n + 1) :=
    ⟨info.currentId - least - 1, by omega⟩
  have hqueue : info.queue = entriesFrom info.transactions info.firstId (least - info.firstId) ++
      (least, e) :: entriesFrom info.transactions (least + 1) n := by
    rw [CollectionInfo.queue, hn, entriesFrom, ← List.range'_append_1, List.map_append,
      show info.firstId + (least - info.firstId) = least by omega]
    have hhead := entriesFrom_succ info.transactions least n
    rw [he, Option.getD_some] at hhead
    exact congrArg (_ ++ ·) hhead
  have hstays : ∀ q ∈ entriesFrom info.transactions info.firstId (least - info.firstId),
      acceptEntry getter collection (false, false) q = some (false, false) := by
    intro q hq
    obtain ⟨k, hk, rfl⟩ := List.mem_map.mp hq
    obtain ⟨hk₁, hk₂⟩ := List.mem_range'_1.mp hk
    have hlookup := h.lookup_eq (show k < info.currentId by omega)
    have hnotOp := hmin k hk₁ (by omega)
    simp only [CollectionInfo.isOperation, hlookup] at hnotOp
    rw [hlookup, Option.getD_some]
    cases hd : (info.entry k).dependency with
    | none => simp [hd] at hnotOp
    | some d =>
        apply acceptEntry_met (h.fresh hk₁ hlookup) hd
        have hnot := hmet k hk₁ (by omega)
        by_contra hunmet
        exact hnot ⟨d, hd, by simpa using hunmet⟩
  have haccept : ∃ mode, acceptEntry getter collection (false, false) (least, e) = some mode :=
    acceptEntry_operation (h.fresh hlow he) hdep
  obtain ⟨mode, hmode⟩ := haccept
  have hconsumed : info.consumed getter collection =
      entriesFrom info.transactions info.firstId (least - info.firstId) ++
        (least, e) :: Scanner.consumed (acceptEntry getter collection) mode
          (entriesFrom info.transactions (least + 1) n) := by
    rw [CollectionInfo.consumed, hqueue, Scanner.consumed_append_of_stays hstays,
      Scanner.consumed_taken hmode]
  have hmem : least ∈ info.batch getter collection := by
    rw [h.mem_batch]
    refine ⟨hlow, ?_, hleast⟩
    rw [hconsumed]
    simp [entriesFrom]
    omega
  exact List.ne_nil_of_mem hmem

/-- What `Halts` comes to, without the scan. -/
theorem halts_iff_stalls (h : info.Sound) :
    info.Halts getter collection ↔ info.Stalls getter collection := by
  refine and_congr_right fun _ => ⟨fun hbatch id hle hop => ?_, fun hstalls => ?_⟩
  · by_contra hnone
    refine batch_ne_nil_of_operation h hle hop (fun slot hslot hlt hunmet => ?_) hbatch
    exact hnone ⟨slot, hslot, hlt, hunmet⟩
  · apply List.eq_nil_iff_forall_not_mem.mpr
    intro id hid
    obtain ⟨hle, hlt, hop⟩ := (h.mem_batch getter collection).mp hid
    obtain ⟨slot, hslot, hbelow, d, hd, hunmet⟩ := hstalls id hle hop
    have hconsumed := h.consumed_length_le getter collection
    have hmet := h.met_of_consumed getter collection hslot (by omega)
      (h.lookup_eq (show slot < info.currentId by omega)) hd
    exact absurd (hunmet.symm.trans hmet) (by simp)

/-- What `Stays` says: the scan consumes nothing. -/
theorem consumed_eq_nil_iff_stays (h : info.Sound) :
    info.consumed getter collection = [] ↔ info.Stays getter collection := by
  have hfirst := h.first_le
  constructor
  · intro hnil
    by_contra hstays
    obtain ⟨hne, hhead⟩ := not_or.mp hstays
    refine h.consumed_ne_nil getter collection (by omega) (fun d hd => ?_) hnil
    by_contra hunmet
    exact hhead ⟨d, hd, by simpa using hunmet⟩
  · rintro (hdrained | ⟨d, hd, hunmet⟩)
    · have := h.consumed_length_le getter collection
      exact List.eq_nil_of_length_eq_zero (by omega)
    · by_contra hne
      have hpos := List.length_pos_of_ne_nil hne
      have hle := h.consumed_length_le getter collection
      have hmet := h.met_of_consumed getter collection (Nat.le_refl _) (by omega)
        (h.lookup_eq (show info.firstId < info.currentId by omega)) hd
      exact absurd (hunmet.symm.trans hmet) (by simp)

end Queue

/-! ## One update, seen from one collection -/

variable [Bson doc]

/-- An update's share for one collection: the tasks handed over for it and the new `firstId`. -/
def Transaction.outcome (diff : UInt64) (order : List UInt8) (getter : Getter doc callable)
    (collection : UInt8) (t : Transaction doc callable) : List Task × Option Nat :=
  let r := t.update diff order getter
  (r.2.2.filter (·.collection = collection),
    (r.2.1.collections.lookup collection).map CollectionInfo.firstId)

/-- Some collection iterated before this one is stalled. -/
def MeetsStalled (getter : Getter doc callable) (t : Transaction doc callable) (order : List UInt8)
    (collection : UInt8) : Prop :=
  ∃ earlier ∈ order.takeWhile (· ≠ collection), ∃ info,
    t.collections.lookup earlier = some info ∧ info.Stalls getter earlier

theorem meetsStalled_iff {database : Database} {x : Config (World doc callable) Event}
    (h : Accounted database x) {getter : Getter doc callable} {order : List UInt8}
    {collection : UInt8} :
    MeetsStalled getter x.state.object order collection ↔
      ¬ Reached getter x.state.object order collection := by
  unfold MeetsStalled Reached
  push Not
  refine exists_congr fun earlier => and_congr_right fun _ => exists_congr fun info => ?_
  apply and_congr_right
  intro hlookup
  exact (halts_iff_stalls (h.ledger hlookup).sound).symm

/-- Past the gate a collection is scanned once, unless a stalled one comes first. -/
theorem outcome_eq {database : Database} {x : Config (World doc callable) Event}
    (h : Accounted database x) (getter : Getter doc callable) {diff : UInt64} {order : List UInt8}
    (horder : Enumerates order x.state.object.collections)
    (hdeletes : x.state.object.deletes order = false) (hidles : x.state.object.idles diff = false)
    {collection : UInt8} {info : CollectionInfo doc callable}
    (hlookup : x.state.object.collections.lookup collection = some info)
    [Decidable (MeetsStalled getter x.state.object order collection)] :
    x.state.object.outcome diff order getter collection =
      if MeetsStalled getter x.state.object order collection then ([], some info.firstId)
      else (info.sentTasks getter collection,
        some (info.firstId + (info.consumed getter collection).length)) := by
  have hupdate : x.state.object.update diff order getter =
      (true, { x.state.object with sinceLastExecution := 0 }.dispatch getter order) := by
    rw [Transaction.update, if_neg (by simp [hdeletes]), if_neg (by simp [hidles])]
  have ht : { x.state.object with sinceLastExecution := 0 }.AllPresent := h.allPresent
  simp only [Transaction.outcome, hupdate]
  split_ifs with hstalled
  · obtain ⟨hsame, hnone⟩ :=
      dispatch_of_not_reached ht horder.nodup ((meetsStalled_iff h).mp hstalled)
    rw [hsame, hnone]
    dsimp only
    rw [hlookup, Option.map_some]
  · have hmem := horder.mem_iff.mpr (Finmap.mem_of_lookup_eq_some hlookup)
    obtain ⟨hscanned, htasks⟩ := dispatch_of_reached ht horder.nodup hmem hlookup
      (not_not.mp ((meetsStalled_iff h).not.mp hstalled))
    rw [hscanned, htasks]
    rfl

theorem sentTasks_of_consumed_nil {getter : Getter doc callable} {collection : UInt8}
    {info : CollectionInfo doc callable} (h : info.consumed getter collection = []) :
    info.sentTasks getter collection = [] :=
  sentTasks_nil (by rw [CollectionInfo.batch, h]; rfl)

/-- **What a collection's share depends on.** Two updates past their gates, of objects reached by any
two runs, that see the same queue and the same dependency answers for a collection, have the same
outcome for it exactly when its scan would not move, or a stalled collection comes first in both
iterations or in neither. -/
theorem outcome_eq_iff {database₁ database₂ : Database} {executeEvery₁ executeEvery₂ : UInt64}
    {t₁ t₂ : Transaction doc callable}
    {visited₁ visited₂ : List (Config (World doc callable) Event × Call doc callable)}
    {x₁ x₂ : Config (World doc callable) Event}
    (hrun₁ : Run (World.step database₁) (World.start database₁ executeEvery₁ t₁) visited₁ x₁)
    (hrun₂ : Run (World.step database₂) (World.start database₂ executeEvery₂ t₂) visited₂ x₂)
    {diff₁ diff₂ : UInt64} {order₁ order₂ : List UInt8} {getter₁ getter₂ : Getter doc callable}
    (horder₁ : Enumerates order₁ x₁.state.object.collections)
    (horder₂ : Enumerates order₂ x₂.state.object.collections)
    (hdeletes₁ : x₁.state.object.deletes order₁ = false)
    (hdeletes₂ : x₂.state.object.deletes order₂ = false)
    (hidles₁ : x₁.state.object.idles diff₁ = false)
    (hidles₂ : x₂.state.object.idles diff₂ = false)
    {collection : UInt8} {info : CollectionInfo doc callable}
    (hlookup₁ : x₁.state.object.collections.lookup collection = some info)
    (hlookup₂ : x₂.state.object.collections.lookup collection = some info)
    (hmet : ∀ slot d,
      dependencyMet getter₁ collection slot d = dependencyMet getter₂ collection slot d) :
    x₁.state.object.outcome diff₁ order₁ getter₁ collection =
        x₂.state.object.outcome diff₂ order₂ getter₂ collection ↔
      info.Stays getter₁ collection ∨
        (MeetsStalled getter₁ x₁.state.object order₁ collection ↔
          MeetsStalled getter₂ x₂.state.object order₂ collection) := by
  classical
  have h₁ := accounted_run hrun₁
  have h₂ := accounted_run hrun₂
  have hscan := acceptEntry_congr hmet
  have hconsumed : info.consumed getter₂ collection = info.consumed getter₁ collection := by
    rw [CollectionInfo.consumed, CollectionInfo.consumed, hscan]
  have htasks : info.sentTasks getter₂ collection = info.sentTasks getter₁ collection := by
    simp only [CollectionInfo.sentTasks, CollectionInfo.batch, CollectionInfo.hasNonCallable,
      hconsumed, hscan]
  rw [outcome_eq h₁ getter₁ horder₁ hdeletes₁ hidles₁ hlookup₁,
    outcome_eq h₂ getter₂ horder₂ hdeletes₂ hidles₂ hlookup₂, hconsumed, htasks,
    ← consumed_eq_nil_iff_stays (h₁.ledger hlookup₁).sound]
  -- a scan that moves cannot look like no scan
  have hmoves : ∀ tasks, ((tasks, some info.firstId) : List Task × Option Nat) =
      (info.sentTasks getter₁ collection,
        some (info.firstId + (info.consumed getter₁ collection).length)) →
      info.consumed getter₁ collection = [] := by
    intro tasks heq
    have := Option.some.inj (Prod.mk.inj heq).2
    exact List.eq_nil_of_length_eq_zero (by omega)
  have hnil : info.consumed getter₁ collection = [] →
      ((([] : List Task), some info.firstId) : List Task × Option Nat) =
        (info.sentTasks getter₁ collection,
          some (info.firstId + (info.consumed getter₁ collection).length)) := by
    intro hnil
    rw [sentTasks_of_consumed_nil hnil, hnil]
    rfl
  by_cases hs₁ : MeetsStalled getter₁ x₁.state.object order₁ collection
  · by_cases hs₂ : MeetsStalled getter₂ x₂.state.object order₂ collection
    · simp [hs₁, hs₂]
    · simp only [hs₁, hs₂, if_true, if_false, iff_false, not_true, or_false]
      exact ⟨hmoves [], hnil⟩
  · by_cases hs₂ : MeetsStalled getter₂ x₂.state.object order₂ collection
    · simp only [hs₁, hs₂, if_true, if_false, iff_true, or_false]
      exact ⟨fun heq => hmoves [] heq.symm, fun h => (hnil h).symm⟩
    · simp [hs₁, hs₂]

/-- Two collections, with a connection. -/
def Database.pair : Database where
  isConnected := true
  collectionsMap := [(0, "a"), (1, "b")]

/-- A queue that holds a met dependency and nothing else stalls: iterated first, it keeps the write of
the other collection from being sent; iterated second, it does not. -/
theorem stalled_collection_blocks_another :
    ∃ (visited : List (Config (World Unit Unit) Event × Call Unit Unit))
      (x : Config (World Unit Unit) Event),
      Run (World.step .pair) (World.start .pair 0 .blank) visited x ∧
      Enumerates [0, 1] x.state.object.collections ∧
      Enumerates [1, 0] x.state.object.collections ∧
      x.state.object.deletes [0, 1] = false ∧ x.state.object.deletes [1, 0] = false ∧
      x.state.object.idles 1 = false ∧
      x.state.object.outcome 1 [0, 1] .unknown 1 ≠ x.state.object.outcome 1 [1, 0] .unknown 1 := by
  obtain ⟨x, hx⟩ := Option.isSome_iff_exists.mp (show (exec (World.step .pair)
    (World.start .pair 0 (Transaction.blank : Transaction Unit Unit))
    [.pushDependency 0 7 3, .pushOperation 1 .insert ()]).isSome = true by decide)
  have hstate : (some x).map (fun x =>
      (decide (Enumerates [0, 1] x.state.object.collections),
        decide (Enumerates [1, 0] x.state.object.collections),
        x.state.object.deletes [0, 1], x.state.object.deletes [1, 0],
        x.state.object.idles 1)) = some (true, true, false, false, false) := by
    rw [← hx]
    decide
  have houtcome : (some x).map (fun x =>
      (x.state.object.outcome 1 [0, 1] .unknown 1, x.state.object.outcome 1 [1, 0] .unknown 1)) =
      some (([], some 0), ([⟨1, false, [0]⟩], some 1)) := by
    rw [← hx]
    decide
  simp only [Option.map_some, Option.some.injEq, Prod.mk.injEq, decide_eq_true_eq] at hstate
  simp only [Option.map_some, Option.some.injEq, Prod.mk.injEq] at houtcome
  obtain ⟨visited, hrun, -⟩ := run_of_exec hx
  obtain ⟨hforward, hbackward, hdeletes, hdeletes', hidles⟩ := hstate
  refine ⟨visited, x, hrun, hforward, hbackward, hdeletes, hdeletes', hidles, fun heq => ?_⟩
  rw [houtcome.1, houtcome.2] at heq
  simp at heq

/-- The same two orders when the other collection is empty. -/
theorem outcome_eq_iff_alone :
    ∃ (visited : List (Config (World Unit Unit) Event × Call Unit Unit))
      (x : Config (World Unit Unit) Event) (info : CollectionInfo Unit Unit),
      visited.map Prod.snd = [.pushOperation 1 .insert ()] ∧
      Run (World.step .pair) (World.start .pair 0 .blank) visited x ∧
      (x.state.object.outcome 1 [0, 1] .unknown 1 = x.state.object.outcome 1 [1, 0] .unknown 1 ↔
        info.Stays .unknown 1 ∨
          (MeetsStalled .unknown x.state.object [0, 1] 1 ↔
            MeetsStalled .unknown x.state.object [1, 0] 1)) := by
  obtain ⟨x, hx⟩ := Option.isSome_iff_exists.mp (show (exec (World.step .pair)
    (World.start .pair 0 (Transaction.blank : Transaction Unit Unit))
    [.pushOperation 1 .insert ()]).isSome = true by decide)
  have hstate : (some x).map (fun x =>
      (decide (Enumerates [0, 1] x.state.object.collections),
        decide (Enumerates [1, 0] x.state.object.collections),
        x.state.object.deletes [0, 1], x.state.object.deletes [1, 0],
        x.state.object.idles 1, (x.state.object.collections.lookup 1).isSome)) =
      some (true, true, false, false, false, true) := by
    rw [← hx]
    decide
  simp only [Option.map_some, Option.some.injEq, Prod.mk.injEq, decide_eq_true_eq] at hstate
  obtain ⟨hforward, hbackward, hdeletes, hdeletes', hidles, hsome⟩ := hstate
  obtain ⟨info, hlookup⟩ := Option.isSome_iff_exists.mp hsome
  obtain ⟨visited, hrun, hacts⟩ := run_of_exec hx
  exact ⟨visited, x, info, hacts, hrun, outcome_eq_iff hrun hrun hforward hbackward hdeletes
    hdeletes' hidles hidles hlookup hlookup fun _ _ => rfl⟩

end Sekkeizu
