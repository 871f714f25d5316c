/-
# Sekkeizu.Database.Completion — what keeps a finished object from being deleted.

The deletion check looks at the `done` flag of the last entry of every queue. Operations and callables get
the flag from their task; a dependency never does, because the scan passes it without marking it. So a
queue whose last entry is a dependency fails the check forever, with everything in it finished
(`trailing_dependency_blocks_deletion`). Of a finished object the answer `false` depends on nothing else
(`deletion_answer_iff`).
-/
import Sekkeizu.Database.Deletion


namespace Sekkeizu

open PartialSystem
open Finmap (Enumerates)

variable {doc callable : Type*}

/-- Every entry is consumed, and every operation and callable is done. -/
def CollectionInfo.Finished (info : CollectionInfo doc callable) : Prop :=
  info.firstId = info.currentId ∧ ∀ id, info.isOperation id = true → info.isDone id = true

/-- Every queue is finished. -/
def Transaction.Finished (t : Transaction doc callable) : Prop :=
  ∀ collection info, t.collections.lookup collection = some info → info.Finished

/-- The entry the deletion check looks at, the last one, is a dependency. -/
def CollectionInfo.endsInDependency (info : CollectionInfo doc callable) : Bool :=
  match info.transactions.lookup (lastId info.currentId) with
  | none => false
  | some e => e.dependency.isSome

/-- **The check of a finished queue** fails for a dependency only. -/
theorem CollectionInfo.Finished.canDelete_iff {info : CollectionInfo doc callable}
    (h : info.Finished) (hsound : info.Sound) :
    info.canDelete = true ↔ info.endsInDependency = false := by
  obtain ⟨hdrained, hdone⟩ := h
  unfold CollectionInfo.canDelete CollectionInfo.endsInDependency
  rw [hdrained, beq_self_eq_true, Bool.true_and]
  cases he : info.transactions.lookup (lastId info.currentId) with
  | none => simp
  | some e =>
      cases hdep : e.dependency with
      | none =>
          -- an operation: done, as all of them are
          have hop : info.isOperation (lastId info.currentId) = true :=
            CollectionInfo.isOperation_iff.mpr ⟨e, he, hdep⟩
          have hlast := hdone _ hop
          simp only [CollectionInfo.isDone, he] at hlast
          simp [hdep, hlast]
      | some d =>
          have hnot := (hsound.dependency he (by simp [hdep])).2.1
          simp [hdep, hnot]

theorem Transaction.Finished.canDelete_iff {t : Transaction doc callable} (h : t.Finished)
    (hsound : ∀ {collection info}, t.collections.lookup collection = some info → info.Sound)
    {order : List UInt8} (horder : Enumerates order t.collections) :
    t.canDelete order = true ↔
      ∀ collection info, t.collections.lookup collection = some info →
        info.endsInDependency = false := by
  constructor
  · intro hcheck collection info hlookup
    have hinfo := canDelete_of_lookup horder hcheck hlookup
    exact ((h collection info hlookup).canDelete_iff (hsound hlookup)).mp hinfo
  · intro hends
    apply List.all_eq_true.mpr
    intro collection _
    cases hlookup : t.collections.lookup collection with
    | none => rfl
    | some info =>
        exact ((h collection info hlookup).canDelete_iff (hsound hlookup)).mpr
          (hends collection info hlookup)

/-- **When a finished object is deleted**: after any run from `init`, an `update` of a flagged object with
nothing left to do answers `false` exactly when the deletion is scheduled already or no queue ends in a
dependency. -/
theorem deletion_answer_iff [Bson doc] {database : Database} {executeEvery : UInt64}
    {t : Transaction doc callable}
    {visited : List (Config (World doc callable) Event × Call doc callable)}
    {x : Config (World doc callable) Event}
    (hrun : Run (World.step database) (World.start database executeEvery t) visited x)
    (hflagged : x.state.object.flagged = true) (hfinished : x.state.object.Finished)
    {diff : UInt64} {order : List UInt8} {getter : Getter doc callable}
    (horder : Enumerates order x.state.object.collections) :
    (x.state.object.update diff order getter).1 = false ↔
      x.state.object.scheduled = true ∨
        ∀ collection info, x.state.object.collections.lookup collection = some info →
          info.endsInDependency = false := by
  have haccounted := accounted_run hrun
  have hanswer : (x.state.object.update diff order getter).1 = false ↔
      x.state.object.deletes order = true := by
    cases hdeletes : x.state.object.deletes order with
    | true => simp only [update_of_deletes hdeletes]
    | false => simp [(update_of_keeps haccounted.allPresent hdeletes diff getter).1]
  rw [hanswer, Transaction.deletes, hflagged, Bool.true_and, Bool.or_eq_true,
    hfinished.canDelete_iff (fun hlookup => (haccounted.ledger hlookup).sound) horder]

instance (t : Transaction doc callable) : Decidable t.Finished :=
  -- over the keys of the map, not over all bytes
  have keys : Decidable (∀ collection, collection ∈ t.collections.keys →
      ∀ info ∈ t.collections.lookup collection, info.firstId = info.currentId ∧
        ∀ id ∈ info.transactions.keys, info.isOperation id = true → info.isDone id = true) :=
    Finset.decidableDforallFinset
  @decidable_of_iff _ _ (by
    constructor
    · intro h collection info hlookup
      have hmem := Finmap.mem_keys.mpr (Finmap.mem_of_lookup_eq_some hlookup)
      obtain ⟨hdrained, hdone⟩ := h collection hmem info hlookup
      refine ⟨hdrained, fun id hop => ?_⟩
      obtain ⟨e, he, -⟩ := CollectionInfo.isOperation_iff.mp hop
      exact hdone id (Finmap.mem_keys.mpr (Finmap.mem_of_lookup_eq_some he)) hop
    · intro h collection _ info hlookup
      exact ⟨(h collection info hlookup).1, fun id _ hop => (h collection info hlookup).2 id hop⟩) keys

/-- A write that has run, and a dependency behind it that has been passed: the object is never freed. -/
theorem trailing_dependency_blocks_deletion :
    ∃ (visited : List (Config (World Unit Unit) Event × Call Unit Unit))
      (x : Config (World Unit Unit) Event),
      Run (World.step .single) (World.start .single 0 .blank) visited x ∧
        x.state.object.flagged = true ∧ x.state.object.Finished ∧
        ¬ (x.state.object.update 0 [0] .unknown).1 = false := by
  obtain ⟨x, hx⟩ := Option.isSome_iff_exists.mp (show (exec (World.step .single)
    (World.start .single 0 (Transaction.blank : Transaction Unit Unit))
    [.pushOperation 0 .insert (), .pushDependency 0 7 3, .update 0 [0] .unknown, .runTask 0,
      .flagDeletion]).isSome = true by decide)
  have hstate : (some x).map (fun x => (x.state.object.flagged, decide x.state.object.Finished,
      (x.state.object.update 0 [0] .unknown).1)) = some (true, true, true) := by
    rw [← hx]
    decide
  simp only [Option.map_some, Option.some.injEq, Prod.mk.injEq, decide_eq_true_eq] at hstate
  obtain ⟨hflagged, hfinished, hanswer⟩ := hstate
  obtain ⟨visited, hrun, -⟩ := run_of_exec hx
  exact ⟨visited, x, hrun, hflagged, hfinished, by simp [hanswer]⟩

/-- The same entries, the dependency in front. -/
theorem deletion_answer_iff_write_last :
    ∃ (visited : List (Config (World Unit Unit) Event × Call Unit Unit))
      (x : Config (World Unit Unit) Event),
      visited.map Prod.snd = [.pushDependency 0 7 3, .pushOperation 0 .insert (),
        .update 0 [0] .unknown, .runTask 0, .flagDeletion] ∧
      Run (World.step .single) (World.start .single 0 .blank) visited x ∧
      ((x.state.object.update 0 [0] .unknown).1 = false ↔
        x.state.object.scheduled = true ∨
          ∀ collection info, x.state.object.collections.lookup collection = some info →
            info.endsInDependency = false) := by
  obtain ⟨x, hx⟩ := Option.isSome_iff_exists.mp (show (exec (World.step .single)
    (World.start .single 0 (Transaction.blank : Transaction Unit Unit))
    [.pushDependency 0 7 3, .pushOperation 0 .insert (), .update 0 [0] .unknown, .runTask 0,
      .flagDeletion]).isSome = true by decide)
  have hstate : (some x).map (fun x => (x.state.object.flagged, decide x.state.object.Finished,
      decide (Enumerates [0] x.state.object.collections))) = some (true, true, true) := by
    rw [← hx]
    decide
  simp only [Option.map_some, Option.some.injEq, Prod.mk.injEq, decide_eq_true_eq] at hstate
  obtain ⟨hflagged, hfinished, horder⟩ := hstate
  obtain ⟨visited, hrun, hacts⟩ := run_of_exec hx
  exact ⟨visited, x, hacts, hrun, deletion_answer_iff hrun hflagged hfinished horder⟩

end Sekkeizu
