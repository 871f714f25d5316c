/-
# Sekkeizu.Database.Turnover — dependencies on owners that come and go.

When `update` answers `false` the caller destroys the object, and the getter knows its owner no longer; the
scan then takes every dependency on that owner as met. Later an object may be initialised again under the
same owner id, with entries that have nothing to do with the old ones.

A family here may gain and lose owners, and the log of an owner is cut into its lives. The barrier holds
across all of it, provided that no task of an object is in the pool when its deletion check passes: what a
life of an owner has returned has run by the end of that life, and a scan that passes a dependency finds the
named id run in every life that returned it (`turnover_barrier`).
-/
import Sekkeizu.Database.Applied
import Sekkeizu.Database.Deletion
import Sekkeizu.Semantics.Lives


namespace Sekkeizu

open PartialSystem

variable {doc callable : Type*}

/-- What can happen in a family with turnover. -/
inductive Turnover.Action (doc callable : Type*) where
  /-- An object, new or used before, is initialised for an owner that has none. -/
  | create (owner executeEvery : UInt64) (object : Transaction doc callable)
  | call (owner : UInt64) (call : Call doc callable)

/-- The event is an answer `false` of `update`. -/
def Event.isRefusal : Event → Bool
  | .returned keep => !keep
  | _ => false

theorem Event.any_isRefusal {evs : List Event} : evs.any isRefusal = true ↔ .returned false ∈ evs := by
  rw [List.any_eq_true]
  constructor
  · rintro ⟨ev, hmem, hrefusal⟩
    cases ev with
    | returned keep =>
        obtain rfl : keep = false := by simpa [isRefusal] using hrefusal
        exact hmem
    | _ => exact absurd hrefusal (by simp [isRefusal])
  · intro hmem
    exact ⟨_, hmem, rfl⟩

/-- One step. An owner whose `update` answers `false` is gone; its beginning is marked in the history. -/
def Turnover.step [Bson doc] (database : Database) :
    Step (Finmap fun _ : UInt64 => World doc callable) (Turnover.Action doc callable)
      (UInt64 × Option Event) :=
  fun family a =>
    match a with
    | .create owner executeEvery object =>
      if owner ∈ family then none
      else some (family.insert owner (World.start database executeEvery object).state, [(owner, none)])
    | .call owner call =>
      (Family.step database family (owner, call)).map fun r =>
        (if r.2.any fun ev => ev.2.isRefusal then r.1.erase owner else r.1,
          r.2.map fun ev => (ev.1, some ev.2))

/-- Nobody is there yet. -/
def Turnover.start : Config (Finmap fun _ : UInt64 => World doc callable) (UInt64 × Option Event) where
  state := ∅
  history := []

/-- When the deletion check of an object passes, the pool holds no task of it. -/
def QuietDestruction
    (x : Config (Finmap fun _ : UInt64 => World doc callable) (UInt64 × Option Event))
    (a : Turnover.Action doc callable) : Prop :=
  ∀ owner diff order getter w, a = .call owner (.update diff order getter) →
    x.state.lookup owner = some w → w.object.flagged = true → w.object.canDelete order = true →
      w.submitted = []

/-- A task that named the entry has run in this life. -/
def RanIn (life : List Event) (collection : UInt8) (id : Nat) : Prop :=
  ∃ task, .ran task ∈ life ∧ task.collection = collection ∧ id ∈ task.transactions

/-- Whatever a push of this life returned has run. -/
def Complete (life : List Event) : Prop :=
  ∀ collection id, .slot collection id ∈ life → RanIn life collection id

/-- Every life of the owner that returned the id has run it. -/
def RanInEveryLife (owner : UInt64) (collection : UInt8) (id : Nat)
    (history : List (UInt64 × Option Event)) : Prop :=
  ∀ life ∈ lives (eventsOf owner history), .slot collection id ∈ life → RanIn life collection id

/-- The lives of an owner that are over. -/
def endedLives (owner : UInt64)
    (x : Config (Finmap fun _ : UInt64 => World doc callable) (UInt64 × Option Event)) :
    List (List Event) :=
  match x.state.lookup owner with
  | none => lives (eventsOf owner x.history)
  | some _ => (lives (eventsOf owner x.history)).tail

theorem ranIn_append {life evs : List Event} {collection : UInt8} {id : Nat} :
    RanIn (life ++ evs) collection id ↔ RanIn life collection id ∨ RanIn evs collection id := by
  simp only [RanIn, List.mem_append]
  constructor
  · rintro ⟨task, hold | hnew, hrest⟩
    · exact Or.inl ⟨task, hold, hrest⟩
    · exact Or.inr ⟨task, hnew, hrest⟩
  · rintro (⟨task, hran, hrest⟩ | ⟨task, hran, hrest⟩)
    · exact ⟨task, Or.inl hran, hrest⟩
    · exact ⟨task, Or.inr hran, hrest⟩

/-! ## One life -/

/-- **What holds of an object and its life so far**: its books are right, its deletion is not scheduled, an
id it returned names an operation or a callable, and what is done is what has run in this life. -/
structure Living (database : Database) (w : World doc callable) (life : List Event) : Prop where
  accounted : Accounted database ⟨w, life⟩
  unscheduled : w.object.scheduled = false
  returned : ∀ {collection id}, .slot collection id ∈ life →
    ∃ e, w.object.getTransaction collection id = some e ∧ e.dependency = none
  done_iff : ∀ collection id, w.Done collection id ↔ RanIn life collection id

theorem living_start (database : Database) (executeEvery : UInt64) (object : Transaction doc callable) :
    Living database (World.start database executeEvery object).state [] where
  accounted := accounted_start database executeEvery object
  unscheduled := rfl
  returned := fun hmem => absurd hmem List.not_mem_nil
  done_iff := by
    intro collection id
    refine iff_of_false ?_ fun ⟨task, hran, _⟩ => absurd hran List.not_mem_nil
    rintro ⟨info, hinfo, hdone⟩
    have hledger := (accounted_start database executeEvery object).ledger hinfo
    have hfirst : id < info.firstId := by
      by_contra hle
      rw [isDone_eq_false_of_fresh hledger.sound (Nat.le_of_not_lt hle)] at hdone
      exact absurd hdone (by simp)
    dsimp only [World.start, Transaction.init] at hinfo
    rw [Finmap.lookup_mapVals] at hinfo
    obtain ⟨info₀, -, rfl⟩ := Option.map_eq_some_iff.mp hinfo
    exact absurd hfirst (Nat.not_lt_zero id)

namespace Living

variable [Bson doc] {database : Database} {w w' : World doc callable} {life evs : List Event}
variable {call : Call doc callable}

/-- The scheduled flag is set by the answer `false` only. -/
theorem unscheduled_step (h : Living database w life)
    (hstep : World.step database w call = some (w', evs)) (hstays : .returned false ∉ evs) :
    w'.object.scheduled = false := by
  cases fires_of_step hstep with
  | push _ _ _ _ _ _ _ _ hflags _ => exact hflags.2.trans h.unscheduled
  | update diff order getter _ =>
      cases hdeletes : w.object.deletes order with
      | true => exact absurd (by simp [update_of_deletes hdeletes]) hstays
      | false =>
          have hkeeps := update_of_keeps h.accounted.allPresent hdeletes diff getter
          exact hkeeps.2.2.trans h.unscheduled
  | flag => exact h.unscheduled
  | unflag => rfl
  | run => exact h.unscheduled

/-- **A step that does not end the life** keeps all of it. -/
theorem step (h : Living database w life) (hstep : World.step database w call = some (w', evs))
    (hstays : .returned false ∉ evs) : Living database w' (life ++ evs) where
  accounted := h.accounted.step (Step.next_eq_some.mpr ⟨w', evs, hstep, rfl⟩)
  unscheduled := h.unscheduled_step hstep hstays
  returned := by
    intro collection id hmem
    rcases List.mem_append.mp hmem with hold | hnew
    · obtain ⟨e, he, hnone⟩ := h.returned hold
      obtain ⟨info, hinfo, he⟩ := getTransaction_eq_some.mp he
      obtain ⟨info', hinfo', hmove⟩ := step_move h.accounted.allPresent hstep hinfo
      obtain ⟨e', he', hdep, -, -⟩ := hmove.keeps (h.accounted.ledger hinfo).sound he
      exact ⟨e', getTransaction_eq_some.mpr ⟨info', hinfo', he'⟩, hdep.trans hnone⟩
    · exact operation_of_slot hstep hnew
  done_iff := by
    intro collection id
    rw [h.accounted.done_step hstep, h.done_iff, ranIn_append]
    rfl

/-- **A life ends complete** when the pool is empty at its end. -/
theorem complete (h : Living database w life) (hstep : World.step database w call = some (w', evs))
    (hends : .returned false ∈ evs)
    (hquiet : ∀ diff order getter, call = .update diff order getter → w.object.flagged = true →
      w.object.canDelete order = true → w.submitted = []) : Complete (life ++ evs) := by
  cases fires_of_step hstep with
  | push _ _ _ _ _ _ _ _ _ hev =>
      exfalso
      rcases hev with rfl | ⟨rfl, -⟩ <;> simp at hends
  | update diff order getter horder =>
      cases hdeletes : w.object.deletes order with
      | false =>
          have hanswer := (update_of_keeps h.accounted.allPresent hdeletes diff getter).1
          simp [hanswer] at hends
      | true =>
          have hparts : w.object.flagged = true ∧ w.object.canDelete order = true := by
            simpa [Transaction.deletes, h.unscheduled] using hdeletes
          have hidle := hquiet diff order getter rfl hparts.1 hparts.2
          intro collection id hmem
          simp only [update_of_deletes hdeletes, List.map_nil, List.nil_append, List.mem_append,
            List.mem_singleton, reduceCtorEq, or_false] at hmem
          refine ranIn_append.mpr (Or.inl ?_)
          obtain ⟨e, he, hnone⟩ := h.returned hmem
          obtain ⟨info, hinfo, he⟩ := getTransaction_eq_some.mp he
          have hop : info.isOperation id = true := CollectionInfo.isOperation_iff.mpr ⟨e, he, hnone⟩
          have hcheck := canDelete_of_lookup horder hparts.2 hinfo
          have hdone := h.accounted.done_of_canDelete hidle hinfo hcheck hop
          exact (h.done_iff collection id).mp ⟨info, hinfo, hdone⟩
  | flag => exact absurd hends List.not_mem_nil
  | unflag => exact absurd hends List.not_mem_nil
  | run => simp at hends

end Living

/-! ## The family -/

namespace Turnover

/-- **What a step of the family is**: an owner begins a life, or one of the objects takes a call and may be
gone afterwards. -/
theorem step_cases [Bson doc] {database : Database}
    {family family' : Finmap fun _ : UInt64 => World doc callable}
    {a : Turnover.Action doc callable} {evs : List (UInt64 × Option Event)}
    (h : Turnover.step database family a = some (family', evs)) :
    (∃ owner executeEvery object, a = .create owner executeEvery object ∧
      family.lookup owner = none ∧
      family' = family.insert owner (World.start database executeEvery object).state ∧
      evs = [(owner, none)]) ∨
    ∃ owner call w w' plain, a = .call owner call ∧ family.lookup owner = some w ∧
      World.step database w (call.completed family) = some (w', plain) ∧
      family' = (if .returned false ∈ plain then (family.insert owner w').erase owner
        else family.insert owner w') ∧
      evs = (plain.map some).map fun ev => (owner, ev) := by
  cases a with
  | create owner executeEvery object =>
      simp only [Turnover.step] at h
      split_ifs at h with hmem
      obtain ⟨rfl, rfl⟩ := Prod.mk.inj (Option.some.inj h)
      exact Or.inl ⟨owner, executeEvery, object, rfl, Finmap.lookup_eq_none.mpr hmem, rfl, rfl⟩
  | call owner call =>
      obtain ⟨⟨family₁, evs₁⟩, hfamily, heq⟩ := Option.map_eq_some_iff.mp h
      obtain ⟨w, w', plain, hw, hstep, rfl, rfl⟩ := familyStep_eq_some.mp hfamily
      obtain ⟨rfl, rfl⟩ := Prod.mk.inj heq
      refine Or.inr ⟨owner, call, w, w', plain, rfl, hw, hstep, ?_, ?_⟩
      · simp only [List.any_map, Function.comp_def, Event.any_isRefusal]
      · simp

/-- The objects of the other owners are where they were, whether this one is gone or not. -/
theorem lookup_after {family : Finmap fun _ : UInt64 => World doc callable} {k owner : UInt64}
    (hne : k ≠ owner) (w : World doc callable) (ends : Prop) [Decidable ends] :
    (if ends then (family.insert owner w).erase owner else family.insert owner w).lookup k =
      family.lookup k := by
  split_ifs
  · rw [Finmap.lookup_erase_ne hne, Finmap.lookup_insert_of_ne _ hne]
  · exact Finmap.lookup_insert_of_ne _ hne

/-- **The lives of everybody**: the current life of whoever is there has its object in order, and every life
that is over is complete. -/
structure Kept (database : Database)
    (x : Config (Finmap fun _ : UInt64 => World doc callable) (UInt64 × Option Event)) : Prop where
  present : ∀ owner w, x.state.lookup owner = some w →
    ∃ life past, lives (eventsOf owner x.history) = life :: past ∧ Living database w life ∧
      ∀ ended ∈ past, Complete ended
  absent : ∀ owner, x.state.lookup owner = none →
    ∀ ended ∈ lives (eventsOf owner x.history), Complete ended

namespace Kept

variable {database : Database}
variable {x y : Config (Finmap fun _ : UInt64 => World doc callable) (UInt64 × Option Event)}

theorem ended (h : Kept database x) {owner : UInt64} {life : List Event}
    (hlife : life ∈ endedLives owner x) : Complete life := by
  unfold endedLives at hlife
  cases hw : x.state.lookup owner with
  | none =>
      rw [hw] at hlife
      exact h.absent owner hw life hlife
  | some w =>
      obtain ⟨current, past, hlives, -, hpast⟩ := h.present owner w hw
      rw [hw, hlives] at hlife
      exact hpast life hlife

/-- **What the scan takes as met has run**, in every life of the owner that returned it. -/
theorem ran_of_met (h : Kept database x) {collection : UInt8} {slot : Nat} {d : Dependency}
    (hmet : dependencyMet (familyGetter x.state) collection slot d = true) :
    RanInEveryLife d.owner collection d.id x.history := by
  intro life hlife hslot
  cases hw : x.state.lookup d.owner with
  | none => exact h.absent d.owner hw life hlife collection d.id hslot
  | some w =>
      obtain ⟨current, past, hlives, hliving, hpast⟩ := h.present d.owner w hw
      rw [hlives] at hlife
      rcases List.mem_cons.mp hlife with rfl | hended
      · -- the current life: the entry is there, so it is the one the scan has looked at
        obtain ⟨e, he, -⟩ := hliving.returned hslot
        have hdone : e.done = true := by
          simpa only [dependencyMet, familyGetter, hw, Option.map_some, he] using hmet
        obtain ⟨info, hinfo, he⟩ := getTransaction_eq_some.mp he
        refine (hliving.done_iff collection d.id).mp ⟨info, hinfo, ?_⟩
        simpa only [CollectionInfo.isDone, he] using hdone
      · exact hpast life hended collection d.id hslot

variable [Bson doc]

/-- **Every quiet step keeps it.** -/
theorem step (h : Kept database x) {a : Turnover.Action doc callable} (hquiet : QuietDestruction x a)
    (hnext : (Turnover.step database).next x a = some y) : Kept database y := by
  obtain ⟨family, evs, hstep, rfl⟩ := Step.next_eq_some.mp hnext
  rcases step_cases hstep with ⟨owner, executeEvery, object, rfl, hnone, rfl, rfl⟩ |
    ⟨owner, call, w, w', plain, rfl, hw, hmove, rfl, rfl⟩
  · have hself : eventsOf owner (x.history ++ [(owner, none)]) =
        eventsOf owner x.history ++ [none] := by
      rw [eventsOf_append]
      exact congrArg _ (eventsOf_self owner [none])
    have hother : ∀ k, k ≠ owner → eventsOf k (x.history ++ [(owner, none)]) =
        eventsOf k x.history := by
      intro k hne
      rw [eventsOf_append, show eventsOf k [(owner, (none : Option Event))] = [] from
        eventsOf_ne (Ne.symm hne) [none], List.append_nil]
    constructor
    · intro k u hu
      dsimp only at hu ⊢
      by_cases hk : k = owner
      · subst hk
        rw [Finmap.lookup_insert] at hu
        obtain rfl := Option.some.inj hu
        rw [hself, lives_begin]
        exact ⟨[], _, rfl, living_start database executeEvery object, h.absent k hnone⟩
      · rw [hother k hk]
        exact h.present k u ((Finmap.lookup_insert_of_ne _ hk).symm.trans hu)
    · intro k hk
      dsimp only at hk ⊢
      have hne : k ≠ owner := by
        rintro rfl
        rw [Finmap.lookup_insert] at hk
        exact absurd hk (by simp)
      rw [hother k hne]
      exact h.absent k ((Finmap.lookup_insert_of_ne _ hne).symm.trans hk)
  · obtain ⟨life, past, hlives, hliving, hpast⟩ := h.present owner w hw
    have hself : lives (eventsOf owner (x.history ++ (plain.map some).map fun ev => (owner, ev))) =
        (life ++ plain) :: past := by
      rw [eventsOf_append, eventsOf_self]
      exact lives_events hlives plain
    have hother : ∀ k, k ≠ owner →
        eventsOf k (x.history ++ (plain.map some).map fun ev => (owner, ev)) =
          eventsOf k x.history := by
      intro k hne
      rw [eventsOf_append, eventsOf_ne (Ne.symm hne), List.append_nil]
    constructor
    · intro k u hu
      dsimp only at hu ⊢
      by_cases hk : k = owner
      · subst hk
        split_ifs at hu with hends
        · rw [Finmap.lookup_erase] at hu
          exact absurd hu (by simp)
        · rw [Finmap.lookup_insert] at hu
          obtain rfl := Option.some.inj hu
          exact ⟨life ++ plain, past, hself, hliving.step hmove hends, hpast⟩
      · rw [hother k hk]
        exact h.present k u ((lookup_after hk w' _).symm.trans hu)
    · intro k hk
      dsimp only at hk ⊢
      by_cases hne : k = owner
      · subst hne
        split_ifs at hk with hends
        · rw [hself]
          intro ended hmem
          rcases List.mem_cons.mp hmem with rfl | hold
          · apply hliving.complete hmove hends
            intro diff order getter hcall hflagged hcheck
            cases call with
            | update diff' order' getter' =>
                simp only [Call.completed, Call.update.injEq] at hcall
                obtain ⟨-, rfl, -⟩ := hcall
                exact hquiet k diff' order' getter' w rfl hw hflagged hcheck
            | _ => exact absurd hcall (by simp [Call.completed])
          · exact hpast ended hold
        · rw [Finmap.lookup_insert] at hk
          exact absurd hk (by simp)
      · rw [hother k hne]
        exact h.absent k ((lookup_after hne w' _).symm.trans hk)

/-- An object that is there before and after a step is as it was, or has taken the step. -/
theorem same_or_acts {family family' : Finmap fun _ : UInt64 => World doc callable}
    {a : Turnover.Action doc callable} {evs : List (UInt64 × Option Event)}
    (hstep : Turnover.step database family a = some (family', evs)) {owner : UInt64}
    {w w' : World doc callable} (hw : family.lookup owner = some w)
    (hw' : family'.lookup owner = some w') :
    w' = w ∨ ∃ call plain, a = .call owner call ∧
      World.step database w (call.completed family) = some (w', plain) := by
  rcases step_cases hstep with ⟨k, executeEvery, object, -, hnone, rfl, -⟩ |
    ⟨k, call, u, u', plain, rfl, hu, hmove, rfl, -⟩
  · have hne : owner ≠ k := by
      rintro rfl
      exact absurd (hnone.symm.trans hw) (by simp)
    rw [Finmap.lookup_insert_of_ne _ hne, hw] at hw'
    exact Or.inl (Option.some.inj hw').symm
  · by_cases hne : owner = k
    · subst hne
      obtain rfl := Option.some.inj (hu.symm.trans hw)
      split_ifs at hw' with hends
      · rw [Finmap.lookup_erase] at hw'
        exact absurd hw' (by simp)
      · rw [Finmap.lookup_insert] at hw'
        obtain rfl := Option.some.inj hw'
        exact Or.inr ⟨call, plain, rfl, hmove⟩
    · rw [lookup_after hne, hw] at hw'
      exact Or.inl (Option.some.inj hw').symm

/-- What a step passes has run, in every life of the owner that returned it. -/
theorem ran_of_passed (h : Kept database x) {a : Turnover.Action doc callable}
    {family : Finmap fun _ : UInt64 => World doc callable} {evs : List (UInt64 × Option Event)}
    (hstep : Turnover.step database x.state a = some (family, evs)) {owner : UInt64}
    {collection : UInt8} {w w' : World doc callable} {info info' : CollectionInfo doc callable}
    (hw : x.state.lookup owner = some w) (hinfo : w.object.collections.lookup collection = some info)
    (hw' : family.lookup owner = some w')
    (hinfo' : w'.object.collections.lookup collection = some info') {slot : Nat}
    (hfirst : info.firstId ≤ slot) (hpassed : slot < info'.firstId)
    {e : TransactionInfo doc callable} {d : Dependency}
    (he : info.transactions.lookup slot = some e) (hd : e.dependency = some d) :
    RanInEveryLife d.owner collection d.id x.history := by
  rcases same_or_acts hstep hw hw' with rfl | ⟨call, plain, -, hmove⟩
  · obtain rfl := Option.some.inj (hinfo.symm.trans hinfo')
    omega
  · obtain ⟨life, past, -, hliving, -⟩ := h.present owner w hw
    obtain ⟨info₁, hinfo₁, hqueue⟩ := step_move hliving.accounted.allPresent hmove hinfo
    obtain rfl := Option.some.inj (hinfo₁.symm.trans hinfo')
    obtain ⟨diff, order, getter, hcall, hconsumed⟩ := hqueue.consumed_by_scan hfirst hpassed
    obtain rfl := Call.completed_update hcall
    have hsound := (hliving.accounted.ledger hinfo).sound
    exact h.ran_of_met
      (hsound.met_of_consumed (familyGetter x.state) collection hfirst hconsumed he hd)

end Kept

theorem kept_start (database : Database) :
    Kept database (Turnover.start :
      Config (Finmap fun _ : UInt64 => World doc callable) (UInt64 × Option Event)) where
  present := by
    intro owner w hw
    exact absurd hw (by simp [Turnover.start])
  absent := by
    intro owner _ ended hmem
    exact absurd hmem List.not_mem_nil

theorem kept_run [Bson doc] {database : Database}
    {visited : List (Config (Finmap fun _ : UInt64 => World doc callable) (UInt64 × Option Event) ×
      Turnover.Action doc callable)}
    {x : Config (Finmap fun _ : UInt64 => World doc callable) (UInt64 × Option Event)}
    (hrun : Run (Turnover.step database) Turnover.start visited x)
    (hquiet : Throughout QuietDestruction visited) : Kept database x :=
  hrun.invariant (Kept database) QuietDestruction (fun h hq hnext => h.step hq hnext) hquiet
    (kept_start database)

end Turnover

/-- **The barrier holds while owners come and go.** In every run in which no task of an object is in the pool
when its deletion check passes: a life that is over has run all that it returned, and a step that moves a
queue past a dependency finds the named id run in every life of the named owner that has returned it. -/
theorem turnover_barrier [Bson doc] {database : Database}
    {visited : List (Config (Finmap fun _ : UInt64 => World doc callable) (UInt64 × Option Event) ×
      Turnover.Action doc callable)}
    {x : Config (Finmap fun _ : UInt64 => World doc callable) (UInt64 × Option Event)}
    (hrun : Run (Turnover.step database) Turnover.start visited x)
    (hquiet : Throughout QuietDestruction visited) :
    (∀ owner, ∀ life ∈ endedLives owner x, Complete life) ∧
      ∀ a family evs, Turnover.step database x.state a = some (family, evs) →
        ∀ owner collection w info w' info' slot e d,
          x.state.lookup owner = some w → w.object.collections.lookup collection = some info →
          family.lookup owner = some w' → w'.object.collections.lookup collection = some info' →
          info.firstId ≤ slot → slot < info'.firstId → info.transactions.lookup slot = some e →
          e.dependency = some d → RanInEveryLife d.owner collection d.id x.history := by
  have h := Turnover.kept_run hrun hquiet
  refine ⟨fun owner life => h.ended, ?_⟩
  intro a family evs hstep owner collection w info w' info' slot e d hw hinfo hw' hinfo' hfirst hpassed
  exact h.ran_of_passed hstep hw hinfo hw' hinfo' hfirst hpassed

instance (x : Config (Finmap fun _ : UInt64 => World doc callable) (UInt64 × Option Event))
    (a : Turnover.Action doc callable) : Decidable (QuietDestruction x a) :=
  match a with
  | .call owner (.update diff order getter) =>
    decidable_of_iff (∀ w ∈ x.state.lookup owner, w.object.flagged = true →
      w.object.canDelete order = true → w.submitted = [])
      ⟨fun h owner' diff' order' getter' w hcall hw => by
        simp only [Turnover.Action.call.injEq, Call.update.injEq] at hcall
        obtain ⟨rfl, -, rfl, -⟩ := hcall
        exact h w hw, fun h w hw => h owner diff order getter w rfl hw⟩
  | .create .. => .isTrue (by simp [QuietDestruction])
  | .call _ (.pushOperation ..) => .isTrue (by simp [QuietDestruction])
  | .call _ (.pushOperation₂ ..) => .isTrue (by simp [QuietDestruction])
  | .call _ (.pushCallable ..) => .isTrue (by simp [QuietDestruction])
  | .call _ (.pushDependency ..) => .isTrue (by simp [QuietDestruction])
  | .call _ .flagDeletion => .isTrue (by simp [QuietDestruction])
  | .call _ .unflagDeletion => .isTrue (by simp [QuietDestruction])
  | .call _ (.runTask _) => .isTrue (by simp [QuietDestruction])

/-- Owner 2 writes, is deleted and begins again, while owner 1 depends on the write. -/
def secondLife : List (Turnover.Action Unit Unit) :=
  [.create 1 0 .blank, .create 2 0 .blank, .call 2 (.pushOperation 0 .insert ()),
    .call 1 (.pushDependency 0 2 0), .call 2 (.update 0 [0] .unknown), .call 2 (.runTask 0),
    .call 2 .flagDeletion, .call 2 (.update 0 [0] .unknown), .create 2 0 .blank]

/-- Owner 1 waits for a write of owner 2, whose object has been destroyed and made again when owner 1 comes
to look. -/
theorem turnover_barrier_second_life :
    ∃ (visited : List (Config (Finmap fun _ : UInt64 => World Unit Unit) (UInt64 × Option Event) ×
        Turnover.Action Unit Unit))
      (x : Config (Finmap fun _ : UInt64 => World Unit Unit) (UInt64 × Option Event)),
      Run (Turnover.step .single) Turnover.start visited x ∧
      lives (eventsOf 2 x.history) = [[],
        [.slot 0 0, .dispatched ⟨0, false, [0]⟩, .returned true, .ran ⟨0, false, [0]⟩,
          .returned false]] ∧
      (∀ life ∈ endedLives 2 x, Complete life) ∧ RanInEveryLife 2 0 0 x.history := by
  obtain ⟨x, hx⟩ := Option.isSome_iff_exists.mp
    (show (exec (Turnover.step .single) Turnover.start secondLife).isSome = true by decide)
  have hquiet :
      Throughout QuietDestruction (trace (Turnover.step .single) Turnover.start secondLife) := by
    decide
  have hlives : (some x).map (fun x => lives (eventsOf 2 x.history)) = some [[],
      [.slot 0 0, .dispatched ⟨0, false, [0]⟩, .returned true, .ran ⟨0, false, [0]⟩,
        .returned false]] := by
    rw [← hx]
    decide
  have hbefore : ((some x).bind fun x => (x.state.lookup 1).bind fun w =>
      (w.object.collections.lookup 0).bind fun info => (info.transactions.lookup 0).map fun e =>
        (info.firstId, e.dependency)) = some (0, some ⟨2, 0⟩) := by
    rw [← hx]
    decide
  have hafter : ((some x).bind fun x =>
      (Turnover.step .single x.state (.call 1 (.update 0 [0] .unknown))).bind fun r =>
        (r.1.lookup 1).bind fun w => (w.object.collections.lookup 0).map CollectionInfo.firstId) =
      some 1 := by
    rw [← hx]
    decide
  rw [Option.bind_some] at hbefore hafter
  obtain ⟨w, hw, hbefore⟩ := Option.bind_eq_some_iff.mp hbefore
  obtain ⟨info, hinfo, hbefore⟩ := Option.bind_eq_some_iff.mp hbefore
  obtain ⟨e, he, hpair⟩ := Option.map_eq_some_iff.mp hbefore
  obtain ⟨hfirst, hdep⟩ := Prod.mk.inj hpair
  obtain ⟨⟨family, evs⟩, hstep, hafter⟩ := Option.bind_eq_some_iff.mp hafter
  obtain ⟨w', hw', hafter⟩ := Option.bind_eq_some_iff.mp hafter
  obtain ⟨info', hinfo', hfirst'⟩ := Option.map_eq_some_iff.mp hafter
  obtain ⟨hended, hpassed⟩ := turnover_barrier (run_trace hx) hquiet
  refine ⟨_, x, run_trace hx, Option.some.inj hlives, hended 2, ?_⟩
  exact hpassed _ family evs hstep 1 0 w info w' info' 0 e ⟨2, 0⟩ hw hinfo hw' hinfo'
    (Nat.le_of_eq hfirst) (by omega) he hdep

end Sekkeizu
