/-
# Sekkeizu.Database.Registry — the names that the tasks of a deployment resolve to.

A task carries the key of its collection. It asks `get_collection` for the name when it runs, which asserts that
there is one. An object has its collections from `init`: what the database knew then, and what it held before.

`emplace` never changes a name, so a key that resolves once resolves to the same name for ever
(`Extends`). What a call cannot do is add a collection to an object (`mem_of_step`): a key that is registered after
the `init` of an object has no queue there.
-/
import Sekkeizu.Database.Outages


namespace Sekkeizu

open PartialSystem

variable {doc callable : Type*}

/-! ## The table of names -/

/-- Every name stays. -/
def Database.Extends (earlier later : Database) : Prop :=
  ∀ key name, earlier.getCollection key = some name → later.getCollection key = some name

theorem Database.extends_addCollection (database : Database) (key : UInt8) (collection : String) :
    database.Extends (database.addCollection key collection) := by
  intro other name hname
  unfold Database.addCollection
  cases hkey : database.getCollection key with
  | some _ => exact hname
  | none =>
      show (database.collectionsMap ++ [(key, collection)]).lookup other = some name
      rw [List.lookup_append, show database.collectionsMap.lookup other = some name from hname]
      rfl

theorem Database.getCollection_isSome {database : Database} {key : UInt8} :
    key ∈ database.getAllCollections.map Prod.fst ↔ ∃ name, database.getCollection key = some name := by
  rw [← Option.isSome_iff_exists, Database.getCollection, List.lookup_isSome_iff]
  simp only [Database.getAllCollections, List.mem_map, beq_iff_eq]
  constructor
  · rintro ⟨entry, hentry, heq⟩
    exact ⟨entry, hentry, heq.symm⟩
  · rintro ⟨entry, hentry, heq⟩
    exact ⟨entry, hentry, heq.symm⟩

/-- **The collections of an object after `init`**: what it held, and what the database knows. -/
theorem mem_init {database : Database} {executeEvery : UInt64} {object : Transaction doc callable}
    {key : UInt8} :
    key ∈ (object.init database executeEvery).collections ↔
      key ∈ object.collections ∨ ∃ name, database.getCollection key = some name := by
  have hfold : database.getAllCollections.foldl (fun collections entry =>
        Finmap.emplace entry.1 CollectionInfo.new collections) object.collections =
      (database.getAllCollections.map Prod.fst).foldl (fun collections key =>
        Finmap.emplace key CollectionInfo.new collections) object.collections := by
    rw [List.foldl_map]
  rw [← Database.getCollection_isSome, Transaction.init, Finmap.mem_mapVals, hfold,
    Finmap.mem_iff_lookup_ne_none, Finmap.lookup_foldl_emplace]
  by_cases hheld : key ∈ object.collections
  · simp [hheld, Finmap.mem_iff_lookup_ne_none.mp hheld]
  · by_cases hknown : key ∈ database.getAllCollections.map Prod.fst
    · simp [hheld, hknown]
    · simp [hheld, hknown, Finmap.lookup_eq_none.mpr hheld]

/-! ## What a call of an object does -/

/-- A call adds no collection, and takes none away. -/
theorem mem_of_step [Bson doc] {database : Database} {w w' : World doc callable} {call : Call doc callable}
    {evs : List Event} (ht : w.object.AllPresent)
    (hstep : World.step database w call = some (w', evs)) {key : UInt8} :
    key ∈ w'.object.collections ↔ key ∈ w.object.collections := by
  constructor
  · intro hafter
    by_contra hbefore
    have habsent := step_absent ht hstep (Finmap.lookup_eq_none.mpr hbefore)
    exact Finmap.lookup_eq_none.mp habsent hafter
  · intro hbefore
    obtain ⟨info, hinfo⟩ := Finmap.mem_iff.mp hbefore
    obtain ⟨info', hinfo', -⟩ := step_move ht hstep hinfo
    exact Finmap.mem_of_lookup_eq_some hinfo'

/-- A call hands over tasks for the collections of the object. -/
theorem task_mem_of_step [Bson doc] {database : Database} {w w' : World doc callable} {call : Call doc callable}
    {evs : List Event} (ht : w.object.AllPresent)
    (hstep : World.step database w call = some (w', evs)) {task : Task} (htask : .dispatched task ∈ evs) :
    task.collection ∈ w.object.collections := by
  cases fires_of_step hstep with
  | push pushedTo info write t evs hlookup hwrite hcollections hflags hev =>
      rcases hev with rfl | ⟨rfl, -⟩
      · exact absurd htask List.not_mem_nil
      · simp at htask
  | update diff order getter horder =>
      simp only [List.mem_append, List.mem_map, Event.dispatched.injEq, exists_eq_right,
        List.mem_singleton, reduceCtorEq, or_false] at htask
      obtain ⟨info, hlookup, -, -⟩ := task_of_update ht horder htask
      exact Finmap.mem_of_lookup_eq_some hlookup
  | flag => exact absurd htask List.not_mem_nil
  | unflag => exact absurd htask List.not_mem_nil
  | run position task before after hsubmitted hposition => simp at htask

namespace Deployment

variable [Bson doc] {x y : Config (Deployment doc callable) (UInt64 × Bool × Event)}
variable {a : Deployment.Action doc callable}

/-- No step of a deployment changes a name. -/
theorem extends_next (hnext : Deployment.step.next x a = some y) :
    x.state.database.Extends y.state.database := by
  obtain ⟨d, evs, hstep, rfl⟩ := Step.next_eq_some.mp hnext
  cases a with
  | init uri ping =>
      obtain ⟨rfl, rfl⟩ := Prod.mk.inj (Option.some.inj hstep)
      exact fun _ _ hname => hname
  | addCollection key collection =>
      obtain ⟨rfl, rfl⟩ := Prod.mk.inj (Option.some.inj hstep)
      exact x.state.database.extends_addCollection key collection
  | create owner executeEvery object =>
      simp only [Deployment.step] at hstep
      split_ifs at hstep
      obtain ⟨rfl, rfl⟩ := Prod.mk.inj (Option.some.inj hstep)
      exact fun _ _ hname => hname
  | call owner call =>
      obtain ⟨r, -, heq⟩ := Option.map_eq_some_iff.mp hstep
      obtain ⟨rfl, rfl⟩ := Prod.mk.inj heq
      exact fun _ _ hname => hname

/-- The owner has an object, and the object has a queue for the key. -/
def Holds (owner : UInt64) (key : UInt8) (x : Config (Deployment doc callable) (UInt64 × Bool × Event)) :
    Prop :=
  ∃ w, x.state.family.lookup owner = some w ∧ key ∈ w.object.collections

/-- The object that an action begins brings no collection that the database does not know. -/
def BringsKnown (x : Config (Deployment doc callable) (UInt64 × Bool × Event))
    (a : Deployment.Action doc callable) : Prop :=
  ∀ owner executeEvery object, a = .create owner executeEvery object → ∀ key ∈ object.collections,
    ∃ name, x.state.database.getCollection key = some name

/-- An object stays. -/
theorem present_next (hnext : Deployment.step.next x a = some y) {owner : UInt64} {w : World doc callable}
    (hw : x.state.family.lookup owner = some w) : ∃ w', y.state.family.lookup owner = some w' := by
  rcases view_next hnext with hsame | ⟨k, executeEvery, object, -, hnone, rfl⟩ | ⟨k, call, -, hfamily⟩
  · have hstate : y.state.family = x.state.family := congrArg Config.state hsame
    exact ⟨w, hstate ▸ hw⟩
  · by_cases heq : owner = k
    · exact absurd (hnone.symm.trans (heq ▸ hw)) (by simp)
    · exact ⟨w, (Finmap.lookup_insert_of_ne _ heq).trans hw⟩
  · rcases next_member (x := view x) (y := view y) hfamily hw with ⟨-, hsame, -⟩ | ⟨-, w', hw', -⟩
    · exact ⟨w, hsame⟩
    · exact ⟨w', hw'⟩

/-- What the owner with an object holds is held before and after every step. -/
theorem holds_next (h : Booked x) (hnext : Deployment.step.next x a = some y) {owner : UInt64}
    {w : World doc callable} (hw : x.state.family.lookup owner = some w) {key : UInt8} :
    Holds owner key y ↔ Holds owner key x := by
  rcases view_next hnext with hsame | ⟨k, executeEvery, object, -, hnone, rfl⟩ | ⟨k, call, -, hfamily⟩
  · have hstate : y.state.family = x.state.family := congrArg Config.state hsame
    simp only [Holds, hstate]
  · have hne : owner ≠ k := by
      rintro rfl
      exact absurd (hnone.symm.trans hw) (by simp)
    simp only [Holds, Finmap.lookup_insert_of_ne _ hne]
  · rcases next_member (x := view x) (y := view y) hfamily hw with ⟨-, hsame, -⟩ | ⟨rfl, w', hw', hmove⟩
    · have hlookup : y.state.family.lookup owner = x.state.family.lookup owner := hsame.trans hw.symm
      simp only [Holds, hlookup]
    · obtain ⟨w₁, evs, hstep, heq⟩ := Step.next_eq_some.mp hmove
      obtain rfl : w' = w₁ := congrArg Config.state heq
      obtain ⟨plain, hplain, -⟩ := stampedStep_eq_some.mp hstep
      have hmem : key ∈ w'.object.collections ↔ key ∈ w.object.collections :=
        mem_of_step (h.present owner w hw).allPresent hplain
      have hw'' : y.state.family.lookup owner = some w' := hw'
      simp only [Holds, hw, hw'', Option.some.injEq, exists_eq_left', hmem]

/-- **What is handed over is held**: the tasks of an owner are for collections of its object. -/
def TasksHeld (x : Config (Deployment doc callable) (UInt64 × Bool × Event)) : Prop :=
  ∀ owner connected task, (owner, connected, .dispatched task) ∈ x.history →
    Holds owner task.collection x

/-- **What is held is known**: a collection of an object has a name. -/
def HeldKnown (x : Config (Deployment doc callable) (UInt64 × Bool × Event)) : Prop :=
  ∀ owner key, Holds owner key x → ∃ name, x.state.database.getCollection key = some name

theorem TasksHeld.step (h : Booked x) (hheld : TasksHeld x)
    (hnext : Deployment.step.next x a = some y) : TasksHeld y := by
  have hkeep : ∀ {owner key}, Holds owner key x → Holds owner key y := by
    rintro owner key ⟨w, hw, hmem⟩
    exact (holds_next h hnext hw).mpr ⟨w, hw, hmem⟩
  intro owner connected task htask
  rcases view_next hnext with hsame | ⟨k, executeEvery, object, -, hnone, rfl⟩ | ⟨k, call, -, hfamily⟩
  · have htask : (owner, connected, .dispatched task) ∈ (view y).history := htask
    rw [hsame] at htask
    exact hkeep (hheld owner connected task htask)
  · exact hkeep (hheld owner connected task htask)
  · obtain ⟨family, evs, hstep, heq⟩ := Step.next_eq_some.mp hfamily
    have hhistory : y.history = x.history ++ evs := congrArg Config.history heq
    rw [hhistory, List.mem_append] at htask
    rcases htask with hold | hnew
    · exact hkeep (hheld owner connected task hold)
    · -- a new event is one of the call
      obtain ⟨w, w', evs', hw, hmove, -, rfl⟩ := familyStep_eq_some.mp hstep
      obtain ⟨plain, hplain, rfl⟩ := stampedStep_eq_some.mp hmove
      simp only [List.map_map, List.mem_map, Function.comp_apply, Prod.mk.injEq] at hnew
      obtain ⟨ev, hev, rfl, -, rfl⟩ := hnew
      exact hkeep ⟨w, hw, task_mem_of_step (h.present _ w hw).allPresent hplain hev⟩

theorem HeldKnown.step (h : Booked x) (hknown : HeldKnown x) (hbrings : BringsKnown x a)
    (hnext : Deployment.step.next x a = some y) : HeldKnown y := by
  have hextends := extends_next hnext
  rintro owner key hholds
  suffices hbefore : ∃ name, x.state.database.getCollection key = some name by
    obtain ⟨name, hname⟩ := hbefore
    exact ⟨name, hextends key name hname⟩
  cases hw : x.state.family.lookup owner with
  | some w => exact hknown owner key ((holds_next h hnext hw).mp hholds)
  | none =>
      -- the owner has an object since this step
      obtain ⟨w', hw', hmem⟩ := hholds
      rcases view_next hnext with hsame | ⟨k, executeEvery, object, hact, hnone, rfl⟩ |
        ⟨k, call, -, hfamily⟩
      · have hstate : y.state.family = x.state.family := congrArg Config.state hsame
        exact absurd (hw.symm.trans (hstate ▸ hw')) (by simp)
      · by_cases heq : owner = k
        · subst heq
          have hlookup : (x.state.family.insert owner
            (World.start x.state.database executeEvery object).state).lookup owner = some w' := hw'
          rw [Finmap.lookup_insert] at hlookup
          obtain rfl := Option.some.inj hlookup
          rcases mem_init.mp hmem with hbrought | hname
          · exact hbrings owner executeEvery object hact key hbrought
          · exact hname
        · exact absurd (hw.symm.trans ((Finmap.lookup_insert_of_ne _ heq).symm.trans hw')) (by simp)
      · obtain ⟨w, hw₀⟩ := member_of_next (x := view x) (y := view y) hfamily hw'
        exact absurd (hw.symm.trans hw₀) (by simp)

theorem tasksHeld_run {database : Database}
    {visited : List (Config (Deployment doc callable) (UInt64 × Bool × Event) ×
      Deployment.Action doc callable)}
    (hrun : Run Deployment.step (Deployment.start database) visited x) : TasksHeld x :=
  hrun.invariant_under (fun h hnext => h.step hnext) TasksHeld
    (fun h hheld hnext => hheld.step h hnext) (booked_start database)
    (fun _ _ _ htask => absurd htask List.not_mem_nil)

theorem heldKnown_run {database : Database}
    {visited : List (Config (Deployment doc callable) (UInt64 × Bool × Event) ×
      Deployment.Action doc callable)}
    (hrun : Run Deployment.step (Deployment.start database) visited x)
    (hbrings : Throughout BringsKnown visited) : HeldKnown x := by
  have hboth : Booked x ∧ HeldKnown x := by
    apply hrun.invariant (fun x => Booked x ∧ HeldKnown x) BringsKnown
      (fun h hbrings hnext => ⟨h.1.step hnext, h.2.step h.1 hbrings hnext⟩) hbrings
    refine ⟨booked_start database, ?_⟩
    rintro owner key ⟨w, hw, -⟩
    exact absurd hw (by simp [Deployment.start])
  exact hboth.2

theorem extends_run
    {later : List (Config (Deployment doc callable) (UInt64 × Bool × Event) ×
      Deployment.Action doc callable)}
    (hrun : Run Deployment.step x later y) : x.state.database.Extends y.state.database :=
  hrun.invariant' (fun y => x.state.database.Extends y.state.database)
    (fun h hnext key name hname => extends_next hnext key name (h key name hname))
    (fun _ _ hname => hname)

/-- What the owner with an object does not hold now, it will not hold. -/
theorem not_holds_run
    {later : List (Config (Deployment doc callable) (UInt64 × Bool × Event) ×
      Deployment.Action doc callable)}
    (h : Booked x) (hrun : Run Deployment.step x later y) {owner : UInt64} {w : World doc callable}
    (hw : x.state.family.lookup owner = some w) {key : UInt8} (hkey : key ∉ w.object.collections) :
    ¬ Holds owner key y := by
  have hmissing : (∃ w, y.state.family.lookup owner = some w) ∧ ¬ Holds owner key y := by
    refine hrun.invariant_under (fun h hnext => h.step hnext)
      (fun y => (∃ w, y.state.family.lookup owner = some w) ∧ ¬ Holds owner key y) ?_ h ⟨⟨w, hw⟩, ?_⟩
    · rintro y z a hy ⟨⟨u, hu⟩, hnot⟩ hnext
      exact ⟨present_next hnext hu, fun hholds => hnot ((holds_next hy hnext hu).mp hholds)⟩
    · rintro ⟨u, hu, hmem⟩
      obtain rfl := Option.some.inj (hw.symm.trans hu)
      exact hkey hmem
  exact hmissing.2

end Deployment

/-- **Every task resolves, to one name.** In every run of a deployment whose objects bring no collection that
the database does not know at their `init`, each task ever handed over names a key that `get_collection` answers:
its assertion does not fail. At the end of every run from there the answers are the same. An object never gets a
queue, or a task, for a key that its `init` did not give it. -/
theorem tasks_resolve [Bson doc] {database : Database}
    {visited : List (Config (Deployment doc callable) (UInt64 × Bool × Event) ×
      Deployment.Action doc callable)}
    {x : Config (Deployment doc callable) (UInt64 × Bool × Event)}
    (hrun : Run Deployment.step (Deployment.start database) visited x)
    (hbrings : Throughout Deployment.BringsKnown visited) :
    (∀ owner connected task, (owner, connected, .dispatched task) ∈ x.history →
        ∃ name, x.state.database.getCollection task.collection = some name) ∧
      ∀ later y, Run Deployment.step x later y →
        x.state.database.Extends y.state.database ∧
        ∀ owner w, x.state.family.lookup owner = some w → ∀ key, key ∉ w.object.collections →
          ¬ Deployment.Holds owner key y ∧
            ∀ connected task, (owner, connected, .dispatched task) ∈ y.history →
              task.collection ≠ key := by
  refine ⟨fun owner connected task htask => ?_, fun later y hlater => ?_⟩
  · have hholds := Deployment.tasksHeld_run hrun owner connected task htask
    exact Deployment.heldKnown_run hrun hbrings owner task.collection hholds
  · refine ⟨Deployment.extends_run hlater, fun owner w hw key hkey => ?_⟩
    have hnot := Deployment.not_holds_run (Deployment.booked_run hrun) hlater hw hkey
    refine ⟨hnot, fun connected task htask heq => hnot ?_⟩
    exact heq ▸ Deployment.tasksHeld_run (hrun.trans hlater) owner connected task htask

/-- Owner 1 begins before key 1 has a name, owner 2 after; the second name for the key comes too late. -/
def lateCollection : List (Deployment.Action Unit Unit) :=
  [.create 1 0 .blank, .addCollection 1 "b", .create 2 0 .blank, .addCollection 1 "c",
    .call 2 (.pushOperation 1 .insert ()), .call 2 (.update 0 [0, 1] .unknown), .call 2 (.runTask 0)]

theorem tasks_resolve_late_collection :
    ∃ (visited : List (Config (Deployment Unit Unit) (UInt64 × Bool × Event) ×
        Deployment.Action Unit Unit))
      (x : Config (Deployment Unit Unit) (UInt64 × Bool × Event)),
      visited.map Prod.snd = lateCollection ∧
      Run Deployment.step (Deployment.start .single) visited x ∧
      (∃ name, x.state.database.getCollection 1 = some name) ∧
      ∀ later y, Run Deployment.step x later y →
        y.state.database.getCollection 1 = some "b" ∧ ¬ Deployment.Holds 1 1 y := by
  obtain ⟨x, hx⟩ := Option.isSome_iff_exists.mp (show (exec Deployment.step
    (Deployment.start .single) lateCollection).isSome = true by decide)
  have hbrings : Throughout Deployment.BringsKnown
      (trace Deployment.step (Deployment.start .single) lateCollection) := by
    intro p hp owner executeEvery object hact key hkey
    have hmem : p.2 ∈ lateCollection := actions_trace hx ▸ List.mem_map_of_mem hp
    have hblank : object = .blank := by
      simp only [hact, lateCollection, List.mem_cons, Deployment.Action.create.injEq, reduceCtorEq,
        List.not_mem_nil, or_false, false_or] at hmem
      rcases hmem with ⟨-, -, heq⟩ | ⟨-, -, heq⟩ <;> exact heq
    rw [hblank] at hkey
    exact absurd hkey Finmap.notMem_empty
  have hfacts : (some x).map (fun x => (x.state.database.getCollection 1,
      x.history.any fun ev => ev == (2, true, .dispatched ⟨1, false, [0]⟩))) =
      some (some "b", true) := by
    rw [← hx]
    decide
  have hheld : ((some x).bind fun x => (x.state.family.lookup 1).map fun w =>
      decide (1 ∈ w.object.collections)) = some false := by
    rw [← hx]
    decide
  simp only [Option.map_some, Option.some.injEq, Prod.mk.injEq] at hfacts
  obtain ⟨hname, hany⟩ := hfacts
  rw [Option.bind_some] at hheld
  obtain ⟨w, hw, hnot⟩ := Option.map_eq_some_iff.mp hheld
  obtain ⟨ev, hev, heq⟩ := List.any_eq_true.mp hany
  obtain rfl := eq_of_beq heq
  obtain ⟨hresolves, hlater⟩ := tasks_resolve (run_trace hx) hbrings
  refine ⟨_, x, actions_trace hx, run_trace hx, hresolves 2 true _ hev, fun later y hrun => ?_⟩
  obtain ⟨hextends, hmissing⟩ := hlater later y hrun
  exact ⟨hextends 1 "b" hname, (hmissing 1 w hw 1 (of_decide_eq_false hnot)).1⟩

end Sekkeizu
