/-
# Sekkeizu.Network.Atomicity — the sections of the plugin are atomic.

The units of `tick` are followed like those of the tasks, so every run of `PluginLocks` is followed by a run
of `CoreloopNetworkPlugin`.
-/
import Sekkeizu.Network.Parties


namespace Sekkeizu

open PartialSystem Mutexes

variable {threads : Nat} {endpoint buffer : Type*}

/-! ## Where the other tick stands -/

namespace Stands

variable [DecidableEq endpoint] {point : TickPoint threads endpoint} {new : Finset endpoint}
variable {unfinished : Multiset endpoint}
variable {data : Finmap fun _ : endpoint => List buffer} {stage : TickStage endpoint}
variable {data' : Finmap fun _ : endpoint => List (Fin threads × buffer)}
variable {owed : List (Observation threads endpoint buffer)}

theorem eq_between (h : Stands point new unfinished data stage data' owed) {at' : TickStage endpoint}
    (hpoint : point.stage = some at') :
    stage = at' ∧ unfinished = 0 ∧ data = withoutThreads data' ∧ owed = [] := by
  cases h with
  | between hstage =>
      rw [hstage] at hpoint
      exact ⟨Option.some.inj hpoint, rfl, rfl, rfl⟩
  | clients created hplace hnodup hnew hnot =>
      rcases hplace with rfl | ⟨call, rfl⟩ <;> exact absurd hpoint (by simp [TickPoint.stage])
  | inputs todo left hplace hleft hkeys =>
      rcases hplace with rfl | ⟨rfl, -⟩ <;> exact absurd hpoint (by simp [TickPoint.stage])
  | answered e => exact absurd hpoint (by simp [TickPoint.stage])

theorem exists_clients (h : Stands point new unfinished data stage data' owed) {todo : Finset endpoint}
    (hpoint : point = .newClients todo ∨ ∃ call, point = .newClient todo call) :
    ∃ created : List endpoint, created.Nodup ∧ (∀ e, e ∈ new ↔ e ∈ created ∨ e ∈ todo) ∧
      (∀ e ∈ created, e ∉ todo) ∧
      data = created.foldl (fun data e => data.emplace e []) (withoutThreads data') ∧
      stage = .idle ∧ unfinished = 0 ∧ owed = created.map .newClient := by
  cases h with
  | between hstage => rcases hpoint with rfl | ⟨call, rfl⟩ <;> exact absurd hstage (by simp [TickPoint.stage])
  | @clients _ _ todo' _ created hplace hnodup hnew hnot =>
      have heq : todo' = todo := by
        rcases hplace with rfl | ⟨call, rfl⟩ <;> rcases hpoint with heq | ⟨call', heq⟩ <;> cases heq <;> rfl
      subst heq
      exact ⟨created, hnodup, hnew, hnot, rfl, rfl, rfl, rfl⟩
  | inputs todo' left hplace hleft hkeys =>
      rcases hplace with rfl | ⟨rfl, -⟩ <;> simp at hpoint
  | answered e => simp at hpoint

theorem exists_left (h : Stands point new unfinished data stage data' owed) {todo : Finset endpoint}
    (hpoint : point = .execute todo ∨ point = .wait ∧ todo = ∅) :
    ∃ left : Finset endpoint, left.val = todo.val + unfinished ∧ left ⊆ data'.keys ∧
      data = withoutThreads data' ∧ stage = .inputs left ∧ owed = [] := by
  cases h with
  | between hstage =>
      rcases hpoint with rfl | ⟨rfl, -⟩ <;> exact absurd hstage (by simp [TickPoint.stage])
  | clients created hplace hnodup hnew hnot =>
      rcases hplace with rfl | ⟨call, rfl⟩ <;> simp at hpoint
  | inputs todo' left hplace hleft hkeys =>
      have heq : todo' = todo := by
        rcases hplace with rfl | ⟨rfl, rfl⟩ <;> rcases hpoint with heq | ⟨heq, rfl⟩ <;> cases heq <;> rfl
      subst heq
      exact ⟨left, hleft, hkeys, rfl, rfl, rfl⟩
  | answered e => simp at hpoint

theorem exists_answered (h : Stands (.disconnects []) new unfinished data stage data' owed) :
    ∃ e, stage = .disconnecting .callback e [] ∧ unfinished = 0 ∧ data = withoutThreads data' ∧
      owed = [.onDisconnected e] := by
  cases h with
  | between hstage => exact absurd hstage (by simp [TickPoint.stage])
  | clients created hplace hnodup hnew hnot => simp at hplace
  | inputs todo' left hplace hleft hkeys => simp at hplace
  | answered e => exact ⟨e, rfl, rfl, rfl, rfl⟩

/-- Between the sections that are behind, and outside the wait for the inputs. -/
theorem of_eq {at' : TickStage endpoint} (hpoint : point.stage = some at') (hstage : stage = at')
    (hunfinished : unfinished = 0) (hdata : data = withoutThreads data') :
    Stands point new unfinished data stage data' [] := by
  subst hstage hunfinished hdata
  exact .between hpoint

end Stands

namespace PluginLocks

variable {x y z : PluginLocks threads endpoint buffer}
variable {s s' : CoreloopNetworkPlugin threads endpoint buffer}
variable {owed : List (Observation threads endpoint buffer)}

/-! ## Units of `tick` -/

/-- `tick` moves and leaves the local mutexes alone. -/
theorem localMutexOf_tick (hpackets : y.packets = x.packets)
    (howner : ∀ i, y.owner (.localMutex i) = x.owner (.localMutex i))
    (htick : (y.tick.localMutex : LocalMutex endpoint buffer) = x.tick.localMutex) :
    y.localMutexOf = x.localMutexOf := by
  funext i
  apply localMutexOf_eq (howner i)
  · intro n _
    rw [hpackets]
  · intro _
    exact htick

/-- `tick` locks or unlocks one local mutex. -/
theorem update_localMutexOf_tick {i : Fin threads} {mutex : LocalMutex endpoint buffer}
    (hpackets : y.packets = x.packets)
    (howner : ∀ j ≠ i, y.owner (.localMutex j) = x.owner (.localMutex j))
    (htick : ∀ j ≠ i, x.owner (.localMutex j) = some .tick →
      (y.tick.localMutex : LocalMutex endpoint buffer) = x.tick.localMutex)
    (hself : y.localMutexOf i = mutex) : Function.update x.localMutexOf i mutex = y.localMutexOf := by
  rw [Function.update_eq_iff]
  refine ⟨hself.symm, ?_⟩
  intro j hj
  symm
  apply localMutexOf_eq (howner j hj)
  · intro n _
    rw [hpackets]
  · exact htick j hj

/-- `tick` has one local mutex, or none. -/
theorem notMem_owner_tick (hx : x.Accounted) {idx j : Fin threads}
    (hnow : x.tick = .lockLocal idx ∨ x.tick = .collect idx) (hj : j ≠ idx) :
    x.owner (.localMutex j) ≠ some .tick := by
  intro howner
  have hheld : .localMutex j ∈ x.tick.held := (hx.exclusive _ .tick).mp howner
  rcases hnow with hnow | hnow <;> simp [hnow, TickPoint.held] at hheld
  exact hj hheld

/-- A unit of `post_network_tick` that is not its return. -/
theorem tickShows_of_ne {choice : Choice endpoint} {call : Option (DisconnectCall endpoint)}
    (h : choice = .goesOn → call = none → False) :
    (tickShows (.postNetworkTick call : TickPoint threads endpoint) choice :
      List (Observation threads endpoint buffer)) = callShows call := by
  cases call with
  | some c => rfl
  | none =>
      cases choice with
      | goesOn => exact (h rfl rfl).elim
      | _ => rfl

variable [DecidableEq endpoint]

theorem step_tick (h : s.stage ≠ .aborted) : CoreloopNetworkPlugin.step s .tick = s.tick := by
  unfold CoreloopNetworkPlugin.step
  split
  · next habort => exact absurd habort h
  · rfl

/-- A unit of `tick` at which a section takes effect without a callback. -/
theorem Follows.ticks (h : RefinesOrAborted [] y s') (hrunning : s.stage ≠ .aborted)
    (htick : s.tick = some (s', [])) : Follows y [] s :=
  Follows.callbacks h ((step_tick hrunning).trans htick) rfl

/-- `tick` moves, perhaps with a lock or an unlock of a mutex that is not a local one. -/
theorem refines_tick (h : Refines owed x s) {next : TickPoint threads endpoint}
    {owner : PluginMutex threads → Option Party} {stage : TickStage endpoint}
    {owed' : List (Observation threads endpoint buffer)}
    (howner : ∀ i, owner (.localMutex i) = x.owner (.localMutex i))
    (hmutex : (next.localMutex : LocalMutex endpoint buffer) = x.tick.localMutex)
    (htested : ∀ idx, next = .lockLocal idx ∨ next = .collect idx → (x.pendingInputs idx).keys ≠ ∅)
    (hrequested : next = .lockDisconnects → x.pendingDisconnects ≠ [])
    (hstands : Stands next x.newEndpoints x.unfinished x.endpointData stage s.endpointData owed') :
    Refines owed' { x with owner := owner, tick := next } { s with stage := stage } :=
  { h with
    localMutex := by
      rw [h.localMutex, localMutexOf_tick]
      · rfl
      · exact fun i => (howner i).symm
      · exact hmutex.symm
    tested := htested
    requested := hrequested
    stands := hstands }

/-- A unit that shows nothing. -/
theorem Follows.silent {shown : List (Observation threads endpoint buffer)} (h : Follows y owed s)
    (hshown : shown = []) : Follows y (owed ++ shown) s := by
  rw [hshown, List.append_nil]
  exact h

/-! ### The new clients -/

theorem follows_testNew (h : Refines owed x s) (hnow : x.tick = .testNew) :
    Follows { x with tick := if x.newEndpoints = ∅ then .accumulate 0 else .lockNew } owed s := by
  have hstands := h.stands
  rw [hnow] at hstands
  obtain ⟨hstage, hunfinished, hdata, rfl⟩ := hstands.eq_between rfl
  split_ifs with hempty
  · have hsame : s.newEndpoints = ∅ := h.newEndpoints.trans hempty
    have hstep : CoreloopNetworkPlugin.step s (.newClients []) =
        some ({ s with stage := .accumulate 0 }, []) := by
      simp [CoreloopNetworkPlugin.step, CoreloopNetworkPlugin.newClients, hstage, hsame]
    apply Follows.callbacks (.inl _) hstep rfl
    apply refines_tick h (fun _ => rfl)
    · rw [hnow]
      rfl
    · simp
    · simp
    · exact .of_eq rfl rfl hunfinished hdata
  · apply Follows.waits
    apply refines_tick h (fun _ => rfl)
    · rw [hnow]
      rfl
    · simp
    · simp
    · exact .of_eq rfl hstage hunfinished hdata

theorem follows_lockNew (h : Refines owed x s) (hnow : x.tick = .lockNew) :
    Follows
      { x with
        owner := Function.update x.owner .sharedMutex (some .tick)
        tick := .newClients x.newEndpoints } owed s := by
  have hstands := h.stands
  rw [hnow] at hstands
  obtain ⟨hstage, hunfinished, hdata, rfl⟩ := hstands.eq_between rfl
  apply Follows.waits
  apply refines_tick h (update_sharedMutex x.owner _)
  · rw [hnow]
    rfl
  · simp
  · simp
  · rw [hunfinished, hdata, hstage]
    exact .clients [] (.inl rfl) List.nodup_nil (by simp) (by simp)

/-- `new_client` is called: the section it belongs to has not taken effect. -/
theorem follows_created (h : Refines owed x s) {todo : Finset endpoint} {e : endpoint}
    (hnow : x.tick = .newClients todo) (he : e ∈ todo) :
    Follows
      { x with
        endpointData := x.endpointData.emplace e []
        tick := .newClient (todo.erase e) none } (owed ++ [.newClient e]) s := by
  have hstands := h.stands
  rw [hnow] at hstands
  obtain ⟨created, hnodup, hnew, hnot, hdata, hstage, hunfinished, rfl⟩ := hstands.exists_clients (.inl rfl)
  apply Follows.waits
  exact {
    h with
    localMutex := by
      rw [h.localMutex, localMutexOf_tick]
      · rfl
      · intro i
        rfl
      · rw [hnow]
        rfl
    tested := by simp
    requested := by simp
    stands := by
      have hnodup' : (created ++ [e]).Nodup := by
        rw [List.nodup_append]
        refine ⟨hnodup, List.nodup_singleton e, ?_⟩
        rintro e₁ he₁ e₂ he₂ rfl
        obtain rfl := List.mem_singleton.mp he₂
        exact hnot e₁ he₁ he
      have hnew' : ∀ e', e' ∈ x.newEndpoints ↔ e' ∈ created ++ [e] ∨ e' ∈ todo.erase e := by
        intro e'
        rw [hnew, List.mem_append, List.mem_singleton, Finset.mem_erase, or_assoc]
        by_cases heq : e' = e
        · simp [heq, he]
        · simp [heq]
      have hnot' : ∀ e' ∈ created ++ [e], e' ∉ todo.erase e := by
        intro e' he' hin
        rw [Finset.mem_erase] at hin
        rcases List.mem_append.mp he' with hold | hlast
        · exact hnot e' hold hin.2
        · exact hin.1 (List.mem_singleton.mp hlast)
      have hdata' : x.endpointData.emplace e [] =
          (created ++ [e]).foldl (fun data e => data.emplace e []) (withoutThreads s.endpointData) := by
        rw [hdata, List.foldl_append]
        rfl
      rw [← List.map_singleton, ← List.map_append, hstage, hdata']
      rw [unfinished] at hunfinished
      dsimp only [unfinished]
      rw [hunfinished]
      exact .clients (created ++ [e]) (.inr ⟨none, rfl⟩) hnodup' hnew' hnot' }

theorem follows_newClients (h : Refines owed x s) (hnow : x.tick = .newClients ∅) :
    Follows { x.unlock .sharedMutex with newEndpoints := ∅, tick := .accumulate 0 } owed s := by
  have hstands := h.stands
  rw [hnow] at hstands
  obtain ⟨created, hnodup, hnew, hnot, hdata, hstage, hunfinished, rfl⟩ := hstands.exists_clients (.inl rfl)
  have horder : created.toFinset = s.newEndpoints := by
    ext e
    rw [List.mem_toFinset, h.newEndpoints, hnew]
    simp
  have hstep : CoreloopNetworkPlugin.step s (.newClients created) =
      some ({ s with
        endpointData := created.foldl (fun data e => data.emplace e []) s.endpointData
        newEndpoints := ∅
        stage := .accumulate 0 }, created.map .newClient) := by
    simp [CoreloopNetworkPlugin.step, CoreloopNetworkPlugin.newClients, hstage, hnodup, horder]
  apply Follows.callbacks (.inl _) hstep
  · rw [List.filterMap_map]
    exact congrFun (List.filterMap_eq_map (f := Observation.newClient)) created
  exact {
    h with
    localMutex := by
      rw [h.localMutex, localMutexOf_tick]
      · rfl
      · intro i
        simp
      · rw [hnow]
        rfl
    newEndpoints := rfl
    tested := by simp
    requested := by simp
    stands := by
      apply Stands.of_eq rfl rfl hunfinished
      rw [withoutThreads, Finmap.mapVals_foldl_emplace]
      exact hdata }

theorem follows_newClient (h : Refines owed x s) {todo : Finset endpoint}
    (hnow : x.tick = .newClient todo none) : Follows { x with tick := .newClients todo } owed s := by
  have hstands := h.stands
  rw [hnow] at hstands
  obtain ⟨created, hnodup, hnew, hnot, hdata, hstage, hunfinished, rfl⟩ :=
    hstands.exists_clients (.inr ⟨none, rfl⟩)
  apply Follows.waits
  apply refines_tick h (fun _ => rfl)
  · rw [hnow]
    rfl
  · simp
  · simp
  · rw [hunfinished, hdata, hstage]
    exact .clients created (.inl rfl) hnodup hnew hnot

theorem follows_tickClients (h : Refines owed x s) {choice : Choice endpoint}
    (hstep : x.tickClients x.tick choice = some y) :
    Follows y (owed ++ tickShows x.tick choice) s := by
  unfold tickClients at hstep
  split at hstep
  · next hnow =>
      obtain rfl := Option.some.inj hstep
      apply Follows.silent (follows_testNew h hnow)
      rw [hnow]
      rfl
  · next hnow =>
      obtain ⟨z, hlock, rfl⟩ := Option.map_eq_some_iff.mp hstep
      obtain ⟨-, rfl⟩ := lock_eq_some hlock
      apply Follows.silent (follows_lockNew h hnow)
      rw [hnow]
      rfl
  · next todo e hnow =>
      split_ifs at hstep with he
      obtain rfl := Option.some.inj hstep
      rw [hnow]
      exact follows_created h hnow he
  · next todo hnow =>
      split_ifs at hstep with hempty
      obtain rfl := Option.some.inj hstep
      subst hempty
      apply Follows.silent (follows_newClients h hnow)
      rw [hnow]
      rfl
  · next todo hnow =>
      obtain rfl := Option.some.inj hstep
      apply Follows.silent (follows_newClient h hnow)
      rw [hnow]
      rfl
  · next todo call hnow hcase =>
      obtain ⟨⟨call', z⟩, hcall, rfl⟩ := Option.map_eq_some_iff.mp hstep
      have hcalls : Calls .tick x call z call' := calls_of_callbackStep hcall
      have hout : ∀ e, call = some (.push e) → x.tick.isDisconnecting = false := by
        intro e _
        rw [hnow]
        rfl
      have hplace : SamePlace x.tick (.newClient todo call') := by
        rw [hnow]
        exact .newClient todo call call'
      have hfollows := follows_calls h hcalls hout _ x.callers x.inputs hplace rfl
      rw [hnow]
      obtain ⟨owner, requests, rfl⟩ := hcalls.eq
      exact hfollows
  · exact absurd hstep (by simp)

/-! ### The inputs -/

theorem follows_accumulate (h : Refines owed x s) {idx : Nat} (hnow : x.tick = .accumulate idx)
    (hstep : x.tickInputs (.accumulate idx) .goesOn = some y) : Follows y owed s := by
  have hstands := h.stands
  rw [hnow] at hstands
  obtain ⟨hstage, hunfinished, hdata, rfl⟩ := hstands.eq_between rfl
  have hrunning : s.stage ≠ .aborted := h.stands.stage_ne_aborted
  rw [tickInputs] at hstep
  split_ifs at hstep with hi hempty
  · obtain rfl := Option.some.inj hstep
    have htick : s.tick = some ({ s with stage := .accumulate (idx + 1) }, []) := by
      simp [CoreloopNetworkPlugin.tick, hstage, hi, h.pendingInputs, hempty]
    apply Follows.ticks (.inl _) hrunning htick
    apply refines_tick h (fun _ => rfl)
    · rw [hnow]
      rfl
    · simp
    · simp
    · exact .of_eq rfl rfl hunfinished hdata
  · obtain rfl := Option.some.inj hstep
    apply Follows.waits
    apply refines_tick h (fun _ => rfl)
    · rw [hnow]
      rfl
    · intro j hj
      obtain rfl := TickPoint.lockLocal.inj (hj.resolve_right (by simp))
      exact hempty
    · simp
    · exact .of_eq rfl hstage hunfinished hdata
  · obtain rfl := Option.some.inj hstep
    have htick : s.tick = some ({ s with stage := .inputs s.endpointData.keys }, []) := by
      simp [CoreloopNetworkPlugin.tick, hstage, hi]
    apply Follows.ticks (.inl _) hrunning htick
    exact {
      h with
      localMutex := by
        rw [h.localMutex, localMutexOf_tick]
        · rfl
        · intro i
          rfl
        · rw [hnow]
          rfl
      counter := (congrArg Multiset.card hunfinished).symm
      tested := by simp
      requested := by simp
      stands := by
        have hkeys : x.endpointData.keys = s.endpointData.keys := by
          rw [hdata, withoutThreads, Finmap.keys_mapVals]
        rw [hkeys, hdata]
        exact .inputs s.endpointData.keys s.endpointData.keys (.inl rfl)
          ((add_zero _).symm.trans (congrArg _ hunfinished.symm)) (Finset.Subset.refl _) }

theorem follows_lockIdx (hx : x.Accounted) (h : Refines owed x s) {idx : Fin threads}
    (hnow : x.tick = .lockLocal idx) (hfree : x.owner (.localMutex idx) = none) :
    Follows
      { x with
        owner := Function.update x.owner (.localMutex idx) (some .tick)
        tick := .collect idx } owed s := by
  have hstands := h.stands
  rw [hnow] at hstands
  obtain ⟨hstage, hunfinished, hdata, rfl⟩ := hstands.eq_between rfl
  apply Follows.waits
  exact {
    h with
    localMutex := by
      rw [h.localMutex, ← Function.update_eq_self idx x.localMutexOf, localMutexOf_free hfree]
      apply update_localMutexOf_tick
      · rfl
      · intro j hj
        exact Function.update_of_ne (by simpa using hj) _ _
      · intro j hj howner
        exact absurd howner (notMem_owner_tick hx (.inl hnow) hj)
      · rw [localMutexOf]
        simp [TickPoint.localMutex]
    tested := by
      intro j hj
      obtain rfl := TickPoint.collect.inj (hj.resolve_left (by simp))
      exact h.tested idx (.inl hnow)
    requested := by simp
    stands := .of_eq rfl hstage hunfinished hdata }

theorem follows_collect (hx : x.Accounted) (h : Refines owed x s) {idx : Fin threads}
    (hnow : x.tick = .collect idx) :
    Follows { (x.moveInputs idx).unlock (.localMutex idx) with tick := .accumulate (idx + 1) } owed s := by
  have hstands := h.stands
  rw [hnow] at hstands
  obtain ⟨hstage, hunfinished, hdata, rfl⟩ := hstands.eq_between rfl
  have howner : x.owner (.localMutex idx) = some .tick := by
    apply (hx.exclusive _ .tick).mpr
    rw [held, point, hnow]
    exact Set.mem_singleton _
  have hmutex : x.localMutexOf idx = .free := by
    rw [localMutexOf, howner]
    simp [hnow, TickPoint.localMutex]
  have htick : s.tick = some ({ s.collect idx with stage := .accumulate (idx + 1) }, []) := by
    have hkeys : (s.pendingInputs idx).keys ≠ ∅ := by
      rw [h.pendingInputs]
      exact h.tested idx (.inr hnow)
    have hfree : s.localMutex idx = .free := by rw [h.localMutex, hmutex]
    simp [CoreloopNetworkPlugin.tick, hstage, hkeys, hfree, LocalMutex.isFree]
  apply Follows.ticks (.inl _) h.stands.stage_ne_aborted htick
  have hpending : ∀ e, s.pendingOf idx e = x.pendingOf idx e := by
    intro e
    rw [CoreloopNetworkPlugin.pendingOf, pendingOf, h.pendingInputs]
  exact {
    h with
    localMutex := by
      dsimp only [CoreloopNetworkPlugin.collect]
      rw [h.localMutex, ← Function.update_eq_self idx x.localMutexOf, hmutex]
      apply update_localMutexOf_tick
      · rfl
      · intro j hj
        exact Function.update_of_ne (by simpa using hj) _ _
      · intro j hj howner
        exact absurd howner (notMem_owner_tick hx (.inr hnow) hj)
      · exact localMutexOf_free (Function.update_self _ _ _)
    pendingInputs := by
      dsimp only [CoreloopNetworkPlugin.collect, moveInputs, unlock]
      rw [h.pendingInputs, hdata]
      simp only [withoutThreads, Finmap.mem_mapVals]
    tested := by simp
    requested := by simp
    stands := by
      apply Stands.of_eq rfl rfl hunfinished
      dsimp only [CoreloopNetworkPlugin.collect, moveInputs, unlock]
      rw [hdata]
      apply Finmap.ext_lookup
      intro e
      simp only [withoutThreads, Finmap.lookup_mapVals, hpending]
      cases s.endpointData.lookup e with
      | none => rfl
      | some data => simp [Function.comp_def] }

/-- A client gets its task: it was left, and it still is. -/
theorem follows_submitted (h : Refines owed x s) {todo : Finset endpoint} {e : endpoint}
    (hnow : x.tick = .execute todo) (he : e ∈ todo) :
    Follows
      { x with
        inputsCounter := x.inputsCounter + 1
        inputs := x.inputs ++ [.clientInputs e none]
        tick := .execute (todo.erase e) } owed s := by
  have hstands := h.stands
  rw [hnow] at hstands
  obtain ⟨left, hleft, hkeys, hdata, hstage, rfl⟩ := hstands.exists_left (.inl rfl)
  have hunfinished : Account.total InputTask.client (x.inputs ++ [.clientInputs e none]) =
      x.unfinished + {e} := by
    rw [Account.total_append, Account.total_singleton]
    rfl
  apply Follows.waits
  exact {
    h with
    localMutex := by
      rw [h.localMutex, localMutexOf_tick]
      · rfl
      · intro i
        rfl
      · rw [hnow]
        rfl
    counter := by
      dsimp only [unfinished]
      rw [hunfinished, Multiset.card_add, Multiset.card_singleton, h.counter]
    tested := by simp
    requested := by simp
    stands := by
      dsimp only [unfinished]
      rw [hunfinished, hdata, hstage]
      apply Stands.inputs (todo.erase e) left (.inl rfl) _ hkeys
      rw [hleft, Finset.erase_val, add_comm x.unfinished, ← add_assoc, add_comm (todo.val.erase e),
        Multiset.singleton_add, Multiset.cons_erase (Finset.mem_val.mpr he)] }

theorem follows_execute (h : Refines owed x s) (hnow : x.tick = .execute ∅) :
    Follows { x with tick := .wait } owed s := by
  have hstands := h.stands
  rw [hnow] at hstands
  obtain ⟨left, hleft, hkeys, hdata, hstage, rfl⟩ := hstands.exists_left (.inl rfl)
  apply Follows.waits
  apply refines_tick h (fun _ => rfl)
  · rw [hnow]
    rfl
  · simp
  · simp
  · rw [hdata, hstage]
    exact .inputs ∅ left (.inr ⟨rfl, rfl⟩) hleft hkeys

/-- `_inputs_counter.wait()` returns when no task is left. -/
theorem follows_wait (h : Refines owed x s) (hnow : x.tick = .wait) (hcounter : x.inputsCounter = 0) :
    Follows { x with tick := .postNetworkTick none } owed s := by
  have hstands := h.stands
  rw [hnow] at hstands
  obtain ⟨left, hleft, hkeys, hdata, hstage, rfl⟩ := hstands.exists_left (.inr ⟨rfl, rfl⟩)
  have hunfinished : x.unfinished = 0 := Multiset.card_eq_zero.mp (h.counter.symm.trans hcounter)
  have hempty : left = ∅ := by
    rw [hunfinished, add_zero] at hleft
    exact Finset.val_inj.mp hleft
  have htick : s.tick = some ({ s with stage := .post }, []) := by
    simp [CoreloopNetworkPlugin.tick, hstage, hempty]
  apply Follows.ticks (.inl _) h.stands.stage_ne_aborted htick
  apply refines_tick h (fun _ => rfl)
  · rw [hnow]
    rfl
  · simp
  · simp
  · exact .of_eq rfl rfl hunfinished hdata

/-- `post_network_tick` returns. -/
theorem follows_postNetworkTick (h : Refines owed x s) (hnow : x.tick = .postNetworkTick none) :
    Follows { x with tick := .testDisconnects } (owed ++ [.postNetworkTick]) s := by
  have hstands := h.stands
  rw [hnow] at hstands
  obtain ⟨hstage, hunfinished, hdata, rfl⟩ := hstands.eq_between rfl
  have hstep : CoreloopNetworkPlugin.step s .tick =
      some ({ s with stage := .disconnects }, [.postNetworkTick]) := by
    rw [step_tick h.stands.stage_ne_aborted]
    simp [CoreloopNetworkPlugin.tick, hstage]
  apply Follows.callbacks (.inl _) hstep rfl
  apply refines_tick h (fun _ => rfl)
  · rw [hnow]
    rfl
  · simp
  · simp
  · exact .of_eq rfl rfl hunfinished hdata

theorem follows_tickInputs (hx : x.Accounted) (h : Refines owed x s) {choice : Choice endpoint}
    (hstep : x.tickInputs x.tick choice = some y) : Follows y (owed ++ tickShows x.tick choice) s := by
  have hstep' := hstep
  unfold tickInputs at hstep
  split at hstep
  · next idx hnow =>
      rw [hnow] at hstep'
      apply Follows.silent (follows_accumulate h hnow hstep')
      rw [hnow]
      rfl
  · next idx hnow =>
      obtain ⟨z, hlock, rfl⟩ := Option.map_eq_some_iff.mp hstep
      obtain ⟨hfree, rfl⟩ := lock_eq_some hlock
      apply Follows.silent (follows_lockIdx hx h hnow hfree)
      rw [hnow]
      rfl
  · next idx hnow =>
      obtain rfl := Option.some.inj hstep
      apply Follows.silent (follows_collect hx h hnow)
      rw [hnow]
      rfl
  · next todo e hnow =>
      split_ifs at hstep with he
      obtain rfl := Option.some.inj hstep
      apply Follows.silent (follows_submitted h hnow he)
      rw [hnow]
      rfl
  · next todo hnow =>
      split_ifs at hstep with hempty
      obtain rfl := Option.some.inj hstep
      subst hempty
      apply Follows.silent (follows_execute h hnow)
      rw [hnow]
      rfl
  · next hnow =>
      split_ifs at hstep with hcounter
      obtain rfl := Option.some.inj hstep
      apply Follows.silent (follows_wait h hnow hcounter)
      rw [hnow]
      rfl
  · next hnow =>
      obtain rfl := Option.some.inj hstep
      rw [hnow]
      exact follows_postNetworkTick h hnow
  · next call hnow hcase =>
      obtain ⟨⟨call', z⟩, hcall, rfl⟩ := Option.map_eq_some_iff.mp hstep
      have hcalls : Calls .tick x call z call' := calls_of_callbackStep hcall
      have hout : ∀ e, call = some (.push e) → x.tick.isDisconnecting = false := by
        intro e _
        rw [hnow]
        rfl
      have hplace : SamePlace x.tick (.postNetworkTick call') := by
        rw [hnow]
        exact .postNetworkTick call call'
      have hfollows := follows_calls h hcalls hout _ x.callers x.inputs hplace rfl
      rw [hnow, tickShows_of_ne hcase]
      obtain ⟨owner, requests, rfl⟩ := hcalls.eq
      exact hfollows
  · exact absurd hstep (by simp)

/-! ### The disconnects -/

theorem follows_testDisconnects (h : Refines owed x s) (hnow : x.tick = .testDisconnects) :
    Follows { x with tick := if x.pendingDisconnects = [] then .idle else .lockDisconnects } owed s := by
  have hstands := h.stands
  rw [hnow] at hstands
  obtain ⟨hstage, hunfinished, hdata, rfl⟩ := hstands.eq_between rfl
  split_ifs with hempty
  · have htick : s.tick = some ({ s with stage := .idle }, []) := by
      simp [CoreloopNetworkPlugin.tick, hstage, h.pendingDisconnects, hempty]
    apply Follows.ticks (.inl _) h.stands.stage_ne_aborted htick
    apply refines_tick h (fun _ => rfl)
    · rw [hnow]
      rfl
    · simp
    · simp
    · exact .of_eq rfl rfl hunfinished hdata
  · apply Follows.waits
    apply refines_tick h (fun _ => rfl)
    · rw [hnow]
      rfl
    · simp
    · exact fun _ => hempty
    · exact .of_eq rfl hstage hunfinished hdata

theorem follows_lockDisconnects (h : Refines owed x s) (hnow : x.tick = .lockDisconnects) :
    Follows
      { x with
        owner := Function.update x.owner .disconnectMutex (some .tick)
        tick := .disconnects x.pendingDisconnects } owed s := by
  have hstands := h.stands
  rw [hnow] at hstands
  obtain ⟨hstage, hunfinished, hdata, rfl⟩ := hstands.eq_between rfl
  obtain ⟨e, rest, hrequests⟩ := List.exists_cons_of_ne_nil (h.requested hnow)
  have htick : s.tick = some ({ s with stage := .disconnecting .eraseData e rest }, []) := by
    simp [CoreloopNetworkPlugin.tick, hstage, h.pendingDisconnects, hrequests]
  apply Follows.ticks (.inl _) h.stands.stage_ne_aborted htick
  apply refines_tick h (update_disconnectMutex x.owner _)
  · rw [hnow]
    rfl
  · simp
  · simp
  · rw [hrequests]
    exact .of_eq rfl rfl hunfinished hdata

/-- The `unlock` after the loop: the last `on_disconnected` takes effect. -/
theorem follows_disconnects_nil (h : Refines owed x s) (hnow : x.tick = .disconnects []) :
    Follows { x.unlock .disconnectMutex with pendingDisconnects := [], tick := .idle } owed s := by
  have hstands := h.stands
  rw [hnow] at hstands
  obtain ⟨e, hstage, hunfinished, hdata, rfl⟩ := hstands.exists_answered
  have hstep : CoreloopNetworkPlugin.step s .tick =
      some ({ s with pendingDisconnects := [], stage := .idle }, [.onDisconnected e]) := by
    rw [step_tick h.stands.stage_ne_aborted]
    simp [CoreloopNetworkPlugin.tick, hstage, CoreloopNetworkPlugin.disconnectStep]
  apply Follows.callbacks (.inl _) hstep rfl
  exact {
    h with
    localMutex := by
      rw [h.localMutex, localMutexOf_tick]
      · rfl
      · intro i
        simp
      · rw [hnow]
        rfl
    pendingDisconnects := rfl
    tested := by simp
    requested := by simp
    stands := .of_eq rfl rfl hunfinished hdata }

theorem follows_eraseData (h : Refines owed x s) {e : endpoint} {rest : List endpoint}
    (hnow : x.tick = .disconnects (e :: rest)) :
    Follows { x with endpointData := x.endpointData.erase e, tick := .lockAll 0 e rest } owed s := by
  have hstands := h.stands
  rw [hnow] at hstands
  obtain ⟨hstage, hunfinished, hdata, rfl⟩ := hstands.eq_between rfl
  have htick : s.tick = some ({ s with
      endpointData := s.endpointData.erase e
      stage := .disconnecting (.lock 0) e rest }, []) := by
    simp [CoreloopNetworkPlugin.tick, hstage, CoreloopNetworkPlugin.disconnectStep]
  apply Follows.ticks (.inl _) h.stands.stage_ne_aborted htick
  exact {
    h with
    localMutex := by
      rw [h.localMutex, localMutexOf_tick]
      · rfl
      · intro i
        rfl
      · rw [hnow]
        rfl
    tested := by simp
    requested := by simp
    stands := by
      apply Stands.of_eq rfl rfl hunfinished
      rw [withoutThreads, Finmap.mapVals_erase]
      exact congrArg (Finmap.erase e) hdata }

theorem follows_lockAll (h : Refines owed x s) {i : Nat} {e : endpoint}
    {rest : List endpoint} (hnow : x.tick = .lockAll i e rest)
    (hstep : x.tickDisconnects (.lockAll i e rest) = some y) : Follows y owed s := by
  have hstands := h.stands
  rw [hnow] at hstands
  obtain ⟨hstage, hunfinished, hdata, rfl⟩ := hstands.eq_between rfl
  rw [tickDisconnects] at hstep
  split_ifs at hstep with hi
  · obtain ⟨z, hlock, rfl⟩ := Option.map_eq_some_iff.mp hstep
    obtain ⟨hfree, rfl⟩ := lock_eq_some hlock
    have htick : s.tick = some ({ s with
        localMutex := Function.update s.localMutex ⟨i, hi⟩ .tick
        stage := .disconnecting (.lock (i + 1)) e rest }, []) := by
      have hmutex : s.localMutex ⟨i, hi⟩ = .free := by
        rw [h.localMutex, localMutexOf_free hfree]
      simp [CoreloopNetworkPlugin.tick, hstage, CoreloopNetworkPlugin.disconnectStep, hi, hmutex,
        LocalMutex.isFree]
    apply Follows.ticks (.inl _) h.stands.stage_ne_aborted htick
    exact {
      h with
      localMutex := by
        dsimp only
        rw [h.localMutex]
        apply update_localMutexOf_tick
        · rfl
        · intro j hj
          exact Function.update_of_ne (by simpa using hj) _ _
        · intro j hj _
          rw [hnow]
          rfl
        · rw [localMutexOf]
          simp [TickPoint.localMutex]
      tested := by simp
      requested := by simp
      stands := .of_eq rfl rfl hunfinished hdata }
  · obtain rfl := Option.some.inj hstep
    have htick : s.tick = some ({ s with stage := .disconnecting .eraseShared e rest }, []) := by
      simp [CoreloopNetworkPlugin.tick, hstage, CoreloopNetworkPlugin.disconnectStep, hi]
    apply Follows.ticks (.inl _) h.stands.stage_ne_aborted htick
    apply refines_tick h (fun _ => rfl)
    · rw [hnow]
      rfl
    · simp
    · simp
    · exact .of_eq rfl rfl hunfinished hdata

theorem follows_lockSharedTick (h : Refines owed x s) {e : endpoint} {rest : List endpoint}
    (hnow : x.tick = .lockShared e rest) :
    Follows
      { x with
        owner := Function.update x.owner .sharedMutex (some .tick)
        tick := .eraseShared e rest } owed s := by
  have hstands := h.stands
  rw [hnow] at hstands
  obtain ⟨hstage, hunfinished, hdata, rfl⟩ := hstands.eq_between rfl
  apply Follows.waits
  apply refines_tick h (update_sharedMutex x.owner _)
  · rw [hnow]
    rfl
  · simp
  · simp
  · exact .of_eq rfl hstage hunfinished hdata

/-- The endpoint is erased, or it is not there and both abort. -/
theorem follows_eraseShared (h : Refines owed x s) {e : endpoint} {rest : List endpoint}
    (hnow : x.tick = .eraseShared e rest)
    (hstep : x.tickDisconnects (.eraseShared e rest) = some y) : Follows y owed s := by
  have hstands := h.stands
  rw [hnow] at hstands
  obtain ⟨hstage, hunfinished, hdata, rfl⟩ := hstands.eq_between rfl
  rw [tickDisconnects] at hstep
  split_ifs at hstep with hin
  · obtain rfl := Option.some.inj hstep
    have htick : s.tick = some ({ s with
        endpoints := s.endpoints.erase e
        stage := .disconnecting (.unlock 0) e rest }, []) := by
      simp [CoreloopNetworkPlugin.tick, hstage, CoreloopNetworkPlugin.disconnectStep, h.endpoints, hin]
    apply Follows.ticks (.inl _) h.stands.stage_ne_aborted htick
    exact {
      h with
      localMutex := by
        rw [h.localMutex, localMutexOf_tick]
        · rfl
        · intro i
          simp
        · rw [hnow]
          rfl
      endpoints := congrArg (Finset.erase · e) h.endpoints
      tested := by simp
      requested := by simp
      stands := .of_eq rfl rfl hunfinished hdata }
  · obtain rfl := Option.some.inj hstep
    have htick : s.tick = some ({ s with stage := .aborted }, []) := by
      simp [CoreloopNetworkPlugin.tick, hstage, CoreloopNetworkPlugin.disconnectStep, h.endpoints, hin]
    exact Follows.ticks (.inr ⟨rfl, rfl, rfl⟩) h.stands.stage_ne_aborted htick

theorem follows_unlockAll (h : Refines owed x s) {i : Nat} {e : endpoint} {rest : List endpoint}
    (hnow : x.tick = .unlockAll i e rest) (hstep : x.tickDisconnects (.unlockAll i e rest) = some y) :
    Follows y owed s := by
  have hstands := h.stands
  rw [hnow] at hstands
  obtain ⟨hstage, hunfinished, hdata, rfl⟩ := hstands.eq_between rfl
  rw [tickDisconnects] at hstep
  split_ifs at hstep with hi
  · obtain rfl := Option.some.inj hstep
    have hmutex : Function.update s.localMutex ⟨i, hi⟩ .free =
        localMutexOf { x.unlock (.localMutex ⟨i, hi⟩) with tick := .unlockAll (i + 1) e rest } := by
      rw [h.localMutex]
      apply update_localMutexOf_tick
      · rfl
      · intro j hj
        exact Function.update_of_ne (by simpa using hj) _ _
      · intro j hj _
        rw [hnow]
        rfl
      · exact localMutexOf_free (Function.update_self _ _ _)
    unfold clearLocal
    split_ifs with hin
    · have hstep : CoreloopNetworkPlugin.step s .tick = some ({ s with
          localMutex := Function.update s.localMutex ⟨i, hi⟩ .free
          localEndpoints := Function.update s.localEndpoints ⟨i, hi⟩ ((s.localEndpoints ⟨i, hi⟩).erase e)
          pendingInputs := Function.update s.pendingInputs ⟨i, hi⟩ ((s.pendingInputs ⟨i, hi⟩).erase e)
          stage := .disconnecting (.unlock (i + 1)) e rest }, [.released ⟨i, hi⟩ e]) := by
        rw [step_tick h.stands.stage_ne_aborted]
        simp [CoreloopNetworkPlugin.tick, hstage, CoreloopNetworkPlugin.disconnectStep, hi,
          h.localEndpoints, hin]
      apply Follows.callbacks (.inl _) hstep rfl
      exact {
        h with
        localMutex := hmutex
        localEndpoints := by
          dsimp only [unlock]
          rw [h.localEndpoints]
        pendingInputs := by
          dsimp only [unlock]
          rw [h.pendingInputs]
        tested := by simp
        requested := by simp
        stands := .of_eq rfl rfl hunfinished hdata }
    · have hstep : CoreloopNetworkPlugin.step s .tick = some ({ s with
          localMutex := Function.update s.localMutex ⟨i, hi⟩ .free
          stage := .disconnecting (.unlock (i + 1)) e rest }, [.released ⟨i, hi⟩ e]) := by
        rw [step_tick h.stands.stage_ne_aborted]
        simp [CoreloopNetworkPlugin.tick, hstage, CoreloopNetworkPlugin.disconnectStep, hi,
          h.localEndpoints, hin]
      apply Follows.callbacks (.inl _) hstep rfl
      exact {
        h with
        localMutex := hmutex
        tested := by simp
        requested := by simp
        stands := .of_eq rfl rfl hunfinished hdata }
  · obtain rfl := Option.some.inj hstep
    have htick : s.tick = some ({ s with stage := .disconnecting .callback e rest }, []) := by
      simp [CoreloopNetworkPlugin.tick, hstage, CoreloopNetworkPlugin.disconnectStep, hi]
    apply Follows.ticks (.inl _) h.stands.stage_ne_aborted htick
    apply refines_tick h (fun _ => rfl)
    · rw [hnow]
      rfl
    · simp
    · simp
    · exact .of_eq rfl rfl hunfinished hdata

theorem follows_onDisconnected (h : Refines owed x s) {e : endpoint} {rest : List endpoint}
    (hnow : x.tick = .onDisconnected e rest) :
    Follows { x with tick := .disconnects rest } (owed ++ [.onDisconnected e]) s := by
  have hstands := h.stands
  rw [hnow] at hstands
  obtain ⟨hstage, hunfinished, hdata, rfl⟩ := hstands.eq_between rfl
  cases rest with
  | nil =>
      -- `_disconnect_mutex` is still locked: the callback is owed
      apply Follows.waits
      apply refines_tick h (fun _ => rfl)
      · rw [hnow]
        rfl
      · simp
      · simp
      · rw [hunfinished, hdata, hstage]
        exact .answered e
  | cons e' rest =>
      have hstep : CoreloopNetworkPlugin.step s .tick =
          some ({ s with stage := .disconnecting .eraseData e' rest }, [.onDisconnected e]) := by
        rw [step_tick h.stands.stage_ne_aborted]
        simp [CoreloopNetworkPlugin.tick, hstage, CoreloopNetworkPlugin.disconnectStep]
      apply Follows.callbacks (.inl _) hstep rfl
      apply refines_tick h (fun _ => rfl)
      · rw [hnow]
        rfl
      · simp
      · simp
      · exact .of_eq rfl rfl hunfinished hdata

theorem follows_tickDisconnects (h : Refines owed x s) {choice : Choice endpoint}
    (hstep : x.tickDisconnects x.tick = some y) : Follows y (owed ++ tickShows x.tick choice) s := by
  have hstep' := hstep
  unfold tickDisconnects at hstep
  split at hstep
  · next hnow =>
      obtain rfl := Option.some.inj hstep
      apply Follows.silent (follows_testDisconnects h hnow)
      rw [hnow]
      rfl
  · next hnow =>
      obtain ⟨z, hlock, rfl⟩ := Option.map_eq_some_iff.mp hstep
      obtain ⟨-, rfl⟩ := lock_eq_some hlock
      apply Follows.silent (follows_lockDisconnects h hnow)
      rw [hnow]
      rfl
  · next hnow =>
      obtain rfl := Option.some.inj hstep
      apply Follows.silent (follows_disconnects_nil h hnow)
      rw [hnow]
      rfl
  · next e rest hnow =>
      obtain rfl := Option.some.inj hstep
      apply Follows.silent (follows_eraseData h hnow)
      rw [hnow]
      rfl
  · next i e rest hnow =>
      rw [hnow] at hstep'
      apply Follows.silent (follows_lockAll h hnow hstep')
      rw [hnow]
      rfl
  · next e rest hnow =>
      obtain ⟨z, hlock, rfl⟩ := Option.map_eq_some_iff.mp hstep
      obtain ⟨-, rfl⟩ := lock_eq_some hlock
      apply Follows.silent (follows_lockSharedTick h hnow)
      rw [hnow]
      rfl
  · next e rest hnow =>
      rw [hnow] at hstep'
      apply Follows.silent (follows_eraseShared h hnow hstep')
      rw [hnow]
      rfl
  · next i e rest hnow =>
      rw [hnow] at hstep'
      apply Follows.silent (follows_unlockAll h hnow hstep')
      rw [hnow]
      rfl
  · next e rest hnow =>
      obtain rfl := Option.some.inj hstep
      rw [hnow]
      exact follows_onDisconnected h hnow
  · exact absurd hstep (by simp)

theorem follows_tickStep (hx : x.Accounted) (h : Refines owed x s) {choice : Choice endpoint}
    (hstep : x.tickStep choice = some y) : Follows y (owed ++ tickShows x.tick choice) s := by
  unfold tickStep at hstep
  split at hstep
  · exact absurd hstep (by simp)
  · exact follows_tickClients h hstep
  · exact follows_tickClients h hstep
  · exact follows_tickClients h hstep
  · exact follows_tickClients h hstep
  · exact follows_tickInputs hx h hstep
  · exact follows_tickInputs hx h hstep
  · exact follows_tickInputs hx h hstep
  · exact follows_tickInputs hx h hstep
  · exact follows_tickInputs hx h hstep
  · exact follows_tickInputs hx h hstep
  · split at hstep
    · exact follows_tickDisconnects h hstep
    · exact absurd hstep (by simp)

theorem follows_partyStep (hx : x.Accounted) (hs : s.Sections) (h : Refines owed x s) {p : Party}
    {choice : Choice endpoint} (hstep : x.partyStep p choice = some y) :
    Follows y (owed ++ x.partyShows p choice) s := by
  unfold partyStep at hstep
  split at hstep
  · exact follows_tickStep hx h hstep
  · exact follows_inputStep hx h hstep
  · exact follows_packetStep hx hs h hstep
  · exact follows_callerStep hx h hstep
  · exact absurd hstep (by simp)

/-! ## The simulation -/

theorem follows_handleNetworkPacket (hx : x.Accounted) (h : Refines owed x s) (i : Fin threads)
    (e : endpoint) (b : buffer) :
    Follows { x with packets := x.packets ++ [⟨i, e, b, .lockLocal⟩] } (owed ++ [.submitted i e b]) s := by
  have hstep : CoreloopNetworkPlugin.step s (.handleNetworkPacket i e b) =
      some ({ s with packets := s.packets ++ [(i, e, b)] }, [.submitted i e b]) := by
    unfold CoreloopNetworkPlugin.step
    split
    · next habort => exact absurd habort h.stands.stage_ne_aborted
    · rfl
  refine Follows.requests ?_ hstep rfl ?_
  · exact {
      h with
      localMutex := by
        rw [h.localMutex]
        funext j
        symm
        apply localMutexOf_eq
        · rfl
        · intro n howner
          -- an owner is there already
          have hheld : .localMutex j ∈ x.held (.packet n) := (hx.exclusive _ _).mp howner
          cases hn : x.packets[n]? with
          | none =>
              rw [held, point, hn] at hheld
              exact absurd hheld (Set.notMem_empty _)
          | some t =>
              rw [← hn]
              exact List.getElem?_append_left (List.getElem?_eq_some_iff.mp hn).1
        · intro _
          rfl
      packets := by
        dsimp only [waiting]
        rw [List.filterMap_append, h.packets]
        rfl }
  · intro o ho
    obtain rfl := List.mem_singleton.mp ho
    rfl

/-- `tick` is called. -/
theorem follows_called (h : Refines owed x s) (hnow : x.tick = .idle) :
    Follows { x with tick := .testNew } owed s := by
  have hstands := h.stands
  rw [hnow] at hstands
  obtain ⟨hstage, hunfinished, hdata, rfl⟩ := hstands.eq_between rfl
  apply Follows.waits
  apply refines_tick h (fun _ => rfl)
  · rw [hnow]
    rfl
  · simp
  · simp
  · exact .of_eq rfl hstage hunfinished hdata

/-- **The sections follow every unit.** -/
theorem simulation : Simulation
    (PluginLocks.step : Step (PluginLocks threads endpoint buffer) (LocksAction threads endpoint buffer) Empty)
    CoreloopNetworkPlugin.step shows PluginEvent.observation Observation.side Accounted
    CoreloopNetworkPlugin.Sections RefinesOrAborted where
  fine_keeps h hstep := h.step hstep
  coarse_keeps h hstep := h.step hstep
  answers := by
    intro owed x y action evs s hx hs h hstep
    unfold PluginLocks.step at hstep
    split_ifs at hstep with haborted
    have h : Refines owed x s := h.resolve_right fun hdown => haborted hdown.1
    split at hstep
    · next i e b =>
        obtain ⟨rfl, -⟩ := Prod.mk.inj (Option.some.inj hstep)
        exact follows_handleNetworkPacket hx h i e b
    · next e =>
        obtain ⟨rfl, -⟩ := Prod.mk.inj (Option.some.inj hstep)
        exact Follows.silent (Follows.waits { h with }) rfl
    · split at hstep
      · next hidle =>
          obtain ⟨rfl, -⟩ := Prod.mk.inj (Option.some.inj hstep)
          exact Follows.silent (follows_called h hidle) rfl
      · exact absurd hstep (by simp)
    · next p choice =>
        obtain ⟨z, hparty, heq⟩ := Option.map_eq_some_iff.mp hstep
        obtain ⟨rfl, -⟩ := Prod.mk.inj heq
        exact follows_partyStep hx hs h hparty

theorem refines_new : Refines [] (new : PluginLocks threads endpoint buffer) CoreloopNetworkPlugin.new where
  running := rfl
  localMutex := rfl
  localEndpoints := rfl
  pendingInputs := rfl
  newEndpoints := rfl
  endpoints := rfl
  pendingDisconnects := rfl
  packets := rfl
  counter := rfl
  tested idx hidx := absurd hidx (by simp [new])
  requested hidx := absurd hidx (by simp [new])
  stands := .of_eq rfl rfl rfl rfl

end PluginLocks

end Sekkeizu
