/-
# Sekkeizu.Network.Receives — how many receives `core_loop` has going.

The receive of a network thread is either outstanding or in its handler, and `start` arms one for each
thread. No receive dies: a handler has a next unit as long as it runs, no other unit takes it away, and
after at most four of its units its receive is outstanding again (`handler_ends`).

But the number of threads has 16 bits and the `unique_id` of a receive 8: with more than 256 threads the
receives of two threads go by one id, and only then (`exclusive_and_one_receive_iff`).
-/
import Sekkeizu.Network.Custody
import Mathlib.Data.Fintype.EquivFin

namespace Sekkeizu

open PartialSystem

variable {threads : Nat} {endpoint object buffer : Type*}

namespace CoreLoop

/-- **One receive for each id**: once `start` is done, the id of a network thread has exactly one
outstanding receive, unless a handler with this id is running (that each handler can go on until its receive
is outstanding again is `handler_ends`). -/
def OneReceivePerId (networkThreads : UInt16) (x : CoreLoop threads endpoint object buffer) : Prop :=
  x.start = .done → ∀ k < networkThreads.toNat,
    (∀ j stage, x.receives[j]? = some stage → uniqueId j = uniqueId k → stage.isOutstanding = true) →
      ∃! j, uniqueId j = uniqueId k ∧ ∃ stage, x.receives[j]? = some stage ∧ stage.isOutstanding = true

variable {x y : CoreLoop threads endpoint object buffer} {networkThreads : UInt16}

/-- `start` arms a receive for each network thread. -/
def Armed (networkThreads : UInt16) (x : CoreLoop threads endpoint object buffer) : Prop :=
  match x.start with
  | .loop => x.receives.length ≤ networkThreads.toNat
  | .getEndpoint _ => x.receives.length < networkThreads.toNat
  | .done => x.receives.length = networkThreads.toNat

/-- A unit outside `start` leaves its stage, and the number of receives. -/
theorem Armed.congr (h : Armed networkThreads x) (hstart : y.start = x.start)
    (hlength : y.receives.length = x.receives.length) : Armed networkThreads y := by
  rw [Armed, hstart, hlength]
  exact h

/-- Up to 256 threads have different ids. -/
theorem uniqueId_injective {j k : Nat} (hj : j < 256) (hk : k < 256) (h : uniqueId j = uniqueId k) :
    j = k := by
  have hvalue := congrArg UInt8.toNat h
  rw [uniqueId, uniqueId, UInt8.toNat_ofNat', UInt8.toNat_ofNat'] at hvalue
  omega

/-- Where ids are different, the receive of the thread is the one with its id. -/
theorem Armed.oneReceivePerId (h : Armed networkThreads x) (hfew : networkThreads.toNat ≤ 256) :
    OneReceivePerId networkThreads x := by
  intro hdone k hk hquiet
  have hlength : x.receives.length = networkThreads.toNat := by
    rw [Armed, hdone] at h
    exact h
  have hlt : k < x.receives.length := by omega
  have hstage : x.receives[k]? = some x.receives[k] := List.getElem?_eq_getElem hlt
  refine ⟨k, ⟨rfl, _, hstage, hquiet k _ hstage rfl⟩, ?_⟩
  rintro j ⟨hid, stage, hj, -⟩
  obtain ⟨hjlt, -⟩ := List.getElem?_eq_some_iff.mp hj
  exact uniqueId_injective (by omega) (by omega) hid

/-- The receives of threads 0 and 256 go by one id. -/
theorem not_oneReceivePerId (hdone : x.start = .done) (hlength : x.receives.length = networkThreads.toNat)
    (houtstanding : ∀ stage ∈ x.receives, stage.isOutstanding = true)
    (hmany : 256 < networkThreads.toNat) : ¬ OneReceivePerId networkThreads x := by
  intro h
  obtain ⟨j, -, honly⟩ := h hdone 0 (by omega) fun j stage hj _ =>
    houtstanding stage (List.mem_of_getElem? hj)
  have hout : ∀ k, k < x.receives.length →
      ∃ stage, x.receives[k]? = some stage ∧ stage.isOutstanding = true := fun k hk =>
    ⟨_, List.getElem?_eq_getElem hk, houtstanding _ (List.getElem_mem hk)⟩
  have hfirst := honly 0 ⟨rfl, hout 0 (by omega)⟩
  have hwrapped := honly 256 ⟨by decide, hout 256 (by omega)⟩
  omega

/-! ## The handlers -/

/-- How many units the handler of a receive has left. -/
def unitsLeft : ReceiveStage object buffer → Nat
  | .outstanding .. => 0
  | .getEndpoint _ => 1
  | .getBuffer => 2
  | .releaseEndpoint _ => 3
  | .releaseBuffer .. => 4

/-- A unit of the handler of this receive. -/
def IsHandler (k : Nat) : CoreLoopAction threads endpoint object buffer → Prop
  | .handlerReleases j => j = k
  | .handlerBuffer j _ => j = k
  | .handlerReceive j _ => j = k
  | _ => False

/-- What a unit does to a receive: it leaves it, completes it, or is a unit of its handler and brings it
nearer to its end. -/
inductive ReceiveMove (action : CoreLoopAction threads endpoint object buffer) (k : Nat)
    (stage stage' : ReceiveStage object buffer) : Prop
  | stays (haction : ¬ IsHandler k action) (h : stage' = stage)
  | completes (sender : Option endpoint) (haction : action = .completed k sender)
      (h : stage.isOutstanding = true)
  | handles (haction : IsHandler k action) (h : unitsLeft stage' + 1 = unitsLeft stage)

/-- A unit moves one receive. -/
theorem receiveMove_set {receives : List (ReceiveStage object buffer)} {j k : Nat}
    {action : CoreLoopAction threads endpoint object buffer} {old new stage : ReceiveStage object buffer}
    (hold : receives[j]? = some old) (hmove : ReceiveMove action j old new)
    (hother : j ≠ k → ¬ IsHandler k action) (hstage : receives[k]? = some stage) :
    ∃ stage', (receives.set j new)[k]? = some stage' ∧ ReceiveMove action k stage stage' := by
  by_cases hj : j = k
  · subst hj
    obtain rfl : old = stage := Option.some.inj (hold.symm.trans hstage)
    obtain ⟨hlt, -⟩ := List.getElem?_eq_some_iff.mp hold
    exact ⟨new, List.getElem?_set_self hlt, hmove⟩
  · refine ⟨stage, ?_, .stays (hother hj) rfl⟩
    rw [List.getElem?_set_ne hj]
    exact hstage

variable [DecidableEq endpoint] [DecidableEq object] [DecidableEq buffer]

theorem Armed.step (h : Armed networkThreads x)
    {action : CoreLoopAction threads endpoint object buffer}
    {evs : List (PluginEvent threads endpoint (buffer × object))}
    (hstep : CoreLoop.step networkThreads x action = some (y, evs)) : Armed networkThreads y := by
  cases units_of_step hstep with
  | startThread source b pool hstart hlt hget => exact hlt
  | startReceive source b o pool hstart hget =>
      rw [Armed, hstart] at h
      show (x.receives ++ [_]).length ≤ networkThreads.toNat
      rw [List.length_append]
      exact h
  | started hstart hall =>
      rw [Armed, hstart] at h
      exact Nat.le_antisymm h hall
  | failed => exact h.congr rfl List.length_set
  | received => exact h.congr rfl List.length_set
  | asserted => exact h.congr rfl rfl
  | releaseBuffer => exact h.congr rfl List.length_set
  | releaseEndpoint => exact h.congr rfl List.length_set
  | handlerBuffer => exact h.congr rfl List.length_set
  | handlerReceive => exact h.congr rfl List.length_set
  | plugin => exact h.congr rfl rfl
  | taskEnds => exact h.congr rfl rfl
  | releaseNetworkBuffer => exact h.congr rfl rfl

theorem armed_run
    {visited : List (Config (CoreLoop threads endpoint object buffer)
      (PluginEvent threads endpoint (buffer × object)) × CoreLoopAction threads endpoint object buffer)}
    {x : Config (CoreLoop threads endpoint object buffer)
      (PluginEvent threads endpoint (buffer × object))}
    (hrun : Run (CoreLoop.step networkThreads) initial visited x) : Armed networkThreads x.state := by
  apply hrun.invariant_state (Armed networkThreads)
  · intro s s' a ev h hstep
    exact h.step hstep
  · exact Nat.zero_le _

/-- **A handler is left alone**: no unit but its own moves a receive that is in its handler, and its own
bring it one unit nearer to its end. -/
theorem receiveMove_of_step {action : CoreLoopAction threads endpoint object buffer}
    {evs : List (PluginEvent threads endpoint (buffer × object))}
    (hstep : CoreLoop.step networkThreads x action = some (y, evs)) {k : Nat}
    {stage : ReceiveStage object buffer} (hstage : x.receives[k]? = some stage) :
    ∃ stage', y.receives[k]? = some stage' ∧ ReceiveMove action k stage stage' := by
  cases units_of_step hstep with
  | startThread => exact ⟨stage, hstage, .stays id rfl⟩
  | startReceive source b o pool hstart hget =>
      obtain ⟨hlt, -⟩ := List.getElem?_eq_some_iff.mp hstage
      refine ⟨stage, ?_, .stays id rfl⟩
      rw [List.getElem?_append_left hlt]
      exact hstage
  | started => exact ⟨stage, hstage, .stays id rfl⟩
  | failed j b o hold => exact receiveMove_set hold (.completes none rfl rfl) (fun _ => id) hstage
  | received j b o e i plugin evs hold => exact receiveMove_set hold (.completes (some e) rfl rfl) (fun _ => id) hstage
  | asserted => exact ⟨stage, hstage, .stays id rfl⟩
  | releaseBuffer j b o hold => exact receiveMove_set hold (.handles rfl rfl) id hstage
  | releaseEndpoint j o hold => exact receiveMove_set hold (.handles rfl rfl) id hstage
  | handlerBuffer j source b pool hold => exact receiveMove_set hold (.handles rfl rfl) id hstage
  | handlerReceive j source b o pool hold => exact receiveMove_set hold (.handles rfl rfl) id hstage
  | plugin => exact ⟨stage, hstage, .stays id rfl⟩
  | taskEnds => exact ⟨stage, hstage, .stays id rfl⟩
  | releaseNetworkBuffer => exact ⟨stage, hstage, .stays id rfl⟩

/-- **A handler has a next unit**: a pool that has nothing to give back allocates. -/
theorem handler_next [Infinite object] [Infinite buffer] (hrunning : x.halted = false) {k : Nat}
    {stage : ReceiveStage object buffer} (hstage : x.receives[k]? = some stage)
    (hhandler : stage.isOutstanding = false) :
    ∃ action y, IsHandler k action ∧ CoreLoop.step networkThreads x action = some (y, []) ∧
      y.halted = false := by
  have hgoes : ¬ x.halted = true := by
    rw [hrunning]
    exact Bool.false_ne_true
  cases stage with
  | outstanding b o => exact absurd hhandler (by simp [ReceiveStage.isOutstanding])
  | releaseBuffer b o =>
      have hstep : CoreLoop.step networkThreads x (.handlerReleases k) = some ({ x with
          dataMempool := x.dataMempool.release b
          receives := x.receives.set k (.releaseEndpoint o) }, []) := by
        rw [CoreLoop.step, if_neg hgoes]
        simp only [CoreLoop.handlerReleases, hstage, Option.map_some]
      exact ⟨.handlerReleases k, _, rfl, hstep, hrunning⟩
  | releaseEndpoint o =>
      have hstep : CoreLoop.step networkThreads x (.handlerReleases k) = some ({ x with
          endpointsMempool := x.endpointsMempool.release o
          receives := x.receives.set k .getBuffer }, []) := by
        rw [CoreLoop.step, if_neg hgoes]
        simp only [CoreLoop.handlerReleases, hstage, Option.map_some]
      exact ⟨.handlerReleases k, _, rfl, hstep, hrunning⟩
  | getBuffer =>
      obtain ⟨b, hb⟩ := Infinite.exists_notMem_finset x.dataMempool.allocated
      have hstep : CoreLoop.step networkThreads x (.handlerBuffer k (.malloced b)) = some ({ x with
          dataMempool := { x.dataMempool with allocated := insert b x.dataMempool.allocated }
          receives := x.receives.set k (.getEndpoint b) }, []) := by
        rw [CoreLoop.step, if_neg hgoes]
        simp only [CoreLoop.handlerBuffer, hstage, PerThreadPool.get, if_neg hb, Option.map_some]
      exact ⟨.handlerBuffer k (.malloced b), _, rfl, hstep, hrunning⟩
  | getEndpoint b =>
      obtain ⟨o, ho⟩ := Infinite.exists_notMem_finset x.endpointsMempool.allocated
      have hstep : CoreLoop.step networkThreads x (.handlerReceive k (.malloced o)) = some ({ x with
          endpointsMempool := { x.endpointsMempool with allocated := insert o x.endpointsMempool.allocated }
          receives := x.receives.set k (.outstanding b o) }, []) := by
        rw [CoreLoop.step, if_neg hgoes]
        simp only [CoreLoop.handlerReceive, hstage, PerThreadPool.get, if_neg ho, Option.map_some]
      exact ⟨.handlerReceive k (.malloced o), _, rfl, hstep, hrunning⟩

/-- **A handler ends**, with its receive outstanding: its own units bring it there from any state. -/
theorem handler_ends [Infinite object] [Infinite buffer] {k : Nat} {stage : ReceiveStage object buffer}
    {x : Config (CoreLoop threads endpoint object buffer)
      (PluginEvent threads endpoint (buffer × object))} (hrunning : x.state.halted = false)
    (hstage : x.state.receives[k]? = some stage) :
    ∃ visited y stage', Run (CoreLoop.step networkThreads) x visited y ∧
      (∀ p ∈ visited, IsHandler k p.2) ∧ visited.length = unitsLeft stage ∧
      y.state.receives[k]? = some stage' ∧ stage'.isOutstanding = true := by
  -- on the units that are left
  induction hleft : unitsLeft stage generalizing x stage with
  | zero =>
      refine ⟨[], x, stage, .start, by simp, rfl, hstage, ?_⟩
      cases stage with
      | outstanding b o => rfl
      | _ => simp [unitsLeft] at hleft
  | succ n ih =>
      have hhandler : stage.isOutstanding = false := by
        cases stage with
        | outstanding b o => simp [unitsLeft] at hleft
        | _ => rfl
      obtain ⟨action, y, haction, hstep, hy⟩ := handler_next hrunning hstage hhandler
      obtain ⟨stage', hstage', hmove⟩ := receiveMove_of_step hstep hstage
      have hless : unitsLeft stage' = n := by
        cases hmove with
        | stays hother => exact absurd haction hother
        | completes sender _ hout => exact absurd (hout.symm.trans hhandler) (by simp)
        | handles _ hless => omega
      have hnext : (CoreLoop.step networkThreads).next x action = some ⟨y, x.history ++ []⟩ :=
        Step.next_eq_some.mpr ⟨y, [], hstep, rfl⟩
      obtain ⟨later, z, last, hrun, hlater, hlength, hlast, hout⟩ :=
        ih (x := ⟨y, x.history ++ []⟩) hy hstage' hless
      refine ⟨_, z, last, (Run.start.snoc hnext).trans hrun, ?_, ?_, hlast, hout⟩
      · intro p hp
        rcases List.mem_append.mp hp with hnow | hnext
        · rw [List.mem_singleton.mp hnow]
          exact haction
        · exact hlater p hnext
      · rw [List.length_append, hlength]
        exact Nat.add_comm 1 n

/-! ## Arming the receives -/

/-- `start` has armed this many receives, and none has completed. -/
structure Waiting (m : Nat) (x : CoreLoop threads endpoint object buffer) : Prop where
  running : x.halted = false
  stage : x.start = .loop
  length : x.receives.length = m
  outstanding : ∀ stage ∈ x.receives, stage.isOutstanding = true

/-- **One receive more.** -/
theorem Waiting.arm [Infinite object] [Infinite buffer] {m : Nat} (hm : m < networkThreads.toNat)
    {x : Config (CoreLoop threads endpoint object buffer)
      (PluginEvent threads endpoint (buffer × object))} (h : Waiting m x.state) :
    ∃ visited y, Run (CoreLoop.step networkThreads) x visited y ∧ Waiting (m + 1) y.state := by
  obtain ⟨b, hb⟩ := Infinite.exists_notMem_finset x.state.dataMempool.allocated
  obtain ⟨o, ho⟩ := Infinite.exists_notMem_finset x.state.endpointsMempool.allocated
  let middle : CoreLoop threads endpoint object buffer :=
    { x.state with
      dataMempool := { x.state.dataMempool with allocated := insert b x.state.dataMempool.allocated }
      start := .getEndpoint b }
  let last : CoreLoop threads endpoint object buffer :=
    { middle with
      endpointsMempool :=
        { x.state.endpointsMempool with allocated := insert o x.state.endpointsMempool.allocated }
      receives := x.state.receives ++ [.outstanding b o]
      start := .loop }
  have hfirst : CoreLoop.step networkThreads x.state (.startThread (.malloced b)) = some (middle, []) := by
    simp [CoreLoop.step, h.running, CoreLoop.startThread, h.stage, h.length, hm, PerThreadPool.get, hb,
      middle]
  have hmiddle : middle.halted = false := h.running
  have hsecond : CoreLoop.step networkThreads middle (.startReceive (.malloced o)) = some (last, []) := by
    rw [CoreLoop.step, if_neg (by simp [hmiddle])]
    simp [CoreLoop.startReceive, middle, PerThreadPool.get, ho, last]
  have hrun := (Run.start.snoc (Step.next_eq_some.mpr ⟨middle, [], hfirst, rfl⟩)).snoc
    (Step.next_eq_some.mpr ⟨last, [], hsecond, rfl⟩)
  refine ⟨_, _, hrun, h.running, rfl, ?_, ?_⟩
  · show (x.state.receives ++ [_]).length = m + 1
    rw [List.length_append, h.length]
    rfl
  · intro stage hstage
    rcases List.mem_append.mp hstage with hold | hnew
    · exact h.outstanding stage hold
    · rw [List.mem_singleton.mp hnew]
      rfl

/-- `start` can arm all receives before any completes. -/
theorem exists_run_started [Infinite object] [Infinite buffer] (networkThreads : UInt16) :
    ∃ (visited : List (Config (CoreLoop threads endpoint object buffer)
        (PluginEvent threads endpoint (buffer × object)) ×
          CoreLoopAction threads endpoint object buffer))
      (x : Config (CoreLoop threads endpoint object buffer)
        (PluginEvent threads endpoint (buffer × object))),
      Run (CoreLoop.step networkThreads) initial visited x ∧ x.state.start = .done ∧
        x.state.receives.length = networkThreads.toNat ∧
        ∀ stage ∈ x.state.receives, stage.isOutstanding = true := by
  have hwaiting : ∀ m ≤ networkThreads.toNat,
      ∃ (visited : List (Config (CoreLoop threads endpoint object buffer)
          (PluginEvent threads endpoint (buffer × object)) ×
            CoreLoopAction threads endpoint object buffer))
        (x : Config (CoreLoop threads endpoint object buffer)
          (PluginEvent threads endpoint (buffer × object))),
        Run (CoreLoop.step networkThreads) initial visited x ∧ Waiting m x.state := by
    intro m
    induction m with
    | zero =>
        intro _
        exact ⟨_, _, .start, rfl, rfl, rfl, fun stage hstage => absurd hstage List.not_mem_nil⟩
    | succ m ih =>
        intro hm
        obtain ⟨visited, x, hrun, hx⟩ := ih (by omega)
        have hlt : m < networkThreads.toNat := hm
        obtain ⟨later, y, hlater, hy⟩ := hx.arm hlt
        exact ⟨_, y, hrun.trans hlater, hy⟩
  obtain ⟨visited, x, hrun, hx⟩ := hwaiting _ (le_refl _)
  have hstep : CoreLoop.step networkThreads x.state .started =
      some ({ x.state with start := .done }, []) := by
    simp [CoreLoop.step, hx.running, CoreLoop.started, hx.stage, hx.length]
  exact ⟨_, _, hrun.snoc (Step.next_eq_some.mpr ⟨_, [], hstep, rfl⟩), rfl, hx.length, hx.outstanding⟩

/-- **The receive objects**: in every run no pooled object has two holders and no id two receives, exactly
when there are at most 256 network threads. -/
theorem exclusive_and_one_receive_iff [Infinite object] [Infinite buffer] {networkThreads : UInt16} :
    (∀ (visited : List (Config (CoreLoop threads endpoint object buffer)
        (PluginEvent threads endpoint (buffer × object)) ×
          CoreLoopAction threads endpoint object buffer))
      (x : Config (CoreLoop threads endpoint object buffer)
        (PluginEvent threads endpoint (buffer × object))),
      Run (CoreLoop.step networkThreads) initial visited x →
        x.state.ExclusivelyHeld ∧ x.state.OneReceivePerId networkThreads) ↔
    networkThreads.toNat ≤ 256 := by
  constructor
  · intro h
    by_contra hmany
    obtain ⟨visited, x, hrun, hdone, hlength, houtstanding⟩ :
        ∃ (visited : List (Config (CoreLoop threads endpoint object buffer)
            (PluginEvent threads endpoint (buffer × object)) ×
              CoreLoopAction threads endpoint object buffer))
          (x : Config (CoreLoop threads endpoint object buffer)
            (PluginEvent threads endpoint (buffer × object))),
          Run (CoreLoop.step networkThreads) initial visited x ∧ x.state.start = .done ∧
            x.state.receives.length = networkThreads.toNat ∧
            ∀ stage ∈ x.state.receives, stage.isOutstanding = true := exists_run_started networkThreads
    exact not_oneReceivePerId hdone hlength houtstanding (by omega) (h visited x hrun).2
  · intro hfew visited x hrun
    exact ⟨(custody_run hrun).exclusive, (armed_run hrun).oneReceivePerId hfew⟩

/-- At numbered addresses: four network threads are few enough. -/
theorem exclusive_and_one_receive_iff_four :
    (4 : UInt16).toNat ≤ 256 ∧
      ((∀ (visited : List (Config (CoreLoop 8 Nat Nat Nat) (PluginEvent 8 Nat (Nat × Nat)) ×
            CoreLoopAction 8 Nat Nat Nat))
          (x : Config (CoreLoop 8 Nat Nat Nat) (PluginEvent 8 Nat (Nat × Nat))),
          Run (CoreLoop.step 4) initial visited x →
            x.state.ExclusivelyHeld ∧ x.state.OneReceivePerId 4) ↔
        (4 : UInt16).toNat ≤ 256) :=
  ⟨by decide, exclusive_and_one_receive_iff⟩

/-- With 257 network threads, threads 0 and 256 both receive as id 0. -/
theorem ids_wrap_with_257_threads :
    ¬ ∀ (visited : List (Config (CoreLoop 8 Nat Nat Nat) (PluginEvent 8 Nat (Nat × Nat)) ×
        CoreLoopAction 8 Nat Nat Nat))
      (x : Config (CoreLoop 8 Nat Nat Nat) (PluginEvent 8 Nat (Nat × Nat))),
      Run (CoreLoop.step 257) initial visited x →
        x.state.ExclusivelyHeld ∧ x.state.OneReceivePerId 257 := by
  intro h
  obtain ⟨visited, x, hrun, hdone, hlength, houtstanding⟩ :
      ∃ (visited : List (Config (CoreLoop 8 Nat Nat Nat) (PluginEvent 8 Nat (Nat × Nat)) ×
          CoreLoopAction 8 Nat Nat Nat))
        (x : Config (CoreLoop 8 Nat Nat Nat) (PluginEvent 8 Nat (Nat × Nat))),
        Run (CoreLoop.step 257) initial visited x ∧ x.state.start = .done ∧
          x.state.receives.length = (257 : UInt16).toNat ∧
          ∀ stage ∈ x.state.receives, stage.isOutstanding = true := exists_run_started 257
  exact not_oneReceivePerId hdone hlength houtstanding (by decide) (h visited x hrun).2

end CoreLoop

end Sekkeizu
