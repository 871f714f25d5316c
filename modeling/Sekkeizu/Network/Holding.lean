/-
# Sekkeizu.Network.Holding — what one unit does to the mutexes of the plugin.

A unit of a party locks one mutex, unlocks one it holds, or leaves them alone (`Mutates`), and the other
parties hold what they held. `effect_partyStep` shows this of every unit, with what the unit does to
`_inputs_counter`; nothing after it unfolds the steps for what they hold. So in every run the owner of a
mutex is the party that holds it by its place (`accounted_run`).
-/
import Sekkeizu.Network.Places
import Sekkeizu.Semantics.Mutexes


namespace Sekkeizu

open PartialSystem Mutexes

variable {threads : Nat} {endpoint buffer : Type*}

namespace PluginLocks

variable {x y z : PluginLocks threads endpoint buffer} {p : Party}

/-- **A unit of a party**: it locks one mutex, unlocks one, or neither, and the other parties hold what
they held. -/
inductive Mutates (p : Party) (x y : PluginLocks threads endpoint buffer) : Prop
  | locks (m : PluginMutex threads) (hfree : x.owner m = none)
      (howner : y.owner = Function.update x.owner m (some p)) (hself : y.held p = insert m (x.held p))
      (hothers : ∀ q ≠ p, y.held q = x.held q)
  | unlocks (m : PluginMutex threads) (hheld : m ∈ x.held p)
      (howner : y.owner = Function.update x.owner m none) (hself : y.held p = x.held p \ {m})
      (hothers : ∀ q ≠ p, y.held q = x.held q)
  | keeps (howner : y.owner = x.owner) (hall : ∀ q, y.held q = x.held q)

theorem Mutates.exclusive (h : Mutates p x y) (hx : Exclusive x.owner x.held) :
    Exclusive y.owner y.held := by
  cases h with
  | locks m hfree howner hself hothers =>
      rw [howner]
      exact hx.lock hfree hself hothers
  | unlocks m hheld howner hself hothers =>
      rw [howner]
      exact hx.unlock hheld hself hothers
  | keeps howner hall =>
      rw [howner]
      exact hx.congr hall

/-- `_inputs_counter` counts tasks that have not ended. -/
def Counted (x : PluginLocks threads endpoint buffer) : Prop :=
  x.inputsCounter ≤ x.inputs.countP fun t => !t.isDone

theorem Counted.congr (h : x.Counted) (hinputs : y.inputs = x.inputs)
    (hcounter : y.inputsCounter ≤ x.inputsCounter) : y.Counted := by
  rw [Counted, hinputs]
  exact hcounter.trans h

/-- **What a unit does** to the mutexes and to the counter. -/
structure Effect (p : Party) (x y : PluginLocks threads endpoint buffer) : Prop where
  mutates : Mutates p x y
  counted : x.Counted → y.Counted

/-! ### Where the parties stand afterwards -/

theorem elim_set {α : Type*} (f : α → PartyPoint threads endpoint buffer) {l : List α} {n k : Nat}
    {a : α} (hne : k ≠ n) : ((l.set n a)[k]?).elim .gone f = (l[k]?).elim .gone f := by
  rw [List.getElem?_set_ne (Ne.symm hne)]

theorem elim_set_self {α : Type*} (f : α → PartyPoint threads endpoint buffer) {l : List α} {n : Nat}
    {a b : α} (hn : l[n]? = some b) : ((l.set n a)[n]?).elim .gone f = f a := by
  obtain ⟨hlt, -⟩ := List.getElem?_eq_some_iff.mp hn
  rw [List.getElem?_set_self hlt]
  rfl

/-- A party that appears at a place where it holds nothing. -/
theorem held_elim_append {α : Type*} (f : α → PartyPoint threads endpoint buffer) {l : List α} {a : α}
    (ha : (f a).held = ∅) (k : Nat) :
    (((l ++ [a])[k]?).elim .gone f).held = ((l[k]?).elim .gone f).held := by
  rcases Nat.lt_trichotomy k l.length with hlt | rfl | hgt
  · rw [List.getElem?_append_left hlt]
  · rw [List.getElem?_concat_length, List.getElem?_eq_none (le_refl _)]
    exact ha
  · rw [List.getElem?_eq_none (by simp; omega), List.getElem?_eq_none (by omega)]

theorem lock_eq_some {m : PluginMutex threads} (h : x.lock p m = some y) :
    x.owner m = none ∧ y = { x with owner := Function.update x.owner m (some p) } := by
  unfold lock at h
  split at h
  · next hfree => exact ⟨hfree, (Option.some.inj h).symm⟩
  · exact absurd h (by simp)

/-! ### A call of `disconnect` -/

/-- **A unit of a call**: the state and where the call stands, before and afterwards. -/
inductive Calls (p : Party) (x : PluginLocks threads endpoint buffer) :
    Option (DisconnectCall endpoint) → PluginLocks threads endpoint buffer →
      Option (DisconnectCall endpoint) → Prop
  | starts (e : endpoint) : Calls p x none x (some (.lock e))
  | locks (e : endpoint) (hfree : x.owner .disconnectMutex = none) :
      Calls p x (some (.lock e))
        { x with owner := Function.update x.owner .disconnectMutex (some p) } (some (.push e))
  | pushes (e : endpoint) :
      Calls p x (some (.push e))
        { x.unlock .disconnectMutex with pendingDisconnects := x.pendingDisconnects ++ [e] } none

variable {call call' : Option (DisconnectCall endpoint)}

/-- A call leaves where the parties stand. -/
theorem Calls.eq (h : Calls p x call z call') :
    ∃ owner requests, z = { x with owner := owner, pendingDisconnects := requests } := by
  cases h with
  | starts e => exact ⟨x.owner, x.pendingDisconnects, rfl⟩
  | locks e hfree => exact ⟨_, x.pendingDisconnects, rfl⟩
  | pushes e => exact ⟨_, _, rfl⟩

/-- A call made with `rest` held. -/
theorem Calls.mutates (h : Calls p x call z call') {w : PluginLocks threads endpoint buffer}
    {rest : Set (PluginMutex threads)} (hrest : .disconnectMutex ∉ rest) (howner : w.owner = z.owner)
    (hbefore : x.held p = rest ∪ callHeld call) (hafter : w.held p = rest ∪ callHeld call')
    (hothers : ∀ q ≠ p, w.held q = x.held q) : Mutates p x w := by
  cases h with
  | starts e =>
      apply Mutates.keeps howner
      intro q
      by_cases hq : q = p
      · rw [hq, hafter, hbefore]
        rfl
      · exact hothers q hq
  | locks e hfree =>
      apply Mutates.locks .disconnectMutex hfree howner _ hothers
      rw [hafter, hbefore]
      simp [callHeld]
  | pushes e =>
      apply Mutates.unlocks .disconnectMutex _ howner _ hothers
      · rw [hbefore]
        exact Or.inr rfl
      · rw [hafter, hbefore]
        simp [callHeld, Set.sdiff_singleton_eq_self hrest]

theorem calls_of_disconnectStep {c : DisconnectCall endpoint}
    (h : x.disconnectStep p c = some (call', z)) : Calls p x (some c) z call' := by
  cases c with
  | lock e =>
      obtain ⟨y, hlock, heq⟩ := Option.map_eq_some_iff.mp h
      obtain ⟨rfl, rfl⟩ := Prod.mk.inj heq
      obtain ⟨hfree, rfl⟩ := lock_eq_some hlock
      exact .locks e hfree
  | push e =>
      obtain ⟨rfl, rfl⟩ := Prod.mk.inj (Option.some.inj h)
      exact .pushes e

theorem calls_of_callbackStep {choice : Choice endpoint}
    (h : x.callbackStep p call choice = some (call', z)) : Calls p x call z call' := by
  unfold callbackStep at h
  split at h
  · exact calls_of_disconnectStep h
  · next e =>
      obtain ⟨rfl, rfl⟩ := Prod.mk.inj (Option.some.inj h)
      exact .starts e
  · exact absurd h (by simp)

/-! ### The parties -/

theorem effect_callerStep {n : Nat} (h : x.callerStep n = some y) : Effect (.caller n) x y := by
  unfold callerStep at h
  split at h
  · next call hn =>
      obtain ⟨⟨call', z⟩, hcall, rfl⟩ := Option.map_eq_some_iff.mp h
      have hcalls : Calls (.caller n) x (some call) z call' := calls_of_disconnectStep hcall
      obtain ⟨owner, requests, rfl⟩ := hcalls.eq
      refine ⟨?_, fun hx => hx⟩
      apply hcalls.mutates (Set.notMem_empty _)
      · rfl
      · simp [held, point, hn, callerPoint, PartyPoint.held]
      · rw [held, point, elim_set_self callerPoint hn, Set.empty_union]
        cases call' <;> rfl
      · intro q hq
        cases q with
        | caller k =>
            have hne : k ≠ n := fun heq => hq (congrArg Party.caller heq)
            exact congrArg PartyPoint.held (elim_set callerPoint hne)
        | _ => rfl
  · exact absurd h (by simp)

/-- An input task that goes on, or ends. -/
theorem countP_set_input {l : List (InputTask endpoint)} {n : Nat} {e : endpoint}
    {call : Option (DisconnectCall endpoint)} (hn : l[n]? = some (.clientInputs e call))
    (task : InputTask endpoint) :
    (l.set n task).countP (fun t => !t.isDone) + (if task.isDone then 1 else 0) =
      l.countP fun t => !t.isDone := by
  obtain ⟨hlt, hget⟩ := List.getElem?_eq_some_iff.mp hn
  have hrunning : (!l[n].isDone) = true := by
    rw [hget]
    rfl
  have hpos : 0 < l.countP fun t => !t.isDone :=
    List.countP_pos_iff.mpr ⟨l[n], List.getElem_mem hlt, hrunning⟩
  rw [List.countP_set hlt, if_pos hrunning]
  cases task.isDone <;> simp <;> omega

theorem effect_inputStep [DecidableEq endpoint] {n : Nat} {choice : Choice endpoint}
    (h : x.inputStep n choice = some y) : Effect (.input n) x y := by
  have hothers : ∀ (task : InputTask endpoint), ∀ q ≠ Party.input n,
      ({ x with inputs := x.inputs.set n task } : PluginLocks threads endpoint buffer).held q =
        x.held q := by
    intro task q hq
    cases q with
    | input k =>
        have hne : k ≠ n := fun heq => hq (congrArg Party.input heq)
        exact congrArg PartyPoint.held (elim_set InputTask.point hne)
    | _ => rfl
  unfold inputStep at h
  split at h
  · next _ e hn =>
      obtain rfl := Option.some.inj h
      constructor
      · apply Mutates.keeps
        · rfl
        intro q
        by_cases hq : q = .input n
        · subst hq
          rw [held, held, point, point, elim_set_self InputTask.point hn, hn]
          rfl
        · exact hothers .done q hq
      · intro hx
        have hcount := countP_set_input hn .done
        have hless : x.inputsCounter ≤ x.inputs.countP fun t => !t.isDone := hx
        show x.inputsCounter - 1 ≤ (x.inputs.set n .done).countP fun t => !t.isDone
        simp only [InputTask.isDone, if_true] at hcount hless ⊢
        omega
  · next _ choice e call hn _ =>
      obtain ⟨⟨call', z⟩, hcall, rfl⟩ := Option.map_eq_some_iff.mp h
      have hcalls : Calls (.input n) x call z call' := calls_of_callbackStep hcall
      obtain ⟨owner, requests, rfl⟩ := hcalls.eq
      constructor
      · apply hcalls.mutates (Set.notMem_empty _)
        · rfl
        · simp [held, point, hn, InputTask.point, PartyPoint.held]
        · rw [held, point, elim_set_self InputTask.point hn, Set.empty_union]
          rfl
        · exact hothers (.clientInputs e call')
      · intro hx
        have hcount := countP_set_input hn (.clientInputs e call')
        exact hx.trans_eq hcount.symm
  · exact absurd h (by simp)

/-- Of the parties only this packet task moves. -/
structure PacketMoves (n : Nat) (t : PacketTask threads endpoint buffer)
    (x y : PluginLocks threads endpoint buffer) : Prop where
  packets : y.packets = x.packets.set n t
  tick : y.tick = x.tick
  callers : y.callers = x.callers
  inputs : y.inputs = x.inputs
  counter : y.inputsCounter ≤ x.inputsCounter

namespace PacketMoves

variable {n : Nat} {t t' : PacketTask threads endpoint buffer} {m : PluginMutex threads}

theorem held_self (h : PacketMoves n t' x y) (hn : x.packets[n]? = some t) :
    y.held (.packet n) = t'.held := by
  rw [held, point, h.packets, elim_set_self .packet hn]
  rfl

theorem held_others (h : PacketMoves n t' x y) : ∀ q ≠ Party.packet n, y.held q = x.held q := by
  intro q hq
  cases q with
  | packet k =>
      have hne : k ≠ n := fun heq => hq (congrArg Party.packet heq)
      rw [held, point, h.packets, elim_set .packet hne]
      rfl
  | tick => rw [held, held, point, point, h.tick]
  | caller k => rw [held, held, point, point, h.callers]
  | input k => rw [held, held, point, point, h.inputs]

theorem locks (h : PacketMoves n t' x y) (hn : x.packets[n]? = some t) (hfree : x.owner m = none)
    (howner : y.owner = Function.update x.owner m (some (.packet n)))
    (hself : t'.held = insert m t.held) : Effect (.packet n) x y := by
  have hheld : x.held (.packet n) = t.held := by simp [held, point, hn, PartyPoint.held]
  refine ⟨Mutates.locks m hfree howner ?_ h.held_others, fun hx => hx.congr h.inputs h.counter⟩
  rw [h.held_self hn, hheld, hself]

theorem unlocks (h : PacketMoves n t' x y) (hn : x.packets[n]? = some t) (hmem : m ∈ t.held)
    (howner : y.owner = Function.update x.owner m none) (hself : t'.held = t.held \ {m}) :
    Effect (.packet n) x y := by
  have hheld : x.held (.packet n) = t.held := by simp [held, point, hn, PartyPoint.held]
  refine ⟨Mutates.unlocks m (hheld ▸ hmem) howner ?_ h.held_others,
    fun hx => hx.congr h.inputs h.counter⟩
  rw [h.held_self hn, hheld, hself]

end PacketMoves

theorem effect_packetStep [DecidableEq endpoint] {n : Nat} (h : x.packetStep n = some y) :
    Effect (.packet n) x y := by
  unfold packetStep at h
  split at h
  · exact absurd h (by simp)
  · next t hn =>
      obtain ⟨i, e, b, stage⟩ := t
      cases stage with
      | lockLocal =>
          obtain ⟨z, hlock, rfl⟩ := Option.map_eq_some_iff.mp h
          obtain ⟨hfree, rfl⟩ := lock_eq_some hlock
          refine PacketMoves.locks ⟨rfl, rfl, rfl, rfl, le_refl _⟩ hn hfree rfl ?_
          split_ifs <;> simp [PacketTask.held]
      | lockShared =>
          obtain ⟨z, hlock, rfl⟩ := Option.map_eq_some_iff.mp h
          obtain ⟨hfree, rfl⟩ := lock_eq_some hlock
          exact PacketMoves.locks ⟨rfl, rfl, rfl, rfl, le_refl _⟩ hn hfree rfl rfl
      | registerShared =>
          have hmem : .sharedMutex ∈ PacketTask.held ⟨i, e, b, .registerShared⟩ := Set.mem_insert _ _
          have hself : PacketTask.held ⟨i, e, b, .store true⟩ =
              PacketTask.held ⟨i, e, b, .registerShared⟩ \ {.sharedMutex} := by
            ext m
            cases m <;> simp [PacketTask.held]
          simp only at h
          split_ifs at h
          · obtain rfl := Option.some.inj h
            exact PacketMoves.unlocks ⟨rfl, rfl, rfl, rfl, le_refl _⟩ hn hmem rfl hself
          · obtain rfl := Option.some.inj h
            exact PacketMoves.unlocks ⟨rfl, rfl, rfl, rfl, le_refl _⟩ hn hmem rfl hself
      | store fresh =>
          simp only at h
          split at h
          · obtain rfl := Option.some.inj h
            exact ⟨.keeps rfl fun _ => rfl, fun hx => hx⟩
          · obtain rfl := Option.some.inj h
            refine PacketMoves.unlocks ⟨rfl, rfl, rfl, rfl, le_refl _⟩ hn (Set.mem_singleton _) rfl ?_
            simp [PacketTask.held]
      | done => exact absurd h (by simp)

/-- Of the parties only `tick` moves, to this place. -/
structure TickMoves (next : TickPoint threads endpoint) (x y : PluginLocks threads endpoint buffer) :
    Prop where
  tick : y.tick = next
  packets : y.packets = x.packets
  callers : y.callers = x.callers
  inputs : y.inputs = x.inputs
  counter : y.inputsCounter ≤ x.inputsCounter

namespace TickMoves

variable {now next : TickPoint threads endpoint} {m : PluginMutex threads}

theorem held_self (h : TickMoves next x y) : y.held .tick = next.held := by
  rw [held, point, h.tick]
  rfl

theorem held_others (h : TickMoves next x y) : ∀ q ≠ Party.tick, y.held q = x.held q := by
  intro q hq
  cases q with
  | tick => exact absurd rfl hq
  | packet k => rw [held, held, point, point, h.packets]
  | caller k => rw [held, held, point, point, h.callers]
  | input k => rw [held, held, point, point, h.inputs]

theorem held_before (hnow : x.tick = now) : x.held .tick = now.held := by
  rw [held, point, hnow]
  rfl

theorem locks (h : TickMoves next x y) (hnow : x.tick = now) (hfree : x.owner m = none)
    (howner : y.owner = Function.update x.owner m (some .tick)) (hself : next.held = insert m now.held) :
    Effect .tick x y := by
  refine ⟨Mutates.locks m hfree howner ?_ h.held_others, fun hx => hx.congr h.inputs h.counter⟩
  rw [h.held_self, held_before hnow, hself]

theorem unlocks (h : TickMoves next x y) (hnow : x.tick = now) (hmem : m ∈ now.held)
    (howner : y.owner = Function.update x.owner m none) (hself : next.held = now.held \ {m}) :
    Effect .tick x y := by
  refine ⟨Mutates.unlocks m ?_ howner ?_ h.held_others, fun hx => hx.congr h.inputs h.counter⟩
  · rw [held_before hnow]
    exact hmem
  · rw [h.held_self, held_before hnow, hself]

theorem keeps (h : TickMoves next x y) (hnow : x.tick = now) (howner : y.owner = x.owner)
    (hself : next.held = now.held) : Effect .tick x y := by
  refine ⟨Mutates.keeps howner ?_, fun hx => hx.congr h.inputs h.counter⟩
  intro q
  by_cases hq : q = .tick
  · subst hq
    rw [h.held_self, held_before hnow, hself]
  · exact h.held_others q hq

/-- A callback of `tick`, called with `rest` held. -/
theorem calls (h : TickMoves next x y) (hcalls : Calls .tick x call z call') (hnow : x.tick = now)
    {rest : Set (PluginMutex threads)} (hrest : .disconnectMutex ∉ rest) (howner : y.owner = z.owner)
    (hbefore : now.held = rest ∪ callHeld call) (hafter : next.held = rest ∪ callHeld call') :
    Effect .tick x y := by
  refine ⟨hcalls.mutates hrest howner ?_ ?_ h.held_others, fun hx => hx.congr h.inputs h.counter⟩
  · rw [held_before hnow, hbefore]
  · rw [h.held_self, hafter]

end TickMoves

section Tick

variable [DecidableEq endpoint]

theorem effect_tickClients {choice : Choice endpoint} (h : x.tickClients x.tick choice = some y) :
    Effect .tick x y := by
  unfold tickClients at h
  split at h
  · next hnow =>
      obtain rfl := Option.some.inj h
      refine TickMoves.keeps ⟨rfl, rfl, rfl, rfl, le_refl _⟩ hnow rfl ?_
      split_ifs <;> rfl
  · next hnow =>
      obtain ⟨z, hlock, rfl⟩ := Option.map_eq_some_iff.mp h
      obtain ⟨hfree, rfl⟩ := lock_eq_some hlock
      refine TickMoves.locks ⟨rfl, rfl, rfl, rfl, le_refl _⟩ hnow hfree rfl ?_
      simp [TickPoint.held]
  · next todo e hnow =>
      split_ifs at h
      obtain rfl := Option.some.inj h
      refine TickMoves.keeps ⟨rfl, rfl, rfl, rfl, le_refl _⟩ hnow rfl ?_
      simp [TickPoint.held, callHeld]
  · next todo hnow =>
      split_ifs at h
      obtain rfl := Option.some.inj h
      refine TickMoves.unlocks ⟨rfl, rfl, rfl, rfl, le_refl _⟩ hnow (Set.mem_singleton _) rfl ?_
      simp [TickPoint.held]
  · next todo hnow =>
      obtain rfl := Option.some.inj h
      refine TickMoves.keeps ⟨rfl, rfl, rfl, rfl, le_refl _⟩ hnow rfl ?_
      simp [TickPoint.held, callHeld]
  · next _ choice todo call hnow _ =>
      obtain ⟨⟨call', z⟩, hcall, rfl⟩ := Option.map_eq_some_iff.mp h
      have hcalls : Calls .tick x call z call' := calls_of_callbackStep hcall
      obtain ⟨owner, requests, rfl⟩ := hcalls.eq
      have hrest : (.disconnectMutex : PluginMutex threads) ∉ ({.sharedMutex} : Set _) := by simp
      exact TickMoves.calls ⟨rfl, rfl, rfl, rfl, le_refl _⟩ hcalls hnow hrest rfl (Set.insert_eq _ _)
        (Set.insert_eq _ _)
  · exact absurd h (by simp)

theorem effect_tickInputs {choice : Choice endpoint} (h : x.tickInputs x.tick choice = some y) :
    Effect .tick x y := by
  unfold tickInputs at h
  split at h
  · next idx hnow =>
      split_ifs at h
      · obtain rfl := Option.some.inj h
        exact TickMoves.keeps ⟨rfl, rfl, rfl, rfl, le_refl _⟩ hnow rfl rfl
      · obtain rfl := Option.some.inj h
        exact TickMoves.keeps ⟨rfl, rfl, rfl, rfl, le_refl _⟩ hnow rfl rfl
      · obtain rfl := Option.some.inj h
        exact TickMoves.keeps ⟨rfl, rfl, rfl, rfl, Nat.zero_le _⟩ hnow rfl rfl
  · next idx hnow =>
      obtain ⟨z, hlock, rfl⟩ := Option.map_eq_some_iff.mp h
      obtain ⟨hfree, rfl⟩ := lock_eq_some hlock
      refine TickMoves.locks ⟨rfl, rfl, rfl, rfl, le_refl _⟩ hnow hfree rfl ?_
      simp [TickPoint.held]
  · next idx hnow =>
      obtain rfl := Option.some.inj h
      refine TickMoves.unlocks ⟨rfl, rfl, rfl, rfl, le_refl _⟩ hnow (Set.mem_singleton _) rfl ?_
      simp [TickPoint.held]
  · next todo e hnow =>
      split_ifs at h
      obtain rfl := Option.some.inj h
      constructor
      · apply Mutates.keeps
        · rfl
        intro q
        cases q with
        | tick =>
            rw [held, held, point, point, hnow]
            rfl
        | input k => exact held_elim_append InputTask.point rfl k
        | _ => rfl
      · intro hx
        rw [Counted, List.countP_append]
        exact Nat.succ_le_succ hx
  · next todo hnow =>
      split_ifs at h
      obtain rfl := Option.some.inj h
      exact TickMoves.keeps ⟨rfl, rfl, rfl, rfl, le_refl _⟩ hnow rfl rfl
  · next hnow =>
      split_ifs at h
      obtain rfl := Option.some.inj h
      exact TickMoves.keeps ⟨rfl, rfl, rfl, rfl, le_refl _⟩ hnow rfl rfl
  · next hnow =>
      obtain rfl := Option.some.inj h
      exact TickMoves.keeps ⟨rfl, rfl, rfl, rfl, le_refl _⟩ hnow rfl rfl
  · next _ choice call hnow _ =>
      obtain ⟨⟨call', z⟩, hcall, rfl⟩ := Option.map_eq_some_iff.mp h
      have hcalls : Calls .tick x call z call' := calls_of_callbackStep hcall
      obtain ⟨owner, requests, rfl⟩ := hcalls.eq
      exact TickMoves.calls ⟨rfl, rfl, rfl, rfl, le_refl _⟩ hcalls hnow (Set.notMem_empty _) rfl
        (Set.empty_union _).symm (Set.empty_union _).symm
  · exact absurd h (by simp)

theorem clearLocal_eq (x : PluginLocks threads endpoint buffer) (i : Fin threads) (e : endpoint) :
    ∃ known pending,
      x.clearLocal i e = { x with localEndpoints := known, pendingInputs := pending } := by
  unfold clearLocal
  split_ifs
  · exact ⟨_, _, rfl⟩
  · exact ⟨x.localEndpoints, x.pendingInputs, rfl⟩

theorem effect_tickDisconnects (h : x.tickDisconnects x.tick = some y) : Effect .tick x y := by
  unfold tickDisconnects at h
  split at h
  · next hnow =>
      obtain rfl := Option.some.inj h
      refine TickMoves.keeps ⟨rfl, rfl, rfl, rfl, le_refl _⟩ hnow rfl ?_
      split_ifs <;> rfl
  · next hnow =>
      obtain ⟨z, hlock, rfl⟩ := Option.map_eq_some_iff.mp h
      obtain ⟨hfree, rfl⟩ := lock_eq_some hlock
      refine TickMoves.locks ⟨rfl, rfl, rfl, rfl, le_refl _⟩ hnow hfree rfl ?_
      simp [TickPoint.held]
  · next hnow =>
      obtain rfl := Option.some.inj h
      refine TickMoves.unlocks ⟨rfl, rfl, rfl, rfl, le_refl _⟩ hnow (Set.mem_singleton _) rfl ?_
      simp [TickPoint.held]
  · next e rest hnow =>
      obtain rfl := Option.some.inj h
      refine TickMoves.keeps ⟨rfl, rfl, rfl, rfl, le_refl _⟩ hnow rfl ?_
      simp [TickPoint.held, localsBelow]
  · next i e rest hnow =>
      split_ifs at h with hi
      · obtain ⟨z, hlock, rfl⟩ := Option.map_eq_some_iff.mp h
        obtain ⟨hfree, rfl⟩ := lock_eq_some hlock
        refine TickMoves.locks ⟨rfl, rfl, rfl, rfl, le_refl _⟩ hnow hfree rfl ?_
        rw [TickPoint.held, TickPoint.held, localsBelow_succ hi, Set.insert_comm]
      · obtain rfl := Option.some.inj h
        refine TickMoves.keeps ⟨rfl, rfl, rfl, rfl, le_refl _⟩ hnow rfl ?_
        rw [TickPoint.held, TickPoint.held, localsBelow_eq_locals (Nat.le_of_not_lt hi)]
  · next e rest hnow =>
      obtain ⟨z, hlock, rfl⟩ := Option.map_eq_some_iff.mp h
      obtain ⟨hfree, rfl⟩ := lock_eq_some hlock
      exact TickMoves.locks ⟨rfl, rfl, rfl, rfl, le_refl _⟩ hnow hfree rfl rfl
  · next e rest hnow =>
      split_ifs at h
      · obtain rfl := Option.some.inj h
        refine TickMoves.unlocks ⟨rfl, rfl, rfl, rfl, le_refl _⟩ hnow (Set.mem_insert _ _) rfl ?_
        rw [TickPoint.held, TickPoint.held, ← localsBelow_eq_localsFrom]
        simp [localsBelow]
      · obtain rfl := Option.some.inj h
        exact ⟨.keeps rfl fun _ => rfl, fun hx => hx⟩
  · next i e rest hnow =>
      split_ifs at h with hi
      · obtain rfl := Option.some.inj h
        obtain ⟨known, pending, hclear⟩ := x.clearLocal_eq ⟨i, hi⟩ e
        rw [hclear]
        have hlocals : (localsFrom i : Set (PluginMutex threads)) =
            insert (.localMutex ⟨i, hi⟩) (localsFrom (i + 1)) := localsFrom_eq_insert hi
        have hmem : .localMutex ⟨i, hi⟩ ∈ (TickPoint.unlockAll i e rest : TickPoint threads _).held := by
          rw [TickPoint.held, hlocals]
          simp
        have hout : .localMutex ⟨i, hi⟩ ∉
            (insert .disconnectMutex (localsFrom (i + 1)) : Set (PluginMutex threads)) := by
          simp [localsFrom]
        refine TickMoves.unlocks ⟨rfl, rfl, rfl, rfl, le_refl _⟩ hnow hmem rfl ?_
        rw [TickPoint.held, TickPoint.held, hlocals, Set.insert_comm, Set.insert_sdiff_self_of_notMem hout]
      · obtain rfl := Option.some.inj h
        refine TickMoves.keeps ⟨rfl, rfl, rfl, rfl, le_refl _⟩ hnow rfl ?_
        rw [TickPoint.held, TickPoint.held, localsFrom_eq_empty (Nat.le_of_not_lt hi)]
        simp
  · next e rest hnow =>
      obtain rfl := Option.some.inj h
      exact TickMoves.keeps ⟨rfl, rfl, rfl, rfl, le_refl _⟩ hnow rfl rfl
  · exact absurd h (by simp)

theorem effect_tickStep {choice : Choice endpoint} (h : x.tickStep choice = some y) :
    Effect .tick x y := by
  unfold tickStep at h
  split at h
  · exact absurd h (by simp)
  · exact effect_tickClients h
  · exact effect_tickClients h
  · exact effect_tickClients h
  · exact effect_tickClients h
  · exact effect_tickInputs h
  · exact effect_tickInputs h
  · exact effect_tickInputs h
  · exact effect_tickInputs h
  · exact effect_tickInputs h
  · exact effect_tickInputs h
  · split at h
    · exact effect_tickDisconnects h
    · exact absurd h (by simp)

theorem effect_partyStep {choice : Choice endpoint} (h : x.partyStep p choice = some y) :
    Effect p x y := by
  unfold partyStep at h
  split at h
  · exact effect_tickStep h
  · exact effect_inputStep h
  · exact effect_packetStep h
  · exact effect_callerStep h
  · exact absurd h (by simp)

end Tick

/-! ## The invariant -/

/-- The owners of the mutexes hold them, and the counter counts tasks. -/
structure Accounted (x : PluginLocks threads endpoint buffer) : Prop where
  exclusive : Exclusive x.owner x.held
  counted : x.Counted

theorem accounted_new : (new : PluginLocks threads endpoint buffer).Accounted where
  exclusive := by
    intro m p
    cases p <;> simp [new, held, point, PartyPoint.held, TickPoint.held]
  counted := Nat.zero_le _

variable [DecidableEq endpoint]

theorem Accounted.step (h : x.Accounted) {action : LocksAction threads endpoint buffer}
    {evs : List Empty} (hstep : PluginLocks.step x action = some (y, evs)) : y.Accounted := by
  unfold PluginLocks.step at hstep
  split_ifs at hstep
  split at hstep
  · next i e b =>
      obtain ⟨rfl, -⟩ := Prod.mk.inj (Option.some.inj hstep)
      refine ⟨h.exclusive.congr ?_, h.counted⟩
      intro q
      cases q with
      | packet k => exact held_elim_append .packet rfl k
      | _ => rfl
  · next e =>
      obtain ⟨rfl, -⟩ := Prod.mk.inj (Option.some.inj hstep)
      refine ⟨h.exclusive.congr ?_, h.counted⟩
      intro q
      cases q with
      | caller k => exact held_elim_append callerPoint rfl k
      | _ => rfl
  · split at hstep
    · next hidle =>
        obtain ⟨rfl, -⟩ := Prod.mk.inj (Option.some.inj hstep)
        have heffect : Effect .tick x { x with tick := .testNew } :=
          TickMoves.keeps ⟨rfl, rfl, rfl, rfl, le_refl _⟩ hidle rfl rfl
        exact ⟨heffect.mutates.exclusive h.exclusive, heffect.counted h.counted⟩
    · exact absurd hstep (by simp)
  · next p choice =>
      obtain ⟨z, hparty, heq⟩ := Option.map_eq_some_iff.mp hstep
      obtain ⟨rfl, -⟩ := Prod.mk.inj heq
      have heffect : Effect p x z := effect_partyStep hparty
      exact ⟨heffect.mutates.exclusive h.exclusive, heffect.counted h.counted⟩

/-- **In every run** the owner of a mutex is the party that holds it. -/
theorem accounted_run
    {visited : List (Config (PluginLocks threads endpoint buffer) Empty ×
      LocksAction threads endpoint buffer)}
    {x : Config (PluginLocks threads endpoint buffer) Empty}
    (hrun : Run PluginLocks.step start visited x) : x.state.Accounted := by
  apply hrun.invariant_state PluginLocks.Accounted
  · intro s s' a ev h hstep
    exact h.step hstep
  · exact accounted_new

end PluginLocks

end Sekkeizu
