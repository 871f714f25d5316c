/-
# Sekkeizu.Network.Places — where the parties of the plugin stand, and what they hold there.

`new_client` may call `disconnect` with `_shared_mutex` held, and the disconnect loop locks
`_shared_mutex` with `_disconnect_mutex` held, so no order of the mutexes serves. What serves is an order of
the places a party may wait at (`PartyPoint.rank`): only `tick` locks both, it stands at one place at a
time, and a call of `disconnect` waits for nothing once it has its mutex.
-/
import Sekkeizu.Network.Locks
import Mathlib.Data.Set.Insert


namespace Sekkeizu

variable {threads : Nat} {endpoint buffer : Type*}

/-! ## Places -/

/-- The mutexes of the threads before `k`. -/
def localsBelow (k : Nat) : Set (PluginMutex threads) := {m | ∃ j : Fin threads, ↑j < k ∧ m = .localMutex j}

/-- The mutexes of the threads from `k` on. -/
def localsFrom (k : Nat) : Set (PluginMutex threads) := {m | ∃ j : Fin threads, k ≤ ↑j ∧ m = .localMutex j}

theorem localsBelow_succ {i : Nat} (hi : i < threads) :
    (localsBelow (i + 1) : Set (PluginMutex threads)) =
      insert (.localMutex ⟨i, hi⟩) (localsBelow i) := by
  ext m
  constructor
  · rintro ⟨j, hj, rfl⟩
    rcases Nat.lt_or_ge j i with hlt | hge
    · exact Or.inr ⟨j, hlt, rfl⟩
    · have hj : j = ⟨i, hi⟩ := Fin.ext (show (j : Nat) = i by omega)
      exact Or.inl (congrArg _ hj)
  · rintro (rfl | ⟨j, hj, rfl⟩)
    · exact ⟨_, Nat.lt_succ_self i, rfl⟩
    · exact ⟨j, by omega, rfl⟩

/-- Past the last thread, all of them. -/
theorem localsBelow_eq_locals {i : Nat} (hi : threads ≤ i) :
    (localsBelow i : Set (PluginMutex threads)) = localsBelow threads := by
  ext m
  constructor
  · rintro ⟨j, -, rfl⟩
    exact ⟨j, j.isLt, rfl⟩
  · rintro ⟨j, hj, rfl⟩
    exact ⟨j, by omega, rfl⟩

theorem localsBelow_eq_localsFrom :
    (localsBelow threads : Set (PluginMutex threads)) = localsFrom 0 := by
  ext m
  constructor
  · rintro ⟨j, -, rfl⟩
    exact ⟨j, Nat.zero_le _, rfl⟩
  · rintro ⟨j, -, rfl⟩
    exact ⟨j, j.isLt, rfl⟩

theorem localsFrom_eq_insert {i : Nat} (hi : i < threads) :
    (localsFrom i : Set (PluginMutex threads)) =
      insert (.localMutex ⟨i, hi⟩) (localsFrom (i + 1)) := by
  ext m
  constructor
  · rintro ⟨j, hj, rfl⟩
    rcases Nat.lt_or_ge i j with hlt | hge
    · exact Or.inr ⟨j, hlt, rfl⟩
    · have hj : j = ⟨i, hi⟩ := Fin.ext (show (j : Nat) = i by omega)
      exact Or.inl (congrArg _ hj)
  · rintro (rfl | ⟨j, hj, rfl⟩)
    · exact ⟨_, le_refl i, rfl⟩
    · exact ⟨j, by omega, rfl⟩

theorem localsFrom_eq_empty {i : Nat} (hi : threads ≤ i) :
    (localsFrom i : Set (PluginMutex threads)) = ∅ := by
  rw [Set.eq_empty_iff_forall_notMem]
  rintro m ⟨j, hj, -⟩
  omega

/-- What a callback holds for the `disconnect` it is calling. -/
def callHeld : Option (DisconnectCall endpoint) → Set (PluginMutex threads)
  | some (.push _) => {.disconnectMutex}
  | _ => ∅

/-- The mutex a callback stands before. -/
def callBefore : Option (DisconnectCall endpoint) → Option (PluginMutex threads)
  | some (.lock _) => some .disconnectMutex
  | _ => none

def PacketTask.held (t : PacketTask threads endpoint buffer) : Set (PluginMutex threads) :=
  match t.point with
  | .lockLocal | .done => ∅
  | .lockShared | .store _ => {.localMutex t.uniqueId}
  | .registerShared => {.sharedMutex, .localMutex t.uniqueId}

def PacketTask.before (t : PacketTask threads endpoint buffer) : Option (PluginMutex threads) :=
  match t.point with
  | .lockLocal => some (.localMutex t.uniqueId)
  | .lockShared => some .sharedMutex
  | _ => none

def TickPoint.held : TickPoint threads endpoint → Set (PluginMutex threads)
  | .newClients _ => {.sharedMutex}
  | .newClient _ call => insert .sharedMutex (callHeld call)
  | .collect idx => {.localMutex idx}
  | .postNetworkTick call => callHeld call
  | .disconnects _ | .onDisconnected .. => {.disconnectMutex}
  | .lockAll i .. => insert .disconnectMutex (localsBelow i)
  | .lockShared .. => insert .disconnectMutex (localsBelow threads)
  | .eraseShared .. => insert .sharedMutex (insert .disconnectMutex (localsBelow threads))
  | .unlockAll i .. => insert .disconnectMutex (localsFrom i)
  | _ => ∅

def TickPoint.before : TickPoint threads endpoint → Option (PluginMutex threads)
  | .lockNew | .lockShared .. => some .sharedMutex
  | .newClient _ call | .postNetworkTick call => callBefore call
  | .lockLocal idx => some (.localMutex idx)
  | .lockDisconnects => some .disconnectMutex
  | .lockAll i .. => if h : i < threads then some (.localMutex ⟨i, h⟩) else none
  | _ => none

/-- Where a party stands. -/
inductive PartyPoint (threads : Nat) (endpoint buffer : Type*) where
  /-- It is not there, or it has ended. -/
  | gone
  | tick (point : TickPoint threads endpoint)
  | packet (t : PacketTask threads endpoint buffer)
  | caller (call : DisconnectCall endpoint)
  | input (call : Option (DisconnectCall endpoint))

namespace PartyPoint

/-- **What a party holds.** -/
def held : PartyPoint threads endpoint buffer → Set (PluginMutex threads)
  | .gone => ∅
  | .tick point => point.held
  | .packet t => t.held
  | .caller call => callHeld (some call)
  | .input call => callHeld call

/-- The mutex a party stands before. -/
def before : PartyPoint threads endpoint buffer → Option (PluginMutex threads)
  | .gone => none
  | .tick point => point.before
  | .packet t => t.before
  | .caller call => callBefore (some call)
  | .input call => callBefore call

/-- The operation of the party is not finished. -/
def isUnfinished : PartyPoint threads endpoint buffer → Bool
  | .gone | .tick .idle => false
  | .packet t => t.point != .done
  | _ => true

def isTick : PartyPoint threads endpoint buffer → Bool
  | .tick _ => true
  | _ => false

end PartyPoint

/-- The highest rank of a party other than `tick` that holds the mutex. -/
def PluginMutex.othersRank : PluginMutex threads → Nat
  | .localMutex _ => 2
  | _ => 0

/-- The highest rank of a party that holds the mutex. -/
def PluginMutex.anyRank : PluginMutex threads → Nat
  | .sharedMutex => 1
  | _ => 3

namespace PartyPoint

/-- **The order of the waits**: a party waits only for parties of smaller rank, and `tick` not for itself. -/
def rank (p : PartyPoint threads endpoint buffer) : Nat :=
  match p, p.before with
  | .tick .wait, _ => 5
  | _, none => 0
  | .tick _, some m => m.othersRank + 1
  | _, some m => m.anyRank + 1

theorem isUnfinished_of_held {q : PartyPoint threads endpoint buffer} {m : PluginMutex threads}
    (hheld : m ∈ q.held) : q.isUnfinished = true := by
  cases q with
  | gone => exact absurd hheld (Set.notMem_empty m)
  | tick point =>
      cases point with
      | idle => exact absurd hheld (Set.notMem_empty m)
      | _ => rfl
  | packet t =>
      obtain ⟨i, e, b, point⟩ := t
      cases point with
      | done => exact absurd hheld (Set.notMem_empty m)
      | _ => rfl
  | caller _ => rfl
  | input _ => rfl

/-- A call that holds its mutex waits for nothing. -/
theorem callBefore_of_held {call : Option (DisconnectCall endpoint)} {m : PluginMutex threads}
    (hheld : m ∈ callHeld call) :
    m = .disconnectMutex ∧ (callBefore call : Option (PluginMutex threads)) = none := by
  cases call with
  | none => exact absurd hheld (Set.notMem_empty m)
  | some c =>
      cases c with
      | lock e => exact absurd hheld (Set.notMem_empty m)
      | push e => exact ⟨hheld, rfl⟩

theorem rank_others {q : PartyPoint threads endpoint buffer} {m : PluginMutex threads}
    (hheld : m ∈ q.held) (hother : q.isTick = false) : q.rank ≤ m.othersRank := by
  cases q with
  | gone => exact absurd hheld (Set.notMem_empty m)
  | tick point => exact absurd hother (by simp [isTick])
  | packet t =>
      obtain ⟨i, e, b, point⟩ := t
      cases point with
      | lockLocal => exact absurd hheld (Set.notMem_empty m)
      | lockShared =>
          obtain rfl : m = .localMutex i := hheld
          exact le_refl 2
      | registerShared => exact Nat.zero_le _
      | store fresh => exact Nat.zero_le _
      | done => exact absurd hheld (Set.notMem_empty m)
  | caller call =>
      have hrank : (caller call : PartyPoint threads endpoint buffer).rank = 0 := by
        simp [rank, before, (callBefore_of_held hheld).2]
      omega
  | input call =>
      have hrank : (input call : PartyPoint threads endpoint buffer).rank = 0 := by
        simp [rank, before, (callBefore_of_held hheld).2]
      omega

theorem rank_any {q : PartyPoint threads endpoint buffer} {m : PluginMutex threads}
    (hheld : m ∈ q.held) : q.rank ≤ m.anyRank := by
  have hothers : m.othersRank ≤ m.anyRank := by
    cases m <;> simp [PluginMutex.othersRank, PluginMutex.anyRank]
  cases q with
  | tick point =>
      cases point with
      | newClient todo call =>
          rcases Set.mem_insert_iff.mp hheld with rfl | hcall
          · -- the call waits for `_disconnect_mutex` at most
            show rank (.tick (.newClient todo call)) ≤ 1
            rcases call with _ | (_ | _) <;> simp [rank, before, TickPoint.before, callBefore,
              PluginMutex.othersRank]
          · simp [rank, before, TickPoint.before, (callBefore_of_held hcall).2]
      | postNetworkTick call => simp [rank, before, TickPoint.before, (callBefore_of_held hheld).2]
      | lockAll i e rest =>
          have hany : m.anyRank = 3 := by
            rcases Set.mem_insert_iff.mp hheld with rfl | ⟨j, -, rfl⟩ <;> rfl
          rw [hany]
          by_cases hi : i < threads <;>
            simp [rank, before, TickPoint.before, hi, PluginMutex.othersRank]
      | lockShared e rest =>
          rcases Set.mem_insert_iff.mp hheld with rfl | ⟨j, -, rfl⟩ <;>
            simp [rank, before, TickPoint.before, PluginMutex.othersRank, PluginMutex.anyRank]
      | idle => exact absurd hheld (Set.notMem_empty m)
      | testNew => exact absurd hheld (Set.notMem_empty m)
      | lockNew => exact absurd hheld (Set.notMem_empty m)
      | accumulate idx => exact absurd hheld (Set.notMem_empty m)
      | lockLocal idx => exact absurd hheld (Set.notMem_empty m)
      | execute todo => exact absurd hheld (Set.notMem_empty m)
      | wait => exact absurd hheld (Set.notMem_empty m)
      | testDisconnects => exact absurd hheld (Set.notMem_empty m)
      | lockDisconnects => exact absurd hheld (Set.notMem_empty m)
      | _ => exact Nat.zero_le _
  | gone => exact absurd hheld (Set.notMem_empty m)
  | packet t => exact (rank_others hheld rfl).trans hothers
  | caller call => exact (rank_others hheld rfl).trans hothers
  | input call => exact (rank_others hheld rfl).trans hothers

/-- `tick` does not hold the mutex it stands before. -/
theorem notMem_held_of_before {point : TickPoint threads endpoint} {m : PluginMutex threads}
    (hbefore : point.before = some m) : m ∉ point.held := by
  cases point with
  | newClient todo call =>
      intro hheld
      rcases Set.mem_insert_iff.mp hheld with rfl | hcall
      · rcases call with _ | (_ | _) <;> simp [TickPoint.before, callBefore] at hbefore
      · rw [TickPoint.before, (callBefore_of_held hcall).2] at hbefore
        exact absurd hbefore (by simp)
  | postNetworkTick call =>
      intro hheld
      rw [TickPoint.before, (callBefore_of_held hheld).2] at hbefore
      exact absurd hbefore (by simp)
  | lockAll i e rest =>
      rw [TickPoint.before] at hbefore
      split_ifs at hbefore with hi
      obtain rfl := Option.some.inj hbefore
      simp [TickPoint.held, localsBelow]
  | lockShared e rest =>
      obtain rfl : .sharedMutex = m := Option.some.inj hbefore
      simp [TickPoint.held, localsBelow]
  | lockNew => exact Set.notMem_empty m
  | lockLocal idx => exact Set.notMem_empty m
  | lockDisconnects => exact Set.notMem_empty m
  | _ => exact absurd hbefore (by simp [TickPoint.before])

/-- **The rank falls** from who stands before a mutex to who holds it. -/
theorem rank_lt {p q : PartyPoint threads endpoint buffer} {m : PluginMutex threads}
    (hbefore : p.before = some m) (hheld : m ∈ q.held)
    (htick : p.isTick = true → q.isTick = true → p = q) : q.rank < p.rank := by
  cases hp : p.isTick with
  | true =>
      cases p with
      | tick point =>
          have hrank : (tick point : PartyPoint threads endpoint buffer).rank = m.othersRank + 1 := by
            cases point with
            | wait => exact absurd hbefore (by simp [before, TickPoint.before])
            | _ => simp only [rank, hbefore]
          have hother : q.isTick = false := by
            rw [← Bool.not_eq_true]
            intro hq
            rw [← htick hp hq] at hheld
            exact notMem_held_of_before hbefore hheld
          have hle : q.rank ≤ m.othersRank := rank_others hheld hother
          omega
      | _ => exact absurd hp (by simp [isTick])
  | false =>
      have hrank : p.rank = m.anyRank + 1 := by
        cases p with
        | tick point => exact absurd hp (by simp [isTick])
        | _ => simp only [rank, hbefore]
      have hle : q.rank ≤ m.anyRank := rank_any hheld
      omega

end PartyPoint

/-! ## The parties of a state -/

def callerPoint : Option (DisconnectCall endpoint) → PartyPoint threads endpoint buffer
  | some call => .caller call
  | none => .gone

def InputTask.point : InputTask endpoint → PartyPoint threads endpoint buffer
  | .clientInputs _ call => .input call
  | .done => .gone

namespace PluginLocks

/-- Where a party stands. -/
def point (x : PluginLocks threads endpoint buffer) : Party → PartyPoint threads endpoint buffer
  | .tick => .tick x.tick
  | .packet n => (x.packets[n]?).elim .gone .packet
  | .caller n => (x.callers[n]?).elim .gone callerPoint
  | .input n => (x.inputs[n]?).elim .gone InputTask.point

/-- What a party holds. -/
def held (x : PluginLocks threads endpoint buffer) (p : Party) : Set (PluginMutex threads) :=
  (x.point p).held

variable {x : PluginLocks threads endpoint buffer} {p : Party}

theorem eq_tick_of_isTick (h : (x.point p).isTick = true) : p = .tick := by
  cases p with
  | tick => rfl
  | packet n =>
      cases hn : x.packets[n]? <;> simp [point, hn, PartyPoint.isTick] at h
  | caller n =>
      rcases hn : x.callers[n]? with _ | (_ | _) <;>
        simp [point, hn, callerPoint, PartyPoint.isTick] at h
  | input n =>
      rcases hn : x.inputs[n]? with _ | (_ | _) <;>
        simp [point, hn, InputTask.point, PartyPoint.isTick] at h

end PluginLocks

end Sekkeizu
