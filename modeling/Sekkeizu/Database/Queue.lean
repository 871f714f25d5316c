/-
# Sekkeizu.Database.Queue — what one scan of a queue does, in closed form.

`getPendingOperations` walks the queue with flags, a counter, pending marks and an index. This module
states its effect without the loop: with `consumed` the longest part of the queue the scan automaton
`acceptEntry` reads, the scan sends the non-dependency entries of `consumed` in order, marks exactly these
pending, lowers the counter by the callables among them and moves `firstId` past `consumed`
(`getPendingOperations_eq`). Every later proof uses `consumed`, `batch` and `scanned`; none unfolds
the loop again.

`CollectionInfo.Sound` is the invariant of one queue. The operations that touch a queue (a push, a
scan, a finished task) keep it.
-/
import Sekkeizu.Database.Transaction
import Sekkeizu.Semantics.Scanner


namespace Sekkeizu

open Finmap (modify modifyAll emplace)

variable {doc callable : Type*}

/-! ## The scan as an automaton -/

/-- One entry against the flags `(has_non_callable, has_callable)` of the scan: the flags after taking
it, or a refusal. -/
def acceptEntry (getter : Getter doc callable) (collection : UInt8) (mode : Bool × Bool)
    (q : Nat × TransactionInfo doc callable) : Option (Bool × Bool) :=
  if q.2.pending then none
  else if q.2.done then some mode
  else
    match q.2.dependency with
    | some dependency => if dependencyMet getter collection q.1 dependency then some mode else none
    | none =>
      match q.2.callable with
      | some _ => if mode.1 then none else some (mode.1, true)
      | none => if mode.2 then none else some (true, mode.2)

/-- A taken entry is put into the batch: it is not done and not a dependency. -/
def TransactionInfo.sent (e : TransactionInfo doc callable) : Bool :=
  !e.done && e.dependency.isNone

/-- The ids the scan sends among the entries it took. -/
def sentIds (taken : List (Nat × TransactionInfo doc callable)) : List Nat :=
  (taken.filter fun q => q.2.sent).map Prod.fst

/-- How many of the entries the scan took are callables it sends. -/
def sentCallables (taken : List (Nat × TransactionInfo doc callable)) : Nat :=
  taken.countP fun q => q.2.sent && q.2.callable.isSome

/-- **What a taken entry is.** Not pending, and either done already, or a met dependency, or a callable
with no write taken before it, or a write with no callable taken before it. -/
theorem acceptEntry_eq_some {getter : Getter doc callable} {collection : UInt8} {mode mode' : Bool × Bool}
    {q : Nat × TransactionInfo doc callable}
    (h : acceptEntry getter collection mode q = some mode') :
    q.2.pending = false ∧
      ((q.2.done = true ∧ mode' = mode) ∨
       (q.2.done = false ∧ (∃ d, q.2.dependency = some d ∧ dependencyMet getter collection q.1 d = true) ∧
          mode' = mode) ∨
       (q.2.done = false ∧ q.2.dependency = none ∧ (∃ f, q.2.callable = some f) ∧
          mode.1 = false ∧ mode' = (mode.1, true)) ∨
       (q.2.done = false ∧ q.2.dependency = none ∧ q.2.callable = none ∧
          mode.2 = false ∧ mode' = (true, mode.2))) := by
  revert h
  unfold acceptEntry
  grind

/-- A taken dependency is met, unless the entry is done already. -/
theorem met_of_accepted {getter : Getter doc callable} {collection : UInt8} {mode mode' : Bool × Bool}
    {q : Nat × TransactionInfo doc callable}
    (h : acceptEntry getter collection mode q = some mode') :
    q.2.done = true ∨
      ∀ d, q.2.dependency = some d → dependencyMet getter collection q.1 d = true := by
  obtain ⟨-, ⟨hdone, -⟩ | ⟨-, ⟨d', hd', hmet⟩, -⟩ | ⟨-, hnone, -⟩ | ⟨-, hnone, -⟩⟩ :=
    acceptEntry_eq_some h
  · exact Or.inl hdone
  · apply Or.inr
    intro d hd
    rw [hd'] at hd
    exact Option.some.inj hd ▸ hmet
  · exact Or.inr fun d hd => absurd (hnone.symm.trans hd) (by simp)
  · exact Or.inr fun d hd => absurd (hnone.symm.trans hd) (by simp)

section Entries

variable [Bson doc]

/-- Entries `first .. first + n - 1` as the scan reads them. -/
def entriesFrom (entries : Finmap fun _ : Nat => TransactionInfo doc callable) (first n : Nat) :
    List (Nat × TransactionInfo doc callable) :=
  (List.range' first n).map fun id => (id, (entries.lookup id).getD .new)

theorem entriesFrom_succ (entries : Finmap fun _ : Nat => TransactionInfo doc callable)
    (first n : Nat) :
    entriesFrom entries first (n + 1) =
      (first, (entries.lookup first).getD .new) :: entriesFrom entries (first + 1) n := by
  simp only [entriesFrom, List.range'_succ, List.map_cons]

/-- An update of an entry that the scan has passed is invisible to the rest of the scan. -/
theorem entriesFrom_modify (entries : Finmap fun _ : Nat => TransactionInfo doc callable)
    (f : TransactionInfo doc callable → TransactionInfo doc callable) {id first : Nat}
    (h : id < first) (n : Nat) :
    entriesFrom (modify f id entries) first n = entriesFrom entries first n := by
  apply List.map_congr_left
  intro j hj
  have hne : j ≠ id := by
    have := (List.mem_range'_1.mp hj).1
    omega
  rw [Finmap.lookup_modify, if_neg hne]

end Entries

/-- The 8-bit counter wraps, so lowering it in two steps is lowering it by the sum. -/
theorem counter_sub_sub (c : UInt8) (j k : Nat) :
    c - UInt8.ofNat j - UInt8.ofNat k = c - UInt8.ofNat (j + k) := by
  rw [UInt8.ofNat_add]
  apply UInt8.toBitVec_inj.mp
  simp only [UInt8.toBitVec_sub, UInt8.toBitVec_add]
  rw [BitVec.sub_sub]

/-! ## The loop in closed form -/

section Loop

/-- The scan state after taking `taken` and stopping with `flags`. -/
def Scan.after (s : Scan doc callable) (taken : List (Nat × TransactionInfo doc callable))
    (flags : Bool × Bool) : Scan doc callable where
  entries := modifyAll TransactionInfo.setPending (sentIds taken) s.entries
  pendingCallables := s.pendingCallables - UInt8.ofNat (sentCallables taken)
  transactions := s.transactions ++ sentIds taken
  hasNonCallable := flags.1
  hasCallable := flags.2
  id := s.id + taken.length

@[simp] theorem Scan.after_id (s : Scan doc callable) (q : Nat × TransactionInfo doc callable)
    (flags : Bool × Bool) : (s.after [q] flags).id = s.id + 1 := rfl

@[simp] theorem Scan.after_mode (s : Scan doc callable)
    (taken : List (Nat × TransactionInfo doc callable)) (flags : Bool × Bool) :
    ((s.after taken flags).hasNonCallable, (s.after taken flags).hasCallable) = flags := rfl

theorem Scan.after_nil (s : Scan doc callable) :
    s.after [] (s.hasNonCallable, s.hasCallable) = s := by
  simp [Scan.after, sentIds, sentCallables]

/-- Two stretches of the scan are one. -/
theorem Scan.after_after (s : Scan doc callable)
    (taken taken' : List (Nat × TransactionInfo doc callable)) (flags flags' : Bool × Bool) :
    (s.after taken flags).after taken' flags' = s.after (taken ++ taken') flags' := by
  simp [Scan.after, sentIds, sentCallables, modifyAll, counter_sub_sub, Nat.add_assoc]

variable [Bson doc] (getter : Getter doc callable) (collection : UInt8)

/-- What the scan takes of `n` entries from its current position. -/
def Scan.taken (s : Scan doc callable) (n : Nat) : List (Nat × TransactionInfo doc callable) :=
  Scanner.consumed (acceptEntry getter collection) (s.hasNonCallable, s.hasCallable)
    (entriesFrom s.entries s.id n)

/-- The flags in which the scan of `n` entries stops. -/
def Scan.flags (s : Scan doc callable) (n : Nat) : Bool × Bool :=
  Scanner.finalMode (acceptEntry getter collection) (s.hasNonCallable, s.hasCallable)
    (entriesFrom s.entries s.id n)

variable {getter collection}

/-- The body of the loop refuses what the automaton refuses. -/
theorem scanEntry_eq_none {s : Scan doc callable}
    (h : acceptEntry getter collection (s.hasNonCallable, s.hasCallable)
      (s.id, (s.entries.lookup s.id).getD .new) = none) :
    scanEntry getter collection s = none := by
  revert h
  unfold scanEntry acceptEntry
  grind

/-- The body of the loop on an entry the automaton takes: the flags follow the automaton, and the
entry is marked, counted and appended exactly when it is `sent`. -/
theorem scanEntry_eq_some {s : Scan doc callable} {mode : Bool × Bool}
    (h : acceptEntry getter collection (s.hasNonCallable, s.hasCallable)
      (s.id, (s.entries.lookup s.id).getD .new) = some mode) :
    ∃ s', scanEntry getter collection s = some s' ∧
      { s' with id := s'.id + 1 } =
        s.after [(s.id, (s.entries.lookup s.id).getD .new)] mode := by
  obtain ⟨hpending, hcases⟩ := acceptEntry_eq_some h
  generalize he : (s.entries.lookup s.id).getD .new = e at hpending hcases
  dsimp only at hpending hcases
  simp only [Scan.after, sentIds, sentCallables, TransactionInfo.sent]
  unfold scanEntry
  rw [he]
  -- done already, a met dependency, a callable, a write
  rcases hcases with ⟨hdone, rfl⟩ | ⟨hdone, ⟨d, hdep, hmet⟩, rfl⟩ |
    ⟨hdone, hdep, ⟨f, hcall⟩, hmode, rfl⟩ | ⟨hdone, hdep, hcall, hmode, rfl⟩
  · refine ⟨s, ?_, ?_⟩
    · simp [hpending, hdone]
    · simp [hdone]
  · refine ⟨s, ?_, ?_⟩
    · simp [hpending, hdone, hdep, hmet]
    · simp [hdep]
  · refine ⟨{ s with
      hasCallable := true
      pendingCallables := s.pendingCallables - 1
      entries := modify TransactionInfo.setPending s.id s.entries
      transactions := s.transactions ++ [s.id] }, ?_, ?_⟩
    · simp [hpending, hdone, hdep, hcall, hmode]
    · simp [hdone, hdep, hcall]
  · refine ⟨{ s with
      hasNonCallable := true
      entries := modify TransactionInfo.setPending s.id s.entries
      transactions := s.transactions ++ [s.id] }, ?_, ?_⟩
    · simp [hpending, hdone, hdep, hcall, hmode]
    · simp [hdone, hdep, hcall]

/-- What the scan has passed does not change what it reads next. -/
theorem Scan.after_entriesFrom (s : Scan doc callable) (e : TransactionInfo doc callable)
    (mode : Bool × Bool) (n : Nat) :
    entriesFrom (s.after [(s.id, e)] mode).entries (s.id + 1) n =
      entriesFrom s.entries (s.id + 1) n := by
  simp only [Scan.after, sentIds, List.filter_cons, List.filter_nil]
  split
  · exact entriesFrom_modify _ _ (Nat.lt_succ_self s.id) n
  · rfl

/-- **The loop is the automaton.** -/
theorem scanLoop_eq (n : Nat) (s : Scan doc callable)
    (hpresent : ∀ id, s.id ≤ id → id < s.id + n → id ∈ s.entries) :
    scanLoop getter collection n s =
      s.after (s.taken getter collection n) (s.flags getter collection n) := by
  induction n generalizing s with
  | zero => exact s.after_nil.symm
  | succ n ih =>
      -- `transactions[id]` finds the entry, so the loop creates none
      have hhead : s.id ∈ s.entries := hpresent s.id (Nat.le_refl _) (by omega)
      have hemplace : { s with entries := emplace s.id TransactionInfo.new s.entries } = s := by
        simp [emplace, hhead]
      simp only [scanLoop, hemplace]
      rw [Scan.taken, Scan.flags, entriesFrom_succ]
      cases haccept : acceptEntry getter collection (s.hasNonCallable, s.hasCallable)
          (s.id, (s.entries.lookup s.id).getD .new) with
      | none =>
          rw [scanEntry_eq_none haccept, Scanner.consumed_refused haccept,
            Scanner.finalMode_refused haccept, Scan.after_nil]
      | some mode =>
          obtain ⟨s', hbody, hnext⟩ := scanEntry_eq_some haccept
          rw [hbody, Scanner.consumed_taken haccept, Scanner.finalMode_taken haccept]
          simp only [hnext]
          rw [ih _ (by
            intro id hlo hhi
            simp only [Scan.after, List.length_singleton] at hlo hhi ⊢
            rw [Finmap.mem_modifyAll]
            exact hpresent id (by omega) (by omega))]
          rw [Scan.after_after, Scan.taken, Scan.flags]
          simp only [Scan.after_id, Scan.after_mode, Scan.after_entriesFrom, List.singleton_append]

end Loop

/-! ## One scan of one queue -/

/-- The unconsumed part of the queue. -/
def CollectionInfo.queue [Bson doc] (info : CollectionInfo doc callable) :
    List (Nat × TransactionInfo doc callable) :=
  entriesFrom info.transactions info.firstId (info.currentId - info.firstId)

section Scanned

variable [Bson doc] (getter : Getter doc callable) (collection : UInt8) (info : CollectionInfo doc callable)

/-- What one scan takes from the head of the queue. -/
def CollectionInfo.consumed : List (Nat × TransactionInfo doc callable) :=
  Scanner.consumed (acceptEntry getter collection) (false, false) info.queue

/-- The ids one scan hands to the database. -/
def CollectionInfo.batch : List Nat := sentIds (info.consumed getter collection)

/-- `has_non_callable_transactions` after the scan. -/
def CollectionInfo.hasNonCallable : Bool :=
  (Scanner.finalMode (acceptEntry getter collection) (false, false) info.queue).1

/-- The queue after one scan. -/
def CollectionInfo.scanned : CollectionInfo doc callable where
  firstId := info.firstId + (info.consumed getter collection).length
  currentId := info.currentId
  transactions :=
    modifyAll TransactionInfo.setPending (info.batch getter collection) info.transactions

end Scanned

/-- **`get_pending_operations` in closed form.** -/
theorem getPendingOperations_eq [Bson doc] {getter : Getter doc callable} {collection : UInt8}
    {t : Transaction doc callable} {info : CollectionInfo doc callable}
    (hlookup : t.collections.lookup collection = some info)
    (hpresent : ∀ id < info.currentId, id ∈ info.transactions) :
    t.getPendingOperations collection getter =
      (info.batch getter collection, info.hasNonCallable getter collection, { t with
        collections := t.collections.insert collection (info.scanned getter collection)
        pendingCallables := t.pendingCallables -
          UInt8.ofNat (sentCallables (info.consumed getter collection)) }) := by
  unfold Transaction.getPendingOperations
  simp only [hlookup]
  rw [scanLoop_eq _ _ (by
    intro id hlo hhi
    dsimp only at hlo hhi ⊢
    exact hpresent id (by omega))]
  simp only [Scan.after, Scan.taken, Scan.flags, List.nil_append]
  rfl

/-! ## The two marks -/

theorem TransactionInfo.setPending_idem (e : TransactionInfo doc callable) :
    e.setPending.setPending = e.setPending := rfl

theorem TransactionInfo.finish_idem (e : TransactionInfo doc callable) :
    e.finish.finish = e.finish := rfl

/-! ## The invariant of one queue -/

/-- Entry `id` is an operation or a callable. -/
def CollectionInfo.isOperation (info : CollectionInfo doc callable) (id : Nat) : Bool :=
  match info.transactions.lookup id with
  | none => false
  | some e => e.dependency.isNone

/-- The operation and callable entries with id below `n`, in id order. -/
def CollectionInfo.operationsBelow (info : CollectionInfo doc callable) (n : Nat) : List Nat :=
  (List.range n).filter info.isOperation

/-- **The invariant of one queue.** Ids are handed out without gaps; what has not been consumed is
neither pending nor done; a dependency entry is never either, and carries no callable. -/
structure CollectionInfo.Sound (info : CollectionInfo doc callable) : Prop where
  first_le : info.firstId ≤ info.currentId
  mem_iff : ∀ id, id ∈ info.transactions ↔ id < info.currentId
  fresh : ∀ {id e}, info.firstId ≤ id → info.transactions.lookup id = some e →
    e.pending = false ∧ e.done = false
  dependency : ∀ {id e}, info.transactions.lookup id = some e → e.dependency ≠ none →
    e.pending = false ∧ e.done = false ∧ e.callable = none

theorem CollectionInfo.mem_operationsBelow {info : CollectionInfo doc callable} {n id : Nat} :
    id ∈ info.operationsBelow n ↔ id < n ∧ info.isOperation id = true := by
  simp [CollectionInfo.operationsBelow]

theorem CollectionInfo.isOperation_iff {info : CollectionInfo doc callable} {id : Nat} :
    info.isOperation id = true ↔
      ∃ e, info.transactions.lookup id = some e ∧ e.dependency = none := by
  unfold CollectionInfo.isOperation
  cases info.transactions.lookup id with
  | none => simp
  | some e => simp

/-- `isOperation` reads the table only, and of an entry only its dependency. -/
theorem CollectionInfo.isOperation_modifyAll {info : CollectionInfo doc callable}
    {f : TransactionInfo doc callable → TransactionInfo doc callable} (hf : ∀ e, f (f e) = f e)
    (hdep : ∀ e, (f e).dependency = e.dependency) (ids : List Nat) (first current : Nat) (id : Nat) :
    CollectionInfo.isOperation ⟨first, current, modifyAll f ids info.transactions⟩ id =
      info.isOperation id := by
  unfold CollectionInfo.isOperation
  dsimp only
  rw [Finmap.lookup_modifyAll hf]
  split_ifs
  · cases info.transactions.lookup id <;> simp [hdep]
  · rfl

theorem CollectionInfo.operationsBelow_pairwise (info : CollectionInfo doc callable) (n : Nat) :
    (info.operationsBelow n).Pairwise (· < ·) :=
  List.Pairwise.filter _ List.pairwise_lt_range

namespace CollectionInfo.Sound

variable {info : CollectionInfo doc callable}

theorem lt_of_lookup (h : info.Sound) {id : Nat} {e : TransactionInfo doc callable}
    (he : info.transactions.lookup id = some e) : id < info.currentId :=
  (h.mem_iff id).mp (Finmap.mem_of_lookup_eq_some he)

variable [Bson doc]

theorem lookup_eq (h : info.Sound) {id : Nat} (hid : id < info.currentId) :
    info.transactions.lookup id = some (info.entry id) := by
  obtain ⟨e, he⟩ := Finmap.mem_iff.mp ((h.mem_iff id).mpr hid)
  simp only [CollectionInfo.entry, he, Option.getD_some]

/-! ## What the scan takes of a sound queue -/

section Scanned

variable (getter : Getter doc callable) (collection : UInt8)

theorem consumed_length_le (h : info.Sound) :
    info.firstId + (info.consumed getter collection).length ≤ info.currentId := by
  have hle : (info.consumed getter collection).length ≤ info.queue.length :=
    Scanner.consumed_length_le _ _
  have hlen : info.queue.length = info.currentId - info.firstId := by
    simp [CollectionInfo.queue, entriesFrom]
  have hfirst := h.first_le
  omega

/-- The scan takes consecutive entries, from `firstId` on. -/
theorem consumed_eq (h : info.Sound) :
    info.consumed getter collection =
      entriesFrom info.transactions info.firstId (info.consumed getter collection).length := by
  have hle := h.consumed_length_le getter collection
  have htake : info.consumed getter collection =
      info.queue.take (info.consumed getter collection).length :=
    Scanner.consumed_eq_take _ _
  rw [CollectionInfo.queue, entriesFrom, ← List.map_take,
    List.take_range'_of_length_ge (by omega)] at htake
  exact htake

/-- Nothing the scan meets is done, so it sends exactly the entries that are not dependencies. -/
theorem batch_eq (h : info.Sound) :
    info.batch getter collection =
      (List.range' info.firstId (info.consumed getter collection).length).filter
        info.isOperation := by
  have hle := h.consumed_length_le getter collection
  rw [CollectionInfo.batch, sentIds, h.consumed_eq getter collection, entriesFrom, List.filter_map,
    List.map_map]
  simp only [List.length_map, List.length_range']
  have hid : (Prod.fst ∘ fun id => (id, (info.transactions.lookup id).getD TransactionInfo.new)) =
      id := rfl
  rw [hid, List.map_id]
  apply List.filter_congr
  intro id hmem
  have hbounds := List.mem_range'_1.mp hmem
  have hlookup : info.transactions.lookup id = some (info.entry id) := h.lookup_eq (by omega)
  simp only [Function.comp_apply, CollectionInfo.isOperation, hlookup, Option.getD_some,
    TransactionInfo.sent, (h.fresh hbounds.1 hlookup).2, Bool.not_false, Bool.true_and]

theorem mem_batch (h : info.Sound) {id : Nat} :
    id ∈ info.batch getter collection ↔
      info.firstId ≤ id ∧ id < info.firstId + (info.consumed getter collection).length ∧
        info.isOperation id = true := by
  rw [h.batch_eq getter collection, List.mem_filter, List.mem_range'_1, and_assoc]

/-- Every dependency the scan passes was met. -/
theorem met_of_consumed (h : info.Sound) {id : Nat} {e : TransactionInfo doc callable}
    {d : Dependency} (hlo : info.firstId ≤ id)
    (hhi : id < info.firstId + (info.consumed getter collection).length)
    (he : info.transactions.lookup id = some e) (hd : e.dependency = some d) :
    dependencyMet getter collection id d = true := by
  have hmem : (id, e) ∈ info.consumed getter collection := by
    rw [h.consumed_eq getter collection, entriesFrom]
    refine List.mem_map.mpr ⟨id, List.mem_range'_1.mpr ⟨hlo, hhi⟩, ?_⟩
    rw [he, Option.getD_some]
  have hall : ∀ q ∈ info.consumed getter collection, q.2.done = true ∨
      ∀ d, q.2.dependency = some d → dependencyMet getter collection q.1 d = true :=
    Scanner.forall_mem_consumed (fun hq => met_of_accepted hq) _ _
  rcases hall (id, e) hmem with hdone | hmet
  · have hnot := (h.fresh hlo he).2
    exact absurd (hnot.symm.trans hdone) (by simp)
  · exact hmet d hd

/-- The head of the queue is refused only when it is an unmet dependency. -/
theorem consumed_ne_nil (h : info.Sound) (hlt : info.firstId < info.currentId)
    (hmet : ∀ d, (info.entry info.firstId).dependency = some d →
      dependencyMet getter collection info.firstId d = true) :
    info.consumed getter collection ≠ [] := by
  have hlookup := h.lookup_eq hlt
  obtain ⟨hpending, hdone⟩ := h.fresh (Nat.le_refl _) hlookup
  obtain ⟨n, hn⟩ : ∃ n, info.currentId - info.firstId = n + 1 :=
    ⟨info.currentId - info.firstId - 1, by omega⟩
  have haccept : ∃ mode, acceptEntry getter collection (false, false)
      (info.firstId, info.entry info.firstId) = some mode := by
    unfold acceptEntry
    simp only [hpending, hdone]
    cases hdep : (info.entry info.firstId).dependency with
    | some d => simp [hmet d hdep]
    | none =>
        cases (info.entry info.firstId).callable with
        | some f => simp
        | none => simp
  obtain ⟨mode, hmode⟩ := haccept
  have hqueue : info.queue = (info.firstId, info.entry info.firstId) ::
      entriesFrom info.transactions (info.firstId + 1) n := by
    rw [CollectionInfo.queue, hn, entriesFrom_succ]
    rfl
  rw [CollectionInfo.consumed, hqueue, Scanner.consumed_taken hmode]
  exact List.cons_ne_nil _ _

/-! ## The operations keep the invariant -/

theorem isOperation_scanned (id : Nat) :
    (info.scanned getter collection).isOperation id = info.isOperation id :=
  CollectionInfo.isOperation_modifyAll TransactionInfo.setPending_idem (fun _ => rfl) _ _ _ id

theorem lookup_scanned (id : Nat) :
    (info.scanned getter collection).transactions.lookup id =
      if id ∈ info.batch getter collection then
        (info.transactions.lookup id).map TransactionInfo.setPending
      else info.transactions.lookup id :=
  Finmap.lookup_modifyAll TransactionInfo.setPending_idem _ _ _

/-- One scan consumes the next operations, in order. -/
theorem operationsBelow_scanned (h : info.Sound) :
    (info.scanned getter collection).operationsBelow (info.scanned getter collection).firstId =
      info.operationsBelow info.firstId ++ info.batch getter collection := by
  have hsame : (info.scanned getter collection).isOperation = info.isOperation :=
    funext fun id => isOperation_scanned getter collection id
  rw [CollectionInfo.operationsBelow, hsame, h.batch_eq getter collection,
    CollectionInfo.operationsBelow, List.range_eq_range', List.range_eq_range', ← List.filter_append,
    CollectionInfo.scanned]
  congr 1
  rw [← List.range'_append_1, Nat.zero_add]

theorem scanned (h : info.Sound) : (info.scanned getter collection).Sound where
  first_le := h.consumed_length_le getter collection
  mem_iff id := by
    rw [CollectionInfo.scanned, Finmap.mem_modifyAll]
    exact h.mem_iff id
  fresh := by
    intro id e hid he
    have hid' : info.firstId + (info.consumed getter collection).length ≤ id := hid
    have hnot : id ∉ info.batch getter collection := by
      intro hmem
      have := ((h.mem_batch getter collection).mp hmem).2.1
      omega
    rw [lookup_scanned, if_neg hnot] at he
    exact h.fresh (by omega) he
  dependency := by
    intro id e he hdep
    rw [lookup_scanned] at he
    split_ifs at he with hmem
    · -- a sent entry is no dependency
      obtain ⟨e₀, he₀, rfl⟩ := Option.map_eq_some_iff.mp he
      obtain ⟨e₁, he₁, hnone⟩ :=
        CollectionInfo.isOperation_iff.mp ((h.mem_batch getter collection).mp hmem).2.2
      rw [he₀] at he₁
      exact absurd (Option.some.inj he₁ ▸ hnone) hdep
    · exact h.dependency he hdep

end Scanned

end CollectionInfo.Sound

/-- The queue after one push. -/
def CollectionInfo.pushed [Bson doc]
    (write : TransactionInfo doc callable → TransactionInfo doc callable)
    (info : CollectionInfo doc callable) : CollectionInfo doc callable where
  firstId := info.firstId
  currentId := info.currentId + 1
  transactions := info.transactions.insert info.currentId (write (info.entry info.currentId))

/-- The queue after a task that sent `ids` has run. -/
def CollectionInfo.finished (ids : List Nat) (info : CollectionInfo doc callable) :
    CollectionInfo doc callable :=
  { info with transactions := modifyAll TransactionInfo.finish ids info.transactions }

namespace CollectionInfo.Sound

variable {info : CollectionInfo doc callable}

theorem pushed [Bson doc] {write : TransactionInfo doc callable → TransactionInfo doc callable}
    (h : info.Sound) (hfresh : ∀ e, (write e).pending = false ∧ (write e).done = false)
    (hdep : ∀ e, (write e).dependency ≠ none → (write e).callable = none) :
    (info.pushed write).Sound where
  first_le := Nat.le_succ_of_le h.first_le
  mem_iff id := by
    rw [CollectionInfo.pushed, Finmap.mem_insert, h.mem_iff]
    dsimp only
    omega
  fresh := by
    intro id e hid he
    rw [CollectionInfo.pushed, Finmap.lookup_insert_eq] at he
    split_ifs at he with hslot
    · exact Option.some.inj he ▸ hfresh _
    · exact h.fresh hid he
  dependency := by
    intro id e he hne
    rw [CollectionInfo.pushed, Finmap.lookup_insert_eq] at he
    split_ifs at he with hslot
    · obtain rfl := Option.some.inj he
      exact ⟨(hfresh _).1, (hfresh _).2, hdep _ hne⟩
    · exact h.dependency he hne

/-- A push leaves the consumed part alone. -/
theorem operationsBelow_pushed [Bson doc]
    {write : TransactionInfo doc callable → TransactionInfo doc callable} (h : info.Sound) :
    (info.pushed write).operationsBelow info.firstId = info.operationsBelow info.firstId := by
  apply List.filter_congr
  intro id hid
  have hlt := List.mem_range.mp hid
  have hne : id ≠ info.currentId := by
    have := h.first_le
    omega
  simp only [CollectionInfo.isOperation, CollectionInfo.pushed, Finmap.lookup_insert_eq,
    if_neg hne]

theorem isOperation_finished (ids : List Nat) (id : Nat) :
    (info.finished ids).isOperation id = info.isOperation id :=
  CollectionInfo.isOperation_modifyAll TransactionInfo.finish_idem (fun _ => rfl) _ _ _ id

theorem lookup_finished (ids : List Nat) (id : Nat) :
    (info.finished ids).transactions.lookup id =
      if id ∈ ids then (info.transactions.lookup id).map TransactionInfo.finish
      else info.transactions.lookup id :=
  Finmap.lookup_modifyAll TransactionInfo.finish_idem _ _ _

theorem operationsBelow_finished (ids : List Nat) (n : Nat) :
    (info.finished ids).operationsBelow n = info.operationsBelow n :=
  List.filter_congr fun id _ => isOperation_finished ids id

/-- Finishing entries that were sent keeps the invariant. -/
theorem finished {ids : List Nat} (h : info.Sound)
    (hids : ∀ id ∈ ids, id ∈ info.operationsBelow info.firstId) : (info.finished ids).Sound where
  first_le := h.first_le
  mem_iff id := by
    rw [CollectionInfo.finished, Finmap.mem_modifyAll]
    exact h.mem_iff id
  fresh := by
    intro id e hid he
    have hnot : id ∉ ids := by
      intro hmem
      have hlt := (CollectionInfo.mem_operationsBelow.mp (hids id hmem)).1
      have hle : info.firstId ≤ id := hid
      omega
    rw [lookup_finished, if_neg hnot] at he
    exact h.fresh hid he
  dependency := by
    intro id e he hne
    rw [lookup_finished] at he
    split_ifs at he with hmem
    · obtain ⟨e₀, he₀, rfl⟩ := Option.map_eq_some_iff.mp he
      obtain ⟨e₁, he₁, hnone⟩ := CollectionInfo.isOperation_iff.mp
        (CollectionInfo.mem_operationsBelow.mp (hids id hmem)).2
      rw [he₀] at he₁
      exact absurd (Option.some.inj he₁ ▸ hnone) hne
    · exact h.dependency he hne

end CollectionInfo.Sound

end Sekkeizu
