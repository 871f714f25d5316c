/-
# Sekkeizu.Database.Creation — `ensure_creation_impl`: insert until an `_id` is free.

The loop puts a fresh `_id` in front of the document, tries to insert it, and starts again when the server
refuses. It does not look at the error, so it treats every refusal as a duplicate `_id`. A refusal that no
`_id` can cure (another unique index, a validator) is retried forever (`unique_index_never_returns`).
The loop does what it is for exactly when the first attempt that is not refused for its `_id` is accepted
(`ensures_creation_iff`). A loop that stops at the refusals no `_id` can cure does it always
(`createOrGiveUp_ensures`).

Modelling choices:

* The server is outside the source: `Server` says for which reason, if any, an insert into a collection is
  refused. The one thing asked of it is that a duplicate `_id` is only reported for one in use.
* `get_potentially_unique_id` encrypts a counter and the clock; its answers are the sequence `ids`.
* The loop has no bound of its own, so it is given fuel: `none` is a call that has not returned yet.
* `bson_destroy` has no effect here.
-/
import Sekkeizu.Bson.Reflection
import Mathlib.Data.Nat.Find

namespace Sekkeizu

open BsonReflection (Bytes Document Element)

variable {double : Type}

/-- `bson_concat`: the fields of the second document go behind those of the first. -/
def BsonReflection.Document.concat : Document double → Document double → Document double
  | .empty, document => document
  | .cons key element rest, document => .cons key element (rest.concat document)

/-- `"_id"`. -/
def idKey : Bytes := [95, 105, 100]

/-- Why an insert is refused. -/
inductive Refusal where
  | duplicateId
  | other
  deriving DecidableEq, Repr

/-- `with_id`: the `_id`, followed by the fields of the document. -/
def withId (id : Int64) (document : Document double) : Document double :=
  (Document.empty.append idKey (.scalar (.int64 id))).concat document

/-- What the server answers to an insert. -/
structure Server (double : Type) where
  /-- Some document of the collection has this `_id`. -/
  usesId : List (Document double) → Int64 → Bool
  /-- The reason to refuse a document, if there is one. -/
  refuses : List (Document double) → Document double → Option Refusal
  duplicate : ∀ {collection id document},
    refuses collection (withId id document) = some .duplicateId → usesId collection id = true

/-- `mongoc_collection_insert_one`: the collection afterwards, or the reason for leaving it as it is. -/
def Server.insertOne (server : Server double) (collection : List (Document double))
    (document : Document double) : Except Refusal (List (Document double)) :=
  match server.refuses collection document with
  | none => .ok (collection ++ [document])
  | some reason => .error reason

/-- `ensure_creation_impl` from its attempt `n` on: the id it returns and the collection then. -/
def ensureCreationImpl (server : Server double) (ids : Nat → Int64) (document : Document double)
    (collection : List (Document double)) :
    (fuel n : Nat) → Option (Int64 × List (Document double))
  | 0, _ => none
  | fuel + 1, n =>
    match server.insertOne collection (withId (ids n) document) with
    | .ok collection' => some (ids n, collection')
    -- the error is not looked at
    | .error _ => ensureCreationImpl server ids document collection fuel (n + 1)

section Loop

variable {server : Server double} {ids : Nat → Int64} {document : Document double}
variable {collection : List (Document double)}

/-- The answer to the attempt with the `n`-th id. -/
def Server.answer (server : Server double) (ids : Nat → Int64) (document : Document double)
    (collection : List (Document double)) (n : Nat) : Option Refusal :=
  server.refuses collection (withId (ids n) document)

theorem ensureCreationImpl_accepted {n : Nat} (h : server.answer ids document collection n = none)
    (fuel : Nat) :
    ensureCreationImpl server ids document collection (fuel + 1) n =
      some (ids n, collection ++ [withId (ids n) document]) := by
  rw [Server.answer] at h
  simp only [ensureCreationImpl, Server.insertOne, h]

theorem ensureCreationImpl_refused {n : Nat} {reason : Refusal}
    (h : server.answer ids document collection n = some reason) (fuel : Nat) :
    ensureCreationImpl server ids document collection (fuel + 1) n =
      ensureCreationImpl server ids document collection fuel (n + 1) := by
  rw [Server.answer] at h
  simp only [ensureCreationImpl, Server.insertOne, h]

/-- Whatever the loop returns, the collection has gained the document under that id. -/
theorem gained_of_returned {fuel n : Nat} {id : Int64} {collection' : List (Document double)}
    (h : ensureCreationImpl server ids document collection fuel n = some (id, collection')) :
    collection' = collection ++ [withId id document] := by
  induction fuel generalizing n with
  | zero => exact absurd h (by simp [ensureCreationImpl])
  | succ fuel ih =>
      cases hanswer : server.answer ids document collection n with
      | none =>
          rw [ensureCreationImpl_accepted hanswer] at h
          obtain ⟨rfl, rfl⟩ := Prod.mk.inj (Option.some.inj h)
          rfl
      | some reason =>
          rw [ensureCreationImpl_refused hanswer] at h
          exact ih h

/-- The first attempt that is accepted ends the loop. -/
theorem ensureCreationImpl_first {k n : Nat}
    (hrefused : ∀ j < k, server.answer ids document collection (n + j) ≠ none)
    (haccepted : server.answer ids document collection (n + k) = none) :
    ensureCreationImpl server ids document collection (k + 1) n =
      some (ids (n + k), collection ++ [withId (ids (n + k)) document]) := by
  induction k generalizing n with
  | zero => exact ensureCreationImpl_accepted haccepted 0
  | succ k ih =>
      have hsucc : ∀ j, n + 1 + j = n + (j + 1) := by
        intro j
        omega
      obtain ⟨reason, hreason⟩ := Option.ne_none_iff_exists'.mp (hrefused 0 (Nat.succ_pos k))
      rw [Nat.add_zero] at hreason
      rw [ensureCreationImpl_refused hreason, ih, hsucc]
      · intro j hj
        rw [hsucc]
        exact hrefused (j + 1) (Nat.succ_lt_succ hj)
      · rw [hsucc]
        exact haccepted

/-- If every attempt is refused the call never returns. -/
theorem ensureCreationImpl_eq_none (hrefused : ∀ n, server.answer ids document collection n ≠ none)
    (fuel n : Nat) : ensureCreationImpl server ids document collection fuel n = none := by
  induction fuel generalizing n with
  | zero => rfl
  | succ fuel ih =>
      obtain ⟨reason, hreason⟩ := Option.ne_none_iff_exists'.mp (hrefused n)
      rw [ensureCreationImpl_refused hreason]
      exact ih (n + 1)

/-- With a generator that comes to an unused id, some attempt is the first that is not refused for a
duplicate. -/
theorem exists_first_not_duplicate (hunused : ∃ n, server.usesId collection (ids n) = false) :
    ∃ n, server.answer ids document collection n ≠ some .duplicateId ∧
      ∀ j < n, server.answer ids document collection j = some .duplicateId := by
  have hsome : ∃ n, server.answer ids document collection n ≠ some .duplicateId := by
    obtain ⟨n, hn⟩ := hunused
    refine ⟨n, fun hdup => ?_⟩
    exact absurd (hn.symm.trans (server.duplicate hdup)) Bool.false_ne_true
  exact ⟨Nat.find hsome, Nat.find_spec hsome, fun j hj => not_not.mp (Nat.find_min hsome hj)⟩

end Loop

/-! ## What the call is for -/

/-- **The contract of a call** that ends with an id or without one (`none`): it ends; with the id it
returns, the collection has gained one document, the `_id` followed by the given fields; and when an attempt
that is made is refused for another reason than its `_id`, it ends with the collection unchanged. -/
structure EnsuresCreation (call : Nat → Option (Option Int64 × List (Document double)))
    (server : Server double) (ids : Nat → Int64) (document : Document double)
    (collection : List (Document double)) : Prop where
  returns : ∃ fuel outcome, call fuel = some outcome
  gains : ∀ fuel id collection', call fuel = some (some id, collection') →
    collection' = collection ++ [withId id document]
  gives_up : ∀ n, (∀ j < n, server.answer ids document collection j ≠ none) →
    server.answer ids document collection n = some .other →
      ∃ fuel outcome, call fuel = some (outcome, collection)

/-- A call of `ensure_creation_impl`: the loop has no way to end without an id. -/
def creationCall (server : Server double) (ids : Nat → Int64) (document : Document double)
    (collection : List (Document double)) (fuel : Nat) :
    Option (Option Int64 × List (Document double)) :=
  (ensureCreationImpl server ids document collection fuel 0).map fun r => (some r.1, r.2)

/-- The loop with the error looked at: a refusal that no id can cure ends the call. -/
def createOrGiveUp (server : Server double) (ids : Nat → Int64) (document : Document double)
    (collection : List (Document double)) :
    (fuel n : Nat) → Option (Option Int64 × List (Document double))
  | 0, _ => none
  | fuel + 1, n =>
    match server.insertOne collection (withId (ids n) document) with
    | .ok collection' => some (some (ids n), collection')
    | .error .duplicateId => createOrGiveUp server ids document collection fuel (n + 1)
    | .error .other => some (none, collection)

section Contract

variable {server : Server double} {ids : Nat → Int64} {document : Document double}
variable {collection : List (Document double)}

/-- What a call of the loop returns is an id, with the document gained under it. -/
theorem gained_of_creationCall {fuel : Nat} {outcome : Option Int64} {collection' : List (Document double)}
    (h : creationCall server ids document collection fuel = some (outcome, collection')) :
    ∃ id, outcome = some id ∧ collection' = collection ++ [withId id document] := by
  rw [creationCall, Option.map_eq_some_iff] at h
  obtain ⟨⟨id, gained⟩, hreturned, hpair⟩ := h
  obtain ⟨rfl, rfl⟩ := Prod.mk.inj hpair
  exact ⟨id, rfl, gained_of_returned hreturned⟩

/-- The loop never ends with the collection as it was. -/
theorem creationCall_ne_unchanged {fuel : Nat} {outcome : Option Int64} :
    creationCall server ids document collection fuel ≠ some (outcome, collection) := by
  intro h
  obtain ⟨id, -, hgained⟩ := gained_of_creationCall h
  have hlength := congrArg List.length hgained
  rw [List.length_append, List.length_singleton] at hlength
  omega

/-- **When the call does what it is for.** With a generator that comes to an unused id: exactly when the
first attempt that is not refused for a duplicate `_id` is not refused at all. -/
theorem ensures_creation_iff (hunused : ∃ n, server.usesId collection (ids n) = false) :
    EnsuresCreation (creationCall server ids document collection) server ids document collection ↔
      ∀ n, (∀ j < n, server.answer ids document collection j = some .duplicateId) →
        server.answer ids document collection n ≠ some .other := by
  constructor
  · intro h n hbefore hother
    obtain ⟨fuel, outcome, hreturned⟩ := h.gives_up n (fun j hj => by simp [hbefore j hj]) hother
    exact creationCall_ne_unchanged hreturned
  · intro h
    obtain ⟨n, hn, hbefore⟩ := exists_first_not_duplicate hunused
    have haccepted : server.answer ids document collection n = none := by
      cases hanswer : server.answer ids document collection n with
      | none => rfl
      | some reason =>
          cases reason with
          | duplicateId => exact absurd hanswer hn
          | other => exact absurd hanswer (h n hbefore)
    have hrefused : ∀ j < n, server.answer ids document collection (0 + j) ≠ none := by
      intro j hj
      rw [Nat.zero_add, hbefore j hj]
      exact Option.some_ne_none _
    have hreturned := ensureCreationImpl_first hrefused (by rw [Nat.zero_add, haccepted])
    refine ⟨⟨n + 1, _, by rw [creationCall, hreturned, Option.map_some]⟩, ?_, ?_⟩
    · intro fuel id collection' hcall
      obtain ⟨_, hid, hgained⟩ := gained_of_creationCall hcall
      rw [Option.some.inj hid]
      exact hgained
    -- no attempt that is made is refused for another reason
    · intro m hmade hother
      rcases Nat.lt_trichotomy m n with hlt | rfl | hgt
      · rw [hbefore m hlt] at hother
        exact absurd hother (by simp)
      · rw [haccepted] at hother
        exact absurd hother (by simp)
      · exact absurd haccepted (hmade n hgt)

/-! ## The contract can be met -/

theorem createOrGiveUp_duplicate {n : Nat}
    (h : server.answer ids document collection n = some .duplicateId) (fuel : Nat) :
    createOrGiveUp server ids document collection (fuel + 1) n =
      createOrGiveUp server ids document collection fuel (n + 1) := by
  rw [Server.answer] at h
  simp only [createOrGiveUp, Server.insertOne, h]

theorem createOrGiveUp_accepted {n : Nat} (h : server.answer ids document collection n = none)
    (fuel : Nat) :
    createOrGiveUp server ids document collection (fuel + 1) n =
      some (some (ids n), collection ++ [withId (ids n) document]) := by
  rw [Server.answer] at h
  simp only [createOrGiveUp, Server.insertOne, h]

theorem createOrGiveUp_other {n : Nat} (h : server.answer ids document collection n = some .other)
    (fuel : Nat) :
    createOrGiveUp server ids document collection (fuel + 1) n = some (none, collection) := by
  rw [Server.answer] at h
  simp only [createOrGiveUp, Server.insertOne, h]

/-- The attempts refused for their id are passed over. -/
theorem createOrGiveUp_skip {k n : Nat}
    (h : ∀ j < k, server.answer ids document collection (n + j) = some .duplicateId) (fuel : Nat) :
    createOrGiveUp server ids document collection (k + fuel) n =
      createOrGiveUp server ids document collection fuel (n + k) := by
  induction k generalizing n with
  | zero => rw [Nat.zero_add, Nat.add_zero]
  | succ k ih =>
      have hnext : ∀ j < k, server.answer ids document collection (n + 1 + j) = some .duplicateId := by
        intro j hj
        rw [Nat.add_right_comm]
        exact h (j + 1) (Nat.succ_lt_succ hj)
      have hfuel : k + 1 + fuel = k + fuel + 1 := by omega
      have hid : n + 1 + k = n + (k + 1) := by omega
      have hfirst : server.answer ids document collection n = some .duplicateId := h 0 (Nat.succ_pos k)
      rw [hfuel, createOrGiveUp_duplicate hfirst, ih hnext, hid]

/-- With an id it returns, the collection has gained the document under that id. -/
theorem gained_of_createOrGiveUp {fuel n : Nat} {id : Int64} {collection' : List (Document double)}
    (h : createOrGiveUp server ids document collection fuel n = some (some id, collection')) :
    collection' = collection ++ [withId id document] := by
  induction fuel generalizing n with
  | zero => exact absurd h (by simp [createOrGiveUp])
  | succ fuel ih =>
      cases hanswer : server.answer ids document collection n with
      | none =>
          rw [createOrGiveUp_accepted hanswer] at h
          obtain ⟨hid, hgained⟩ := Prod.mk.inj (Option.some.inj h)
          rw [← hgained, Option.some.inj hid]
      | some reason =>
          cases reason with
          | duplicateId =>
              rw [createOrGiveUp_duplicate hanswer] at h
              exact ih h
          | other =>
              rw [createOrGiveUp_other hanswer] at h
              exact absurd h (by simp)

/-- The loop that looks at the error meets the contract whatever the server refuses. -/
theorem createOrGiveUp_ensures (hunused : ∃ n, server.usesId collection (ids n) = false) :
    EnsuresCreation (createOrGiveUp server ids document collection · 0) server ids document collection := by
  obtain ⟨n, hn, hbefore⟩ := exists_first_not_duplicate hunused
  have hskip : createOrGiveUp server ids document collection (n + 1) 0 =
      createOrGiveUp server ids document collection 1 n := by
    rw [createOrGiveUp_skip (fun j hj => by rw [Nat.zero_add, hbefore j hj]), Nat.zero_add]
  cases hanswer : server.answer ids document collection n with
  | none =>
      refine ⟨⟨n + 1, _, hskip.trans (createOrGiveUp_accepted hanswer 0)⟩,
        fun _ _ _ => gained_of_createOrGiveUp, ?_⟩
      intro m hmade hother
      rcases Nat.lt_trichotomy m n with hlt | rfl | hgt
      · rw [hbefore m hlt] at hother
        exact absurd hother (by simp)
      · rw [hanswer] at hother
        exact absurd hother (by simp)
      · exact absurd hanswer (hmade n hgt)
  | some reason =>
      cases reason with
      | duplicateId => exact absurd hanswer hn
      | other =>
          have hended := hskip.trans (createOrGiveUp_other hanswer 0)
          exact ⟨⟨n + 1, _, hended⟩, fun _ _ _ => gained_of_createOrGiveUp,
            fun _ _ _ => ⟨n + 1, none, hended⟩⟩

end Contract

/-! ## A server with a unique index -/

/-- The value of the first `int64` element with this key. -/
def BsonReflection.Document.int64At (key : Bytes) : Document double → Option Int64
  | .empty => none
  | .cons key' (.scalar (.int64 v)) rest => if key' = key then some v else rest.int64At key
  | .cons _ _ rest => rest.int64At key

/-- A server with a unique index on `"name"`, beside the one on `"_id"`. -/
def uniqueName : Server Unit where
  usesId collection id := collection.any fun d => d.int64At idKey == some id
  refuses collection document :=
    if collection.any fun d => d.int64At idKey == document.int64At idKey then some .duplicateId
    else if collection.any fun d => d.int64At [110] == document.int64At [110] then some .other
    else none
  duplicate := by
    intro collection id document h
    split_ifs at h with hid
    · exact hid
    · exact absurd h (by simp)

/-- The document `{n: v}`. -/
def named (v : Int64) : Document Unit := .cons [110] (.scalar (.int64 v)) .empty

/-- A document whose name is taken: every attempt is refused, whatever its id, and the call never
returns. -/
theorem unique_index_never_returns :
    (∀ fuel, ensureCreationImpl uniqueName (fun n => Int64.ofNat n) (named 5) [withId 1 (named 5)]
      fuel 0 = none) ∧
    ¬ ∀ (server : Server Unit) (ids : Nat → Int64) (document : Document Unit)
        (collection : List (Document Unit)),
      (∃ n, server.usesId collection (ids n) = false) →
        EnsuresCreation (creationCall server ids document collection) server ids document collection := by
  have hrefused : ∀ n, uniqueName.answer (fun n => Int64.ofNat n) (named 5) [withId 1 (named 5)] n ≠
      none := by
    intro n
    have hname : ∀ id, (withId id (named 5)).int64At [110] = some 5 := fun _ => rfl
    simp only [Server.answer, uniqueName, List.any_cons, List.any_nil, hname, BEq.rfl, Bool.true_or,
      if_true]
    split_ifs <;> simp
  have hnone := fun fuel => ensureCreationImpl_eq_none hrefused fuel 0
  refine ⟨hnone, fun h => ?_⟩
  obtain ⟨fuel, outcome, hreturned⟩ :=
    (h uniqueName (fun n => Int64.ofNat n) (named 5) [withId 1 (named 5)] ⟨0, by decide⟩).returns
  rw [creationCall, hnone fuel] at hreturned
  exact absurd hreturned (by simp)

/-- The first id is taken, the second one is free and the name is new. -/
theorem ensures_creation_iff_second_id :
    EnsuresCreation (creationCall uniqueName (fun n => Int64.ofNat n) (named 6) [withId 0 (named 5)])
        uniqueName (fun n => Int64.ofNat n) (named 6) [withId 0 (named 5)] ↔
      ∀ n, (∀ j < n, uniqueName.answer (fun n => Int64.ofNat n) (named 6) [withId 0 (named 5)] j =
          some .duplicateId) →
        uniqueName.answer (fun n => Int64.ofNat n) (named 6) [withId 0 (named 5)] n ≠ some .other :=
  ensures_creation_iff ⟨1, by decide⟩

end Sekkeizu
