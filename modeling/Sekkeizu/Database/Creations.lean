/-
# Sekkeizu.Database.Creations — many calls of `ensure_creation` at once.

Every call is a task of the database pool, so any number of them are between two attempts at any time. They
share the generator of ids (an atomic counter, and a stream cipher behind a mutex) and, when they name the same
collection, its content. The unit of interleaving is what is atomic there: the increment of the counter, the
encryption under the lock, and one insert at the server.

The loop needs no lock of its own. A run is the same as one in which the calls that have returned were made
one after another, in the order of their successful inserts, and no call that had returned before another
one was made comes after it (`creations_linearizable`). The pool that drops calls without a connection is not
part of this module.
-/
import Sekkeizu.Database.Creation
import Sekkeizu.Semantics.Runs
import Sekkeizu.Semantics.Serial


namespace Sekkeizu

open BsonReflection (Document)
open PartialSystem

variable {double : Type}

/-- Where a call is in its loop. -/
inductive CreationStage where
  /-- Before `_counter++`. -/
  | counting
  /-- Before `_mutex.lock()`, with what is to be encrypted. -/
  | encrypting (counter : UInt64)
  /-- Before `mongoc_collection_insert_one`. -/
  | inserting (id : Int64)
  | returned (id : Int64)
  deriving DecidableEq, Repr

/-- One call: where its document goes, and how far it has come. -/
structure CreationCall (double : Type) where
  collection : String
  document : Document double
  stage : CreationStage

/-- The generator, the collections, and the calls made so far. -/
structure Creations (double : Type) where
  counter : UInt64
  /-- How many blocks of the key stream have been used. -/
  position : Nat
  contents : String → List (Document double)
  calls : List (CreationCall double)

inductive CreationAction (double : Type) where
  | call (collection : String) (document : Document double)
  /-- `_counter++`, and the clock in seconds. -/
  | count (call : Nat) (now : UInt64)
  | encrypt (call : Nat)
  | insert (call : Nat)

/-- A call that has put its document into a collection. -/
structure Made (double : Type) where
  call : Nat
  collection : String
  document : Document double
  id : Int64

inductive CreationEvent (double : Type) where
  | called (call : Nat)
  /-- The generator gave the call this id, with this block of the key stream. -/
  | drew (call block : Nat) (id : Int64)
  | refused (call : Nat) (id : Int64)
  | created (made : Made double)

/-- One step. A call takes the step its stage is before. -/
def Creations.step (server : Server double) (keystream : Nat → UInt64) :
    Step (Creations double) (CreationAction double) (CreationEvent double) :=
  fun s a =>
    match a with
    | .call collection document =>
      some ({ s with calls := s.calls ++ [⟨collection, document, .counting⟩] },
        [.called s.calls.length])
    | .count i now =>
      match s.calls[i]? with
      | some ⟨collection, document, .counting⟩ =>
        some ({ s with
          counter := s.counter + 1
          calls := s.calls.set i ⟨collection, document, .encrypting (s.counter + now)⟩ }, [])
      | _ => none
    | .encrypt i =>
      match s.calls[i]? with
      | some ⟨collection, document, .encrypting counter⟩ =>
        -- a stream cipher: the next eight bytes of the key stream, by exclusive or
        let id := (counter ^^^ keystream s.position).toInt64
        some ({ s with
          position := s.position + 1
          calls := s.calls.set i ⟨collection, document, .inserting id⟩ }, [.drew i s.position id])
      | _ => none
    | .insert i =>
      match s.calls[i]? with
      | some ⟨collection, document, .inserting id⟩ =>
        match server.insertOne (s.contents collection) (withId id document) with
        | .ok content =>
          some ({ s with
            contents := Function.update s.contents collection content
            calls := s.calls.set i ⟨collection, document, .returned id⟩ },
            [.created ⟨i, collection, document, id⟩])
        | .error _ =>
          some ({ s with calls := s.calls.set i ⟨collection, document, .counting⟩ }, [.refused i id])
      | _ => none

/-- The generator after `database::init`, with the collections as they are then. -/
def Creations.start (counter : UInt64) (initial : String → List (Document double)) :
    Config (Creations double) (CreationEvent double) where
  state := ⟨counter, 0, initial, []⟩
  history := []

/-! ## The history -/

/-- The successful calls, in the order of their inserts. -/
def made : List (CreationEvent double) → List (Made double)
  | [] => []
  | .created m :: history => m :: made history
  | _ :: history => made history

/-- The blocks of the key stream, in the order they were used. -/
def blocks : List (CreationEvent double) → List Nat
  | [] => []
  | .drew _ block _ :: history => block :: blocks history
  | _ :: history => blocks history

/-- One call had returned before the other was made. -/
def Precedes (history : List (CreationEvent double)) (p m : Made double) : Prop :=
  ∃ before after, history = before ++ after ∧ .created p ∈ before ∧ .called m.call ∉ before

/-- The call by itself, with a generator that comes to its id. -/
def Made.effect (server : Server double) (m : Made double) (contents : String → List (Document double)) :
    String → List (Document double) :=
  match ensureCreationImpl server (fun _ => m.id) m.document (contents m.collection) 1 0 with
  | none => contents
  | some (_, content) => Function.update contents m.collection content

@[simp] theorem made_append (h₁ h₂ : List (CreationEvent double)) :
    made (h₁ ++ h₂) = made h₁ ++ made h₂ := by
  induction h₁ with
  | nil => rfl
  | cons ev h₁ ih =>
      cases ev with
      | created m => exact congrArg (m :: ·) ih
      | _ => exact ih

@[simp] theorem blocks_append (h₁ h₂ : List (CreationEvent double)) :
    blocks (h₁ ++ h₂) = blocks h₁ ++ blocks h₂ := by
  induction h₁ with
  | nil => rfl
  | cons ev h₁ ih =>
      cases ev with
      | drew call block id => exact congrArg (block :: ·) ih
      | _ => exact ih

theorem mem_made {history : List (CreationEvent double)} {m : Made double} :
    m ∈ made history ↔ .created m ∈ history := by
  induction history with
  | nil => simp [made]
  | cons ev history ih => cases ev <;> simp [made, ih]

/-- Who had returned before a call was made is settled when it is made. -/
theorem precedes_append {history evs : List (CreationEvent double)} {p m : Made double}
    (hcalled : .called m.call ∈ history) :
    Precedes (history ++ evs) p m → Precedes history p m := by
  rintro ⟨before, after, heq, hp, hm⟩
  rcases List.append_eq_append_iff.mp heq with ⟨rest, rfl, -⟩ | ⟨rest, rfl, -⟩
  · exact absurd (List.mem_append_left rest hcalled) hm
  · exact ⟨before, rest, rfl, hp, hm⟩

/-! ## One step -/

/-- The call has returned. -/
def CreationStage.isReturned : CreationStage → Bool
  | .returned _ => true
  | _ => false

/-- **What a step is**: a new call, an attempt that puts its document into the collection, or a move of one
call that touches no collection. -/
inductive CreationMove (server : Server double) (s : Creations double) :
    Creations double → List (CreationEvent double) → Prop
  | call (collection : String) (document : Document double) :
      CreationMove server s { s with calls := s.calls ++ [⟨collection, document, .counting⟩] }
        [.called s.calls.length]
  | create (m : Made double) (content : List (Document double))
      (hcall : s.calls[m.call]? = some ⟨m.collection, m.document, .inserting m.id⟩)
      (hinsert : server.insertOne (s.contents m.collection) (withId m.id m.document) = .ok content) :
      CreationMove server s
        { s with
          contents := Function.update s.contents m.collection content
          calls := s.calls.set m.call ⟨m.collection, m.document, .returned m.id⟩ }
        [.created m]
  | move (i : Nat) (c : CreationCall double) (stage : CreationStage) (s' : Creations double)
      (evs : List (CreationEvent double)) (hcall : s.calls[i]? = some c)
      (hbefore : c.stage.isReturned = false) (hafter : stage.isReturned = false)
      (hcalls : s'.calls = s.calls.set i { c with stage := stage })
      (hcontents : s'.contents = s.contents) (hmade : made evs = [])
      (hcalled : ∀ j, .called j ∉ evs)
      (hblocks : List.range s'.position = List.range s.position ++ blocks evs) :
      CreationMove server s s' evs

/-- **The inversion of `Creations.step`.** -/
theorem move_of_step {server : Server double} {keystream : Nat → UInt64} {s s' : Creations double}
    {a : CreationAction double} {evs : List (CreationEvent double)}
    (h : Creations.step server keystream s a = some (s', evs)) : CreationMove server s s' evs := by
  cases a with
  | call collection document =>
      obtain ⟨rfl, rfl⟩ := Prod.mk.inj (Option.some.inj h)
      exact .call collection document
  | count i now =>
      simp only [Creations.step] at h
      split at h
      · obtain ⟨rfl, rfl⟩ := Prod.mk.inj (Option.some.inj h)
        exact .move i _ _ _ _ ‹_› rfl rfl rfl rfl rfl (by simp) (by simp [blocks])
      · exact absurd h (by simp)
  | encrypt i =>
      simp only [Creations.step] at h
      split at h
      · obtain ⟨rfl, rfl⟩ := Prod.mk.inj (Option.some.inj h)
        exact .move i _ _ _ _ ‹_› rfl rfl rfl rfl rfl (by simp) (by simp [blocks, List.range_succ])
      · exact absurd h (by simp)
  | insert i =>
      simp only [Creations.step] at h
      split at h
      · rename_i collection document id hcall
        split at h
        · obtain ⟨rfl, rfl⟩ := Prod.mk.inj (Option.some.inj h)
          exact .create ⟨i, collection, document, id⟩ _ hcall ‹_›
        · obtain ⟨rfl, rfl⟩ := Prod.mk.inj (Option.some.inj h)
          exact .move i _ _ _ _ hcall rfl rfl rfl rfl rfl (by simp) (by simp [blocks])
      · exact absurd h (by simp)

/-! ## The account -/

/-- Called one after another, each of these calls is accepted at its first attempt, and returns its id. -/
def EachAccepted (server : Server double) (initial : String → List (Document double))
    (log : List (Made double)) : Prop :=
  ∀ earlier m later, log = earlier ++ m :: later →
    ensureCreationImpl server (fun _ => m.id) m.document
        (replay (Made.effect server) initial earlier m.collection) 1 0 =
      some (m.id, replay (Made.effect server) initial (earlier ++ [m]) m.collection)

/-- **The books of the calls**: who has been called and who has returned, a serial account of the collections
in which every successful call is accepted when its turn comes, and the key stream used block by block. -/
structure CreationBooks (server : Server double) (initial : String → List (Document double))
    (x : Config (Creations double) (CreationEvent double)) : Prop where
  called : ∀ i, .called i ∈ x.history ↔ i < x.state.calls.length
  returned : ∀ i collection document id,
    x.state.calls[i]? = some ⟨collection, document, .returned id⟩ ↔
      ⟨i, collection, document, id⟩ ∈ made x.history
  serial : Serial (Made.effect server) (Precedes x.history) (· ∈ made x.history) initial
    (made x.history) x.state.contents
  accepted : EachAccepted server initial (made x.history)
  blocks : blocks x.history = List.range x.state.position

namespace CreationBooks

variable {server : Server double} {initial : String → List (Document double)}
variable {x : Config (Creations double) (CreationEvent double)}

/-- A successful call has been made. -/
theorem called_of_made (h : CreationBooks server initial x) {m : Made double}
    (hm : m ∈ made x.history) : .called m.call ∈ x.history := by
  have hreturned := (h.returned m.call m.collection m.document m.id).mpr hm
  exact (h.called m.call).mpr (List.getElem?_eq_some_iff.mp hreturned).1

/-- Steps that put nothing into a collection keep the account. -/
theorem serial_quiet (h : CreationBooks server initial x) {evs : List (CreationEvent double)}
    (hmade : made evs = []) :
    Serial (Made.effect server) (Precedes (x.history ++ evs)) (· ∈ made (x.history ++ evs)) initial
      (made (x.history ++ evs)) x.state.contents := by
  have hsame : made (x.history ++ evs) = made x.history ++ [] := by rw [made_append, hmade]
  rw [hsame]
  refine h.serial.extend List.nodup_nil (fun _ ho => absurd ho List.not_mem_nil) ?_ (fun _ _ => rfl)
    (fun o ho p => precedes_append (h.called_of_made ho)) ?_
  · intro o
    simp
  · intro earlier o later heq
    simp at heq

/-- An accepted attempt is a call of its own at that moment. -/
theorem effect_of_accepted {m : Made double} {contents : String → List (Document double)}
    {content : List (Document double)}
    (hinsert : server.insertOne (contents m.collection) (withId m.id m.document) = .ok content) :
    ensureCreationImpl server (fun _ => m.id) m.document (contents m.collection) 1 0 =
        some (m.id, content) ∧
      m.effect server contents = Function.update contents m.collection content := by
  have hcall : ensureCreationImpl server (fun _ => m.id) m.document (contents m.collection) 1 0 =
      some (m.id, content) := by
    simp only [ensureCreationImpl, hinsert]
  exact ⟨hcall, by simp only [Made.effect, hcall]⟩

/-- A new call, and a move of one that has not returned, leave the returned ones alone. -/
theorem returned_set {calls : List (CreationCall double)} {i : Nat} {c : CreationCall double}
    (hcall : calls[i]? = some c) {stage : CreationStage} (hbefore : c.stage.isReturned = false)
    (hafter : stage.isReturned = false) (j : Nat) (collection : String) (document : Document double)
    (id : Int64) :
    (calls.set i { c with stage := stage })[j]? = some ⟨collection, document, .returned id⟩ ↔
      calls[j]? = some ⟨collection, document, .returned id⟩ := by
  obtain ⟨hlt, -⟩ := List.getElem?_eq_some_iff.mp hcall
  rw [List.getElem?_set]
  split_ifs with hij
  · subst hij
    rw [hcall]
    constructor
    · intro heq
      have hstage := congrArg CreationCall.stage (Option.some.inj heq)
      rw [show stage = .returned id from hstage] at hafter
      exact absurd hafter (by simp [CreationStage.isReturned])
    · intro heq
      rw [Option.some.inj heq] at hbefore
      exact absurd hbefore (by simp [CreationStage.isReturned])
  · rfl

theorem returned_snoc {calls : List (CreationCall double)} (j : Nat)
    (collection collection' : String) (document document' : Document double) (id : Int64) :
    (calls ++ [⟨collection', document', .counting⟩])[j]? = some ⟨collection, document, .returned id⟩ ↔
      calls[j]? = some ⟨collection, document, .returned id⟩ := by
  rcases Nat.lt_trichotomy j calls.length with hlt | rfl | hgt
  · rw [List.getElem?_append_left hlt]
  · simp
  · rw [List.getElem?_eq_none (by simp; omega), List.getElem?_eq_none (by omega)]

/-- **Every step keeps the books.** -/
theorem step (h : CreationBooks server initial x) {keystream : Nat → UInt64}
    {a : CreationAction double} {y : Config (Creations double) (CreationEvent double)}
    (hnext : (Creations.step server keystream).next x a = some y) :
    CreationBooks server initial y := by
  obtain ⟨s', evs, hstep, rfl⟩ := Step.next_eq_some.mp hnext
  cases move_of_step hstep with
  | call collection document =>
      refine ⟨fun i => ?_, fun i c d id => ?_, h.serial_quiet rfl, ?_, ?_⟩
      · simp only [List.mem_append, h.called, List.mem_singleton, CreationEvent.called.injEq,
          List.length_append, List.length_singleton]
        omega
      · rw [returned_snoc, h.returned, made_append]
        simp [made]
      · simpa [made] using h.accepted
      · simpa [Sekkeizu.blocks] using h.blocks
  | move i c stage s' evs hcall hbefore hafter hcalls hcontents hmade hcalled hblocks =>
      refine ⟨fun j => ?_, fun j collection d id => ?_, ?_, ?_, ?_⟩
      · simp only [List.mem_append, h.called, hcalls, List.length_set, hcalled, or_false]
      · rw [hcalls, returned_set hcall hbefore hafter, h.returned, made_append, hmade, List.append_nil]
      · dsimp only
        rw [hcontents]
        exact h.serial_quiet hmade
      · simpa only [made_append, hmade, List.append_nil] using h.accepted
      · rw [blocks_append, h.blocks, hblocks]
  | create m content hcall hinsert =>
      obtain ⟨haccepted, heffect⟩ := effect_of_accepted hinsert
      have hlt : m.call < x.state.calls.length := (List.getElem?_eq_some_iff.mp hcall).1
      have hnew : m ∉ made x.history := by
        intro hm
        have hreturned := (h.returned m.call m.collection m.document m.id).mpr hm
        rw [hcall] at hreturned
        simp at hreturned
      have hmade : made (x.history ++ [.created m]) = made x.history ++ [m] := made_append _ _
      refine ⟨fun i => ?_, fun i collection d id => ?_, ?_, ?_, ?_⟩
      · simp [h.called]
      · rw [hmade, List.mem_append, ← h.returned, List.getElem?_set]
        split_ifs with hij
        · subst hij
          rw [hcall]
          cases m
          simp [eq_comm]
        · have hne : (⟨i, collection, d, id⟩ : Made double) ≠ m := by
            rintro rfl
            exact hij rfl
          simp [hne]
      · dsimp only
        rw [hmade, ← heffect]
        have hcalled : .called m.call ∈ x.history := (h.called m.call).mpr hlt
        refine h.serial.extend (List.nodup_singleton m) ?_ ?_ (fun _ _ => rfl)
          (fun o ho p => precedes_append (h.called_of_made ho)) ?_
        · intro o ho
          exact List.mem_singleton.mp ho ▸ hnew
        · exact fun o => List.mem_append
        · intro earlier o later heq p hp
          obtain ⟨rfl, rfl, rfl⟩ : earlier = [] ∧ o = m ∧ later = [] := by
            cases earlier with
            | nil => simpa [eq_comm] using heq
            | cons _ _ => simp at heq
          obtain ⟨before, after, hhistory, hcreated, -⟩ := precedes_append hcalled hp
          refine Or.inl (mem_made.mpr ?_)
          rw [hhistory]
          exact List.mem_append_left _ hcreated
      · intro earlier o later heq
        rw [hmade] at heq
        rcases List.eq_nil_or_concat later with rfl | ⟨later', last, rfl⟩
        · -- the new one: it is accepted by the collection as it is now
          obtain ⟨rfl, rfl⟩ : earlier = made x.history ∧ o = m := by
            have hparts := List.append_inj' heq rfl
            exact ⟨hparts.1.symm, (List.singleton_inj.mp hparts.2).symm⟩
          rw [replay_append, ← h.serial.state_eq, haccepted]
          simp [heffect]
        · have hsplit : made x.history = earlier ++ o :: later' := by
            rw [List.concat_eq_append, ← List.cons_append, ← List.append_assoc] at heq
            exact (List.append_inj' heq rfl).1
          exact h.accepted earlier o later' hsplit
      · simpa [Sekkeizu.blocks] using h.blocks

end CreationBooks

theorem creationBooks_start (server : Server double) (counter : UInt64)
    (initial : String → List (Document double)) :
    CreationBooks server initial (Creations.start counter initial) where
  called := by
    intro i
    simp [Creations.start]
  returned := by
    intro i collection document id
    simp [Creations.start, made]
  serial := Serial.empty fun m hm => absurd hm List.not_mem_nil
  accepted := by
    intro earlier m later heq
    simp [Creations.start, made] at heq
  blocks := rfl

/-! ## What the calls leave behind -/

namespace EachAccepted

variable {server : Server double} {initial : String → List (Document double)}
variable {log : List (Made double)} {m : Made double}

theorem init (h : EachAccepted server initial (log ++ [m])) : EachAccepted server initial log := by
  intro earlier o later heq
  exact h earlier o (later ++ [m]) (by simp [heq])

/-- The last of the calls adds one document, with its id in front, and nothing else. -/
theorem last (h : EachAccepted server initial (log ++ [m])) :
    server.refuses (replay (Made.effect server) initial log m.collection) (withId m.id m.document) =
        none ∧
      replay (Made.effect server) initial (log ++ [m]) =
        Function.update (replay (Made.effect server) initial log) m.collection
          (replay (Made.effect server) initial log m.collection ++ [withId m.id m.document]) := by
  have hcall := h log m [] rfl
  have hgained := gained_of_returned hcall
  constructor
  · by_contra hrefuses
    obtain ⟨reason, hreason⟩ := Option.ne_none_iff_exists'.mp hrefuses
    have hanswer : server.answer (fun _ => m.id) m.document
        (replay (Made.effect server) initial log m.collection) 0 = some reason := hreason
    rw [ensureCreationImpl_refused hanswer] at hcall
    exact absurd hcall (by simp [ensureCreationImpl])
  · rw [← hgained, replay_append]
    rw [replay_append] at hcall
    simp only [replay_cons, replay_nil] at hcall ⊢
    conv_lhs => rw [Made.effect, hcall]

/-- **The collections**: what was there, and one document for each call, in the order of the inserts. -/
theorem contents_eq (h : EachAccepted server initial log) (name : String) :
    replay (Made.effect server) initial log name =
      initial name ++ (log.filter (·.collection = name)).map fun m => withId m.id m.document := by
  induction log using List.reverseRecOn with
  | nil => simp
  | append_singleton log m ih =>
      rw [h.last.2, List.filter_append, List.map_append, ← List.append_assoc, ← ih h.init]
      by_cases hname : m.collection = name
      · subst hname
        simp
      · rw [Function.update_of_ne (Ne.symm hname)]
        simp [hname]

end EachAccepted

/-- What a server with an index on `_id` promises. -/
structure Server.UniqueIds (server : Server double) : Prop where
  refuses_used : ∀ {collection id document}, server.usesId collection id = true →
    server.refuses collection (withId id document) ≠ none
  uses_own : ∀ {collection id document},
    server.usesId (collection ++ [withId id document]) id = true
  uses_old : ∀ {collection id document}, server.usesId collection id = true →
    server.usesId (collection ++ [document]) id = true

namespace EachAccepted

variable {server : Server double} {initial : String → List (Document double)}
variable {log : List (Made double)}

/-- Ids in use stay in use. -/
theorem uses_old (hserver : server.UniqueIds) (h : EachAccepted server initial log) {name : String}
    {id : Int64} (huses : server.usesId (initial name) id = true) :
    server.usesId (replay (Made.effect server) initial log name) id = true := by
  induction log using List.reverseRecOn with
  | nil => exact huses
  | append_singleton log m ih =>
      rw [h.last.2]
      by_cases hname : name = m.collection
      · subst hname
        rw [Function.update_self]
        exact hserver.uses_old (ih h.init)
      · rw [Function.update_of_ne hname]
        exact ih h.init

/-- The id of a call is in use after it. -/
theorem uses_own (hserver : server.UniqueIds) (h : EachAccepted server initial log) {m : Made double}
    (hm : m ∈ log) :
    server.usesId (replay (Made.effect server) initial log m.collection) m.id = true := by
  induction log using List.reverseRecOn with
  | nil => exact absurd hm List.not_mem_nil
  | append_singleton log o ih =>
      rw [h.last.2]
      by_cases hname : m.collection = o.collection
      · rw [hname, Function.update_self]
        rcases List.mem_append.mp hm with hold | hlast
        · exact hserver.uses_old (hname ▸ ih h.init hold)
        · obtain rfl := List.mem_singleton.mp hlast
          exact hserver.uses_own
      · rw [Function.update_of_ne hname]
        rcases List.mem_append.mp hm with hold | hlast
        · exact ih h.init hold
        · exact absurd (congrArg Made.collection (List.mem_singleton.mp hlast)) hname

/-- **The ids are unique**: no two calls on a collection return the same one, and none returns one that was
in use before. -/
theorem ids (hserver : server.UniqueIds) (h : EachAccepted server initial log) :
    (log.Pairwise fun p m => p.collection = m.collection → p.id ≠ m.id) ∧
      ∀ m ∈ log, server.usesId (initial m.collection) m.id = false := by
  induction log using List.reverseRecOn with
  | nil => exact ⟨List.Pairwise.nil, fun m hm => absurd hm List.not_mem_nil⟩
  | append_singleton log o ih =>
      obtain ⟨hpairwise, hunused⟩ := ih h.init
      have hfree : server.usesId (replay (Made.effect server) initial log o.collection) o.id ≠ true :=
        fun hused => hserver.refuses_used hused h.last.1
      refine ⟨List.pairwise_append.mpr ⟨hpairwise, List.pairwise_singleton _ o, ?_⟩, ?_⟩
      · intro p hp m hm hname hid
        obtain rfl := List.mem_singleton.mp hm
        exact hfree (hname ▸ hid ▸ h.init.uses_own hserver hp)
      · intro m hm
        rcases List.mem_append.mp hm with hold | hlast
        · exact hunused m hold
        · obtain rfl := List.mem_singleton.mp hlast
          by_contra hused
          exact hfree (h.init.uses_old hserver (by simpa using hused))

end EachAccepted

/-- **Creations are linearizable.** In every run of any number of calls, the collections are what the calls
that have returned lead to one after another, in the order of their inserts; each of them, made alone at its
turn, returns the id it has returned; who had returned before a call was made comes before it. No two calls
on a collection return the same id, or one that was in use at the start, and the generator uses no block of
its key stream twice. -/
theorem creations_linearizable {server : Server double} (hserver : server.UniqueIds)
    {keystream : Nat → UInt64} {counter : UInt64} {initial : String → List (Document double)}
    {visited : List (Config (Creations double) (CreationEvent double) × CreationAction double)}
    {x : Config (Creations double) (CreationEvent double)}
    (hrun : Run (Creations.step server keystream) (Creations.start counter initial) visited x) :
    Serial (Made.effect server) (Precedes x.history) (· ∈ made x.history) initial (made x.history)
        x.state.contents ∧
      EachAccepted server initial (made x.history) ∧
      (∀ i collection document id,
        x.state.calls[i]? = some ⟨collection, document, .returned id⟩ ↔
          ⟨i, collection, document, id⟩ ∈ made x.history) ∧
      (∀ name, x.state.contents name = initial name ++
        ((made x.history).filter (·.collection = name)).map fun m => withId m.id m.document) ∧
      ((made x.history).Pairwise fun p m => p.collection = m.collection → p.id ≠ m.id) ∧
      (∀ m ∈ made x.history, server.usesId (initial m.collection) m.id = false) ∧
      blocks x.history = List.range x.state.position := by
  have h : CreationBooks server initial x :=
    hrun.invariant' (CreationBooks server initial) (fun hy hnext => hy.step hnext)
      (creationBooks_start server counter initial)
  obtain ⟨hpairwise, hunused⟩ := h.accepted.ids hserver
  refine ⟨h.serial, h.accepted, h.returned, fun name => ?_, hpairwise, hunused, h.blocks⟩
  rw [h.serial.state_eq]
  exact h.accepted.contents_eq name

theorem uniqueName_uniqueIds : uniqueName.UniqueIds where
  refuses_used := by
    intro collection id document huses hnone
    have hid : (withId id document).int64At idKey = some id := rfl
    simp only [uniqueName, hid] at huses hnone
    rw [if_pos huses] at hnone
    exact absurd hnone (by simp)
  uses_own := by
    intro collection id document
    have hid : (withId id document).int64At idKey = some id := rfl
    simp [uniqueName, hid]
  uses_old := by
    intro collection id document huses
    simp only [uniqueName, List.any_append, Bool.or_eq_true] at huses ⊢
    exact Or.inl huses

/-- Two calls at once that draw the same id, from a key stream of zeros and a clock that goes back: the second
is refused and draws another one. -/
theorem creations_linearizable_same_id :
    ∃ (visited : List (Config (Creations Unit) (CreationEvent Unit) × CreationAction Unit))
      (x : Config (Creations Unit) (CreationEvent Unit)),
      Run (Creations.step uniqueName fun _ => 0) (Creations.start 0 fun _ => []) visited x ∧
      (made x.history).map (fun m => (m.call, m.id)) = [(0, 5), (1, 9)] ∧
      x.state.contents "a" = [] ++
        ((made x.history).filter (·.collection = "a")).map (fun m => withId m.id m.document) ∧
      blocks x.history = List.range x.state.position := by
  obtain ⟨x, hx⟩ := Option.isSome_iff_exists.mp (show (exec (Creations.step uniqueName fun _ => 0)
    (Creations.start 0 fun _ => [])
    [.call "a" (named 5), .call "a" (named 6), .count 0 5, .count 1 4, .encrypt 1, .encrypt 0,
      .insert 0, .insert 1, .count 1 7, .encrypt 1, .insert 1]).isSome = true by decide)
  have hmade : (some x).map (fun x => (made x.history).map fun m => (m.call, m.id)) =
      some [(0, 5), (1, 9)] := by
    rw [← hx]
    decide
  obtain ⟨-, -, -, hcontents, -, -, hblocks⟩ :=
    creations_linearizable uniqueName_uniqueIds (run_trace hx)
  exact ⟨_, x, run_trace hx, Option.some.inj hmade, hcontents "a", hblocks⟩

/-! ## One call alone -/

/-- The ids the generator gives from here on, when nobody else uses it. -/
def Creations.ids (keystream : Nat → UInt64) (now : Nat → UInt64) (s : Creations double) (n : Nat) : Int64 :=
  ((s.counter + UInt64.ofNat n + now n) ^^^ keystream (s.position + n)).toInt64

/-- The steps of one attempt. -/
def attempt (i : Nat) (now : UInt64) : List (CreationAction double) :=
  [.count i now, .encrypt i, .insert i]

section Alone

variable {server : Server double} {keystream : Nat → UInt64} {s : Creations double}
variable {h : List (CreationEvent double)} {i : Nat} {collection : String}
variable {document : Document double}

/-- **One attempt**: the call has returned with the document in the collection, or is where it was, with one
number and one block of the key stream used. -/
theorem exec_attempt (server : Server double) (keystream : Nat → UInt64)
    (history : List (CreationEvent double))
    (hcall : s.calls[i]? = some ⟨collection, document, .counting⟩) (now : UInt64) :
    ∃ history', ∀ rest, exec (Creations.step server keystream) ⟨s, history⟩ (attempt i now ++ rest) =
      match server.insertOne (s.contents collection)
          (withId ((s.counter + now) ^^^ keystream s.position).toInt64 document) with
      | .ok content => exec (Creations.step server keystream) ⟨⟨s.counter + 1, s.position + 1,
          Function.update s.contents collection content, s.calls.set i ⟨collection, document,
            .returned ((s.counter + now) ^^^ keystream s.position).toInt64⟩⟩, history'⟩ rest
      | .error _ => exec (Creations.step server keystream)
          ⟨⟨s.counter + 1, s.position + 1, s.contents, s.calls.set i ⟨collection, document, .counting⟩⟩,
            history'⟩ rest := by
  obtain ⟨hlt, -⟩ := List.getElem?_eq_some_iff.mp hcall
  cases hinsert : server.insertOne (s.contents collection)
      (withId ((s.counter + now) ^^^ keystream s.position).toInt64 document) with
  | ok content =>
      simp only [attempt, List.cons_append, List.nil_append, exec, Step.next, Creations.step, hcall,
        Option.map_some, List.getElem?_set_self hlt, List.set_set, hinsert]
      exact ⟨_, fun _ => rfl⟩
  | error reason =>
      simp only [attempt, List.cons_append, List.nil_append, exec, Step.next, Creations.step, hcall,
        Option.map_some, List.getElem?_set_self hlt, List.set_set, hinsert]
      exact ⟨_, fun _ => rfl⟩

/-- The loop from attempt `n` on. -/
theorem returns_from {s₀ : Creations double} {now : Nat → UInt64} {fuel n : Nat}
    (hcounter : s.counter = s₀.counter + UInt64.ofNat n) (hposition : s.position = s₀.position + n)
    (hcall : s.calls[i]? = some ⟨collection, document, .counting⟩) {id : Int64}
    {content : List (Document double)}
    (hreturns : ensureCreationImpl server (s₀.ids keystream now) document (s.contents collection) fuel n =
      some (id, content)) :
    ∃ attempts y, exec (Creations.step server keystream) ⟨s, h⟩
        ((List.range' n attempts).flatMap fun k => attempt i (now k)) = some y ∧
      y.state.contents = Function.update s.contents collection content ∧
      y.state.calls[i]? = some ⟨collection, document, .returned id⟩ := by
  induction fuel generalizing s h n with
  | zero => exact absurd hreturns (by simp [ensureCreationImpl])
  | succ fuel ih =>
      obtain ⟨hlt, -⟩ := List.getElem?_eq_some_iff.mp hcall
      have hid : ((s.counter + now n) ^^^ keystream s.position).toInt64 = s₀.ids keystream now n := by
        rw [Creations.ids, hcounter, hposition]
      rw [ensureCreationImpl] at hreturns
      cases hinsert : server.insertOne (s.contents collection)
          (withId (s₀.ids keystream now n) document) with
      | ok content' =>
          simp only [hinsert, Option.some.injEq, Prod.mk.injEq] at hreturns
          obtain ⟨rfl, rfl⟩ := hreturns
          obtain ⟨history', hexec⟩ := exec_attempt server keystream h hcall (now n)
          rw [hid, hinsert] at hexec
          have hlast := hexec []
          rw [List.append_nil, exec] at hlast
          refine ⟨1, _, (congrArg _ (by simp)).trans hlast, rfl, ?_⟩
          exact List.getElem?_set_self hlt
      | error reason =>
          simp only [hinsert] at hreturns
          -- refused: the rest of the loop runs from the next number and the next block
          have hcall' : (s.calls.set i ⟨collection, document, .counting⟩)[i]? =
              some ⟨collection, document, .counting⟩ := List.getElem?_set_self hlt
          have hcounter' : s.counter + 1 = s₀.counter + UInt64.ofNat (n + 1) := by
            rw [hcounter, UInt64.ofNat_add, UInt64.add_assoc]
            rfl
          have hposition' : s.position + 1 = s₀.position + (n + 1) := by
            omega
          obtain ⟨history', hexec⟩ := exec_attempt server keystream h hcall (now n)
          rw [hid, hinsert] at hexec
          obtain ⟨attempts, y, hy, hafter⟩ := ih (s := ⟨s.counter + 1, s.position + 1, s.contents,
            s.calls.set i ⟨collection, document, .counting⟩⟩) (h := history')
            hcounter' hposition' hcall' hreturns
          refine ⟨attempts + 1, y, ?_, hafter⟩
          rw [List.range'_succ, List.flatMap_cons, hexec]
          exact hy

end Alone

/-- **Alone, the steps are the loop**: what a call returns when no other call takes a step is what
`ensure_creation_impl` returns on the collection, with the ids of the generator. -/
theorem returns_alone {server : Server double} {keystream : Nat → UInt64} {now : Nat → UInt64}
    {s : Creations double} {history : List (CreationEvent double)} {i : Nat} {collection : String}
    {document : Document double} (hcall : s.calls[i]? = some ⟨collection, document, .counting⟩)
    {fuel : Nat} {id : Int64} {content : List (Document double)}
    (hreturns : ensureCreationImpl server (s.ids keystream now) document (s.contents collection) fuel 0 =
      some (id, content)) :
    ∃ attempts y, exec (Creations.step server keystream) ⟨s, history⟩
        ((List.range attempts).flatMap fun k => attempt i (now k)) = some y ∧
      y.state.contents = Function.update s.contents collection content ∧
      y.state.calls[i]? = some ⟨collection, document, .returned id⟩ := by
  obtain ⟨attempts, y, hexec, hafter⟩ := returns_from (by simp) rfl hcall hreturns
  exact ⟨attempts, y, by rwa [List.range_eq_range'], hafter⟩

end Sekkeizu
