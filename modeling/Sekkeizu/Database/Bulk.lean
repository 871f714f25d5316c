/-
# Sekkeizu.Database.Bulk — what the task of a batch of writes asks of the driver.

The task translates every entry into one operation of an ordered bulk (`TransactionInfo.bulkOperation`,
the `switch` of the task) and executes the bulk. The driver and the server are outside the source: what a
selector matches, what an update document does and what an upsert inserts are parameters (`Driver`), and
`BulkOperation.execute` is the documented effect of one driver call on the content of a collection.

Seven kinds of entries are mapped onto five driver calls. `upsert_one` shares the call of `upsert_many`, and
`delete_one` that of `delete_many`; both calls reach every match. So an entry has the effect its kind names
(`TransactionInfo.meaning`) unless it is one of these two and a second match would be changed
(`bulk_eq_iff`).

Modelling choices:

* The content of a collection is the list of its documents in natural order; where one document is to be
  changed it is the first match, for the driver and for the named meaning alike.
* Only bulks without a driver error are considered here.
-/
import Sekkeizu.Database.Transaction
import Sekkeizu.Semantics.Selections


namespace Sekkeizu

open Selection (updateAll updateOne removeAll removeOne laterMatches)

/-- How the server reads the documents of an operation. -/
class Driver (doc : Type*) where
  /-- The selector matches the document. -/
  selects : doc → doc → Bool
  /-- The document after an update by these operators. -/
  updated : doc → doc → doc
  /-- The document an upsert inserts, from its selector and its operators. -/
  upserted : doc → doc → doc

/-- The calls the task makes on a bulk. -/
inductive BulkOperation (doc : Type*) where
  /-- `mongoc_bulk_operation_insert`. -/
  | insert (document : doc)
  /-- `mongoc_bulk_operation_update_one_with_opts`. -/
  | updateOneWithOpts (selector document : doc)
  /-- `mongoc_bulk_operation_update_many_with_opts`. -/
  | updateManyWithOpts (selector document : doc)
  /-- `mongoc_bulk_operation_update`. -/
  | update (selector document : doc) (upsert : Bool)
  /-- `mongoc_bulk_operation_delete`. -/
  | delete (selector : doc)

variable {doc callable : Type*}

open Driver

theorem laterMatches_of_none {p : doc → Bool} {content : List doc} (h : content.any p = false) :
    laterMatches p content = [] := by
  have hnone : content.filter p = [] := by
    rw [List.filter_eq_nil_iff]
    simpa using h
  rw [laterMatches, hnone, List.tail_nil]

variable [Driver doc]

/-- Insert when nothing matches, otherwise change the content. -/
def upsertOr (selector document : doc) (change : List doc → List doc) (content : List doc) :
    List doc :=
  if content.any (selects selector) then change content
  else content ++ [upserted selector document]

/-- The effect of one call on the content of the collection. -/
def BulkOperation.execute : BulkOperation doc → List doc → List doc
  | .insert document, content => content ++ [document]
  | .updateOneWithOpts selector document, content =>
    updateOne (selects selector) (updated document) content
  | .updateManyWithOpts selector document, content =>
    updateAll (selects selector) (updated document) content
  | .update selector document upsert, content =>
    if upsert then
      upsertOr selector document (updateAll (selects selector) (updated document)) content
    else updateAll (selects selector) (updated document) content
  | .delete selector, content => removeAll (selects selector) content

/-- The `switch` of the task. -/
def TransactionInfo.bulkOperation (t : TransactionInfo doc callable) : BulkOperation doc :=
  match t.type with
  | .insert => .insert t.operationOp1
  | .updateOne => .updateOneWithOpts t.operationOp1 t.operationOp2
  | .updateMany => .updateManyWithOpts t.operationOp1 t.operationOp2
  | .upsertOne | .upsertMany => .update t.operationOp1 t.operationOp2 true
  | .deleteOne | .deleteMany => .delete t.operationOp1

/-- The bulk task of `update` on the entries of a batch: the content after
`mongoc_bulk_operation_execute`. -/
def executeBulk (transactions : List (TransactionInfo doc callable)) (content : List doc) :
    List doc :=
  (transactions.map TransactionInfo.bulkOperation).foldl (fun content op => op.execute content) content

/-! ## What the kinds mean -/

/-- **The effect the kind of an entry names.** -/
def TransactionInfo.meaning (t : TransactionInfo doc callable) (content : List doc) : List doc :=
  let matching := selects t.operationOp1
  let change := updated t.operationOp2
  match t.type with
  | .insert => content ++ [t.operationOp1]
  | .updateOne => updateOne matching change content
  | .updateMany => updateAll matching change content
  | .upsertOne => upsertOr t.operationOp1 t.operationOp2 (updateOne matching change) content
  | .upsertMany => upsertOr t.operationOp1 t.operationOp2 (updateAll matching change) content
  | .deleteOne => removeOne matching content
  | .deleteMany => removeAll matching content

/-- The entries one by one, with their named meaning. -/
def meaningOf (transactions : List (TransactionInfo doc callable)) (content : List doc) : List doc :=
  transactions.foldl (fun content t => t.meaning content) content

/-- An entry that is meant for one document has no second one to reach: a `delete_one` has at most one
match, and the matches of an `upsert_one` after the first are as its update would leave them. -/
def TransactionInfo.ReachesOne (t : TransactionInfo doc callable) (content : List doc) : Prop :=
  match t.type with
  | .upsertOne => ∀ d ∈ laterMatches (selects t.operationOp1) content, updated t.operationOp2 d = d
  | .deleteOne => laterMatches (selects t.operationOp1) content = []
  | _ => True

/-- **One entry** has its named effect exactly when it reaches one document, where one is meant. -/
theorem execute_eq_meaning_iff (t : TransactionInfo doc callable) (content : List doc) :
    t.bulkOperation.execute content = t.meaning content ↔ t.ReachesOne content := by
  unfold TransactionInfo.bulkOperation TransactionInfo.meaning TransactionInfo.ReachesOne
  cases t.type with
  | upsertOne =>
      simp only [BulkOperation.execute, if_true, upsertOr]
      cases hany : content.any (selects t.operationOp1) with
      | true => exact Selection.updateAll_eq_updateOne_iff
      | false => simp [laterMatches_of_none hany]
  | deleteOne => exact Selection.removeAll_eq_removeOne_iff
  | _ => exact iff_of_true rfl trivial

/-- **When the bulk is right.** A batch and all its initial parts leave the content that their entries,
one by one, mean, exactly when every entry meant for one document reaches one, in the content the entries
before it mean. -/
theorem bulk_eq_iff (batch : List (TransactionInfo doc callable)) (content : List doc) :
    (∀ transactions, transactions <+: batch →
      executeBulk transactions content = meaningOf transactions content) ↔
    ∀ before t after, batch = before ++ t :: after → t.ReachesOne (meaningOf before content) := by
  have hagree := Selection.foldl_agree_iff (f := fun content t => t.bulkOperation.execute content)
    (g := fun (content : List doc) (t : TransactionInfo doc callable) => t.meaning content)
    (s := content) (l := batch)
  simp only [executeBulk, List.foldl_map]
  apply hagree.trans
  apply forall₄_congr
  intro before t after _
  exact execute_eq_meaning_iff t (meaningOf before content)

/-- Documents with a key and a value: a selector matches by the key, an update sets the value. -/
instance : Driver (Nat × Nat) where
  selects selector document := selector.1 == document.1
  updated operators document := (document.1, operators.2)
  upserted selector operators := (selector.1, operators.2)

/-- A write of these documents. -/
def TransactionInfo.write (type : OpType) (operationOp1 operationOp2 : Nat × Nat) :
    TransactionInfo (Nat × Nat) Unit where
  dependency := none
  type := type
  operationOp1 := operationOp1
  operationOp2 := operationOp2
  callable := none
  pending := true
  done := false

/-- A `delete_one` whose selector matches two documents removes both. -/
theorem delete_one_removes_two :
    ¬ ∀ (batch : List (TransactionInfo (Nat × Nat) Unit)) (content : List (Nat × Nat)),
      executeBulk batch content = meaningOf batch content := by
  intro h
  have hone := h [.write .deleteOne (1, 0) (0, 0)] [(1, 10), (1, 11)]
  exact absurd hone (by decide)

end Sekkeizu
