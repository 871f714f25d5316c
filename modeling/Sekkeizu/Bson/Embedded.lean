/-
# Sekkeizu.Bson.Embedded — where an embedded document goes.

The walk for an embedded document compares the hash at the fields that are no structs, to assert, and not
at the first struct it comes to: that one gets the document, and the walk ends. So a key finds the struct of
its name only if no other struct stands before it, and a key without a field is decoded into the first
struct (`recurses_by_name_iff`). With the key of every embedded document so placed, at every depth, the
document is decoded by names (`Document.visitAll_eq_decode`).
-/
import Sekkeizu.Bson.Flat

namespace Sekkeizu.BsonReflection

variable {double : Type}

/-! ## Decoding by names -/

/-- The field of this name, if it is a struct, gets the document; nothing else changes. -/
def embed (decode : (layout : Layout) → layout.Values double → Option (layout.Values double))
    (key : Bytes) : (layout : Layout) → layout.Values double → Option (layout.Values double) :=
  walk fun name type v =>
    if name = key then
      match type, v with
      | .document layout, .document v =>
        match decode layout v with
        | some v' => .store (.document v')
        | none => .fail
      -- "Matching key is not a document"
      | _, _ => .fail
    else .next

/-- **The walk comes to the key first**: among the fields up to the first struct, one has this name, or
there is no struct. -/
def Layout.LeadsTo (key : Bytes) : Layout → Prop
  | .last name (.document _) => name = key
  | .last _ _ => True
  | .field name (.document _) _ => name = key
  | .field name _ rest => name = key ∨ rest.LeadsTo key

/-- No other name has the hash of the key. -/
def Layout.NoCollision (key : Bytes) (layout : Layout) : Prop :=
  ∀ name ∈ layout.memberNames, hashOfCString name = hashOfCString key → name = key

theorem Layout.NoCollision.rest {key name : Bytes} {type : FieldType} {layout : Layout}
    (h : (Layout.field name type layout).NoCollision key) : layout.NoCollision key :=
  fun name hmem => h name (List.mem_cons_of_mem _ hmem)

theorem Layout.NoCollision.hash_ne {key name : Bytes} {layout : Layout} (h : layout.NoCollision key)
    (hmem : name ∈ layout.memberNames) (hname : name ≠ key) : hashOfCString name ≠ hashOfCString key :=
  fun heq => hname (h name hmem heq)

section Steps

variable {decode : (layout : Layout) → layout.Values double → Option (layout.Values double)}
  {key name : Bytes} {hash : UInt32} {inner rest : Layout}

/-- The first struct, in the last place. -/
theorem checkAndRecurse_last (v : inner.Values double) :
    checkAndRecurse decode hash (.last name (.document inner)) (.last (.document v)) =
      (decode inner v).map fun v' => .last (.document v') := by
  cases hdecode : decode inner v <;> simp [checkAndRecurse, walk, hdecode]

/-- The first struct. -/
theorem checkAndRecurse_field (v : inner.Values double) (vs : rest.Values double) :
    checkAndRecurse decode hash (.field name (.document inner) rest) (.field (.document v) vs) =
      (decode inner v).map fun v' => .field (.document v') vs := by
  cases hdecode : decode inner v <;> simp [checkAndRecurse, walk, hdecode]

theorem embed_last (v : inner.Values double) :
    embed decode name (.last name (.document inner)) (.last (.document v)) =
      (decode inner v).map fun v' => .last (.document v') := by
  cases hdecode : decode inner v <;> simp [embed, walk, hdecode]

theorem embed_field (v : inner.Values double) (vs : rest.Values double) :
    embed decode name (.field name (.document inner) rest) (.field (.document v) vs) =
      (decode inner v).map fun v' => .field (.document v') vs := by
  cases hdecode : decode inner v <;> simp [embed, walk, hdecode]

/-- A field of another name is passed. -/
theorem embed_next {type : FieldType} (hname : name ≠ key) (v : type.Value double)
    (vs : rest.Values double) :
    embed decode key (.field name type rest) (.field v vs) =
      (embed decode key rest vs).map (.field v) := by
  rw [embed, walk]
  simp only [if_neg hname]

theorem embed_next_last {type : FieldType} (hname : name ≠ key) (v : type.Value double) :
    embed decode key (.last name type) (.last v) = some (.last v) := by
  rw [embed, walk]
  simp only [if_neg hname]

end Steps

/-- **Where the walk comes to the key first**, it does what the names say. -/
theorem checkAndRecurse_eq_embed {key : Bytes}
    {decode : (layout : Layout) → layout.Values double → Option (layout.Values double)} :
    {layout : Layout} → layout.NoCollision key → layout.LeadsTo key → (v : layout.Values double) →
      checkAndRecurse decode (hashOfCString key) layout v = embed decode key layout v
  | .last name type, hfree, hleads, .last v => by
      cases v with
      | document v =>
          obtain rfl : name = key := hleads
          rw [checkAndRecurse_last, embed_last]
      | _ =>
          by_cases hname : name = key
          · simp [checkAndRecurse, embed, walk, hname]
          · have hhash := hfree.hash_ne (List.mem_singleton.mpr rfl) hname
            simp [checkAndRecurse, embed, walk, hname, hhash]
  | .field name type rest, hfree, hleads, .field v vs => by
      cases v with
      | document v =>
          obtain rfl : name = key := hleads
          rw [checkAndRecurse_field, embed_field]
      | _ =>
          by_cases hname : name = key
          · simp [checkAndRecurse, embed, walk, hname]
          · have hrest : rest.LeadsTo key := hleads.resolve_left hname
            have hwalk : checkAndRecurse decode (hashOfCString key) rest vs = embed decode key rest vs :=
              checkAndRecurse_eq_embed hfree.rest hrest vs
            have hhash := hfree.hash_ne List.mem_cons_self hname
            rw [embed_next hname, ← hwalk, checkAndRecurse, walk]
            simp [hhash]

theorem embed_congr {decode decode' : (layout : Layout) → layout.Values double → Option (layout.Values double)}
    {key : Bytes} : {layout : Layout} →
      (∀ inner, (key, FieldType.document inner) ∈ layout.members → ∀ v, decode inner v = decode' inner v) →
      (v : layout.Values double) → embed decode key layout v = embed decode' key layout v
  | .last name type, h, .last v => by
      by_cases hname : name = key
      · subst hname
        cases v with
        | document v => rw [embed_last, embed_last, h _ (List.mem_singleton.mpr rfl)]
        | _ => simp [embed, walk]
      · rw [embed_next_last hname, embed_next_last hname]
  | .field name type rest, h, .field v vs => by
      by_cases hname : name = key
      · subst hname
        cases v with
        | document v => rw [embed_field, embed_field, h _ List.mem_cons_self]
        | _ => simp [embed, walk]
      · have hrest : embed decode key rest vs = embed decode' key rest vs :=
          embed_congr (fun inner hmem => h inner (List.mem_cons_of_mem _ hmem)) vs
        rw [embed_next hname, embed_next hname, hrest]

/-! ## Every struct can be changed -/

mutual

theorem FieldType.value_nonempty [Nonempty double] : (type : FieldType) → Nonempty (type.Value double)
  | .double => ⟨.double (Classical.arbitrary double)⟩
  | .string => ⟨.string []⟩
  | .bool => ⟨.bool false⟩
  | .int32 => ⟨.int32 0⟩
  | .int64 => ⟨.int64 0⟩
  | .document layout => layout.values_nonempty.map .document

theorem Layout.values_nonempty [Nonempty double] : (layout : Layout) → Nonempty (layout.Values double)
  | .last _ type => type.value_nonempty.map .last
  | .field _ type rest => type.value_nonempty.elim fun v => rest.values_nonempty.map (.field v)

end

variable [DoubleConversions double]

/-- An element with the name of a field changes the first field, if it is of this type, from `v` to `v'`. -/
def Element.Changes (element : Element double) {type : FieldType} (v v' : type.Value double) : Prop :=
  v' ≠ v ∧ ∀ name, element.visit name (.last name type) (.last v) = some (.last v') ∧
    ∀ rest (vs : rest.Values double),
      element.visit name (.field name type rest) (.field v vs) = some (.field v' vs)

mutual

theorem FieldType.exists_change [Nontrivial double] : (type : FieldType) →
    ∃ (element : Element double) (v v' : type.Value double), element.Changes v v'
  | .double => by
      obtain ⟨a, b, hab⟩ := exists_pair_ne double
      refine ⟨.scalar (.double b), .double a, .double b, by simpa using hab.symm, fun name => ?_⟩
      simp [Element.visit, checkAndStore, walk, FieldType.ofScalar, Scalar.toDouble]
  | .string => by
      refine ⟨.utf8 [0], .string [], .string [0], by simp, fun name => ?_⟩
      simp [Element.visit, checkAndStoreString, walk]
  | .bool => by
      refine ⟨.scalar (.bool true), .bool false, .bool true, by simp, fun name => ?_⟩
      simp [Element.visit, checkAndStore, walk, FieldType.ofScalar, Scalar.toBool]
  | .int32 => by
      refine ⟨.scalar (.int32 1), .int32 0, .int32 1, by simp, fun name => ?_⟩
      simp [Element.visit, checkAndStore, walk, FieldType.ofScalar, Scalar.toInt32]
  | .int64 => by
      refine ⟨.scalar (.int64 1), .int64 0, .int64 1, by simp, fun name => ?_⟩
      simp [Element.visit, checkAndStore, walk, FieldType.ofScalar, Scalar.toInt64]
  | .document layout => by
      obtain ⟨doc, v, v', hne, hdoc⟩ := layout.exists_change
      refine ⟨.document doc, .document v, .document v', by simpa using hne, fun name => ⟨?_, ?_⟩⟩
      · rw [Element.visit, checkAndRecurse_last, hdoc, Option.map_some]
      · intro rest vs
        rw [Element.visit, checkAndRecurse_field, hdoc, Option.map_some]

/-- **Every struct can be changed** by some document. -/
theorem Layout.exists_change [Nontrivial double] : (layout : Layout) →
    ∃ (doc : Document double) (v v' : layout.Values double), v' ≠ v ∧ doc.visitAll layout v = some v'
  | .last name type => by
      obtain ⟨element, v, v', hne, hvisit⟩ := type.exists_change
      refine ⟨.cons name element .empty, .last v, .last v', by simpa using hne, ?_⟩
      rw [Document.visitAll, (hvisit name).1, Option.bind_some, Document.visitAll]
  | .field name type rest => by
      obtain ⟨element, v, v', hne, hvisit⟩ := type.exists_change
      obtain ⟨vs⟩ : Nonempty (rest.Values double) := rest.values_nonempty
      refine ⟨.cons name element .empty, .field v vs, .field v' vs, by simpa using hne, ?_⟩
      rw [Document.visitAll, (hvisit name).2, Option.bind_some, Document.visitAll]

end

/-! ## Exactly when a document goes to the field of its key -/

/-- A walk that comes to a struct of another name first can change that struct. -/
theorem exists_visit_ne [Nontrivial double] {key : Bytes} : (layout : Layout) → layout.NoCollision key →
    ¬ layout.LeadsTo key → ∃ (doc : Document double) (v : layout.Values double),
      (Element.document doc).visit key layout v ≠ embed doc.visitAll key layout v
  | .last name type, _, hleads => by
      cases type with
      | document inner =>
          obtain ⟨doc, v, v', hne, hdoc⟩ :
              ∃ (doc : Document double) (v v' : inner.Values double),
                v' ≠ v ∧ doc.visitAll inner v = some v' := inner.exists_change
          refine ⟨doc, .last (.document v), ?_⟩
          rw [Element.visit, checkAndRecurse_last, hdoc, embed_next_last hleads]
          simpa using hne
      | _ => exact absurd trivial hleads
  | .field name type rest, hfree, hleads => by
      cases type with
      | document inner =>
          obtain ⟨doc, v, v', hne, hdoc⟩ :
              ∃ (doc : Document double) (v v' : inner.Values double),
                v' ≠ v ∧ doc.visitAll inner v = some v' := inner.exists_change
          obtain ⟨vs⟩ : Nonempty (rest.Values double) := rest.values_nonempty
          refine ⟨doc, .field (.document v) vs, ?_⟩
          rw [Element.visit, checkAndRecurse_field, hdoc, embed_next hleads]
          -- by names, this struct keeps its value
          cases embed doc.visitAll key rest vs with
          | none => simp
          | some vs' => simp [hne]
      | _ =>
          obtain ⟨hname, hrest⟩ := not_or.mp hleads
          obtain ⟨doc, vs, hvisit⟩ := exists_visit_ne rest hfree.rest hrest
          obtain ⟨v⟩ : Nonempty (FieldType.Value double _) := FieldType.value_nonempty _
          refine ⟨doc, .field v vs, fun heq => hvisit ?_⟩
          have hhash := hfree.hash_ne List.mem_cons_self hname
          rw [embed_next hname, Element.visit, checkAndRecurse, walk] at heq
          simp only [ne_eq, hhash, not_false_eq_true, if_true] at heq
          exact Option.map_injective (fun a b hab => by simpa using hab) heq

/-- **Where embedded documents go.** Under a key that shares its hash with no other name, every document
changes the struct of that name only, whatever the fields hold, exactly when no other struct stands before
the first field of that name, or there is no struct. -/
theorem recurses_by_name_iff [Nontrivial double] {layout : Layout} {key : Bytes}
    (hfree : layout.NoCollision key) :
    (∀ (doc : Document double) (v : layout.Values double),
      (Element.document doc).visit key layout v = embed doc.visitAll key layout v) ↔
    layout.LeadsTo key := by
  constructor
  · intro hvisit
    by_contra hleads
    obtain ⟨doc, v, hne⟩ : ∃ (doc : Document double) (v : layout.Values double),
        (Element.document doc).visit key layout v ≠ embed doc.visitAll key layout v :=
      exists_visit_ne layout hfree hleads
    exact hne (hvisit doc v)
  · intro hleads doc v
    rw [Element.visit]
    exact checkAndRecurse_eq_embed hfree hleads v

/-- The key `"b"` of a struct with an `int32_t` called `"a"` and an embedded struct called `"b"`. -/
theorem recurses_by_name_iff_only_struct :
    let layout : Layout := .field [97] .int32 (.last [98] (.document (.last [120] .int32)))
    (∀ (doc : Document Int) (v : layout.Values Int),
      (Element.document doc).visit [98] layout v = embed doc.visitAll [98] layout v) ↔
    layout.LeadsTo [98] := by
  intro layout
  have : Nontrivial Int := ⟨0, 1, by decide⟩
  apply recurses_by_name_iff
  unfold Layout.NoCollision
  decide

/-- Structs called `"a"` and `"b"` with an `int32_t` called `"x"` each, and the document
`{"b": {"x": 5}}`: the 5 goes to `"a"`. -/
theorem second_struct_goes_to_the_first :
    ¬ ∀ (layout : Layout) (key : Bytes), layout.NoCollision key →
      ∀ (doc : Document Int) (v : layout.Values Int),
        (Element.document doc).visit key layout v = embed doc.visitAll key layout v := by
  intro h
  have hvisit := h
    (.field [97] (.document (.last [120] .int32)) (.last [98] (.document (.last [120] .int32)))) [98]
    (by unfold Layout.NoCollision; decide) (.cons [120] (.scalar (.int32 5)) .empty)
    (.field (.document (.last (.int32 0))) (.last (.document (.last (.int32 0)))))
  rw [Element.visit, checkAndRecurse_field, embed_next (by decide), embed_last] at hvisit
  simp [Document.visitAll, Element.visit, checkAndStore, walk, FieldType.ofScalar, Scalar.toInt32]
    at hvisit

/-! ## Whole documents -/

mutual

/-- As `visit`, with embedded documents by name at every depth. -/
def Element.decode (key : Bytes) :
    Element double → (layout : Layout) → layout.Values double → Option (layout.Values double)
  | .document doc => embed (fun layout v => doc.decode layout v) key
  | .scalar v => checkAndStore v (hashOfCString key)
  | .utf8 data => checkAndStoreString data (hashOfCString key)
  | .other => fun _ v => some v

def Document.decode :
    Document double → (layout : Layout) → layout.Values double → Option (layout.Values double)
  | .empty, _, v => some v
  | .cons key element rest, layout, v => (element.decode key layout v).bind (rest.decode layout)

end

mutual

def Element.Placed (key : Bytes) : Element double → Layout → Prop
  | .document doc, layout => layout.NoCollision key ∧ layout.LeadsTo key ∧
    ∀ inner, (key, FieldType.document inner) ∈ layout.members → doc.Placed inner
  | .scalar _, _ | .utf8 _, _ | .other, _ => True

/-- **The walk comes to the key of every embedded document first**, at every depth. -/
def Document.Placed : Document double → Layout → Prop
  | .empty, _ => True
  | .cons key element rest, layout => element.Placed key layout ∧ rest.Placed layout

end

mutual

theorem Element.visit_eq_decode {key : Bytes} : (element : Element double) → {layout : Layout} →
    element.Placed key layout → (v : layout.Values double) →
      element.visit key layout v = element.decode key layout v
  | .document doc, _, hplaced, v => by
      obtain ⟨hfree, hleads, hinner⟩ := hplaced
      rw [Element.visit, Element.decode, checkAndRecurse_eq_embed hfree hleads]
      apply embed_congr
      intro inner hmem v
      exact doc.visitAll_eq_decode (hinner inner hmem) v
  | .scalar _, _, _, _ => by rw [Element.visit, Element.decode]
  | .utf8 _, _, _, _ => by rw [Element.visit, Element.decode]
  | .other, _, _, _ => by rw [Element.visit, Element.decode]

/-- **A document with every key so placed** is decoded by names, in whatever order its keys are. -/
theorem Document.visitAll_eq_decode : (doc : Document double) → {layout : Layout} → doc.Placed layout →
    (v : layout.Values double) → doc.visitAll layout v = doc.decode layout v
  | .empty, _, _, _ => by rw [Document.visitAll, Document.decode]
  | .cons key element rest, layout, hplaced, v => by
      rw [Document.visitAll, Document.decode, element.visit_eq_decode hplaced.1 v]
      congr 1
      funext v'
      exact rest.visitAll_eq_decode hplaced.2 v'

end

end Sekkeizu.BsonReflection
