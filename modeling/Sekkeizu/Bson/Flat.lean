/-
# Sekkeizu.Bson.Flat — decoding into a struct without embedded structs.

A visit compares hashes and never the strings. In a struct whose names have different hashes every element
of the type of its field is stored to the one field with the hash of its key, and nowhere else
(`walk_eq_map`), so after the document every field holds the last such element
(`visitAll_eq_holdLast`). Where no key has the hash of another name, this is the last element with the
name of the field. Two strings of one hash are all it takes to tell the two apart
(`colliding_key_is_stored`).
-/
import Sekkeizu.Bson.RoundTrip

namespace Sekkeizu.BsonReflection

variable {double : Type}

/-! ## The elements and the fields -/

/-- The names with their types. -/
def Layout.members : Layout → List (Bytes × FieldType)
  | .last name type => [(name, type)]
  | .field name type rest => (name, type) :: rest.members

theorem Layout.fst_mem_memberNames {name : Bytes} {type : FieldType} :
    (layout : Layout) → (name, type) ∈ layout.members → name ∈ layout.memberNames
  | .last _ _, h => by
      obtain ⟨rfl, -⟩ := Prod.mk.inj (List.mem_singleton.mp h)
      exact List.mem_singleton.mpr rfl
  | .field _ _ rest, h => by
      obtain heq | hrest := List.mem_cons.mp h
      · obtain ⟨rfl, -⟩ := Prod.mk.inj heq
        exact List.mem_cons_self
      · exact List.mem_cons_of_mem _ (rest.fst_mem_memberNames hrest)

/-- No field is an embedded struct. -/
def Layout.Flat (layout : Layout) : Prop :=
  ∀ name inner, (name, FieldType.document inner) ∉ layout.members

/-- Every field gets a value from its name, its type and the value it has. -/
def Layout.Values.map (f : Bytes → (type : FieldType) → type.Value double → type.Value double) :
    {layout : Layout} → layout.Values double → layout.Values double
  | .last name type, .last v => .last (f name type v)
  | .field name type _, .field v vs => .field (f name type v) (vs.map f)

theorem Layout.Values.map_map {f g : Bytes → (type : FieldType) → type.Value double → type.Value double} :
    {layout : Layout} → (v : layout.Values double) →
      (v.map f).map g = v.map fun name type v => g name type (f name type v)
  | .last _ _, .last _ => rfl
  | .field _ _ _, .field _ vs => by rw [map, map, map, map_map vs]

theorem Layout.Values.map_congr {f g : Bytes → (type : FieldType) → type.Value double → type.Value double} :
    {layout : Layout} → (v : layout.Values double) →
      (∀ name type, (name, type) ∈ layout.members → f name type = g name type) → v.map f = v.map g
  | .last name type, .last v, h => by rw [map, map, h name type (List.mem_singleton.mpr rfl)]
  | .field name type _, .field v vs, h => by
      have hrest := vs.map_congr (f := f) (g := g) fun name type hmem =>
        h name type (List.mem_cons_of_mem _ hmem)
      rw [map, map, h name type List.mem_cons_self, hrest]

theorem Layout.Values.map_id {f : Bytes → (type : FieldType) → type.Value double → type.Value double} :
    {layout : Layout} → (v : layout.Values double) →
      (∀ name type, (name, type) ∈ layout.members → ∀ v, f name type v = v) → v.map f = v
  | .last name type, .last v, h => by rw [map, h name type (List.mem_singleton.mpr rfl)]
  | .field name type _, .field v vs, h => by
      have hrest := vs.map_id (f := f) fun name type hmem => h name type (List.mem_cons_of_mem _ hmem)
      rw [map, h name type List.mem_cons_self, hrest]

/-- The value of an element for a field of exactly its type. -/
def FieldType.ofElement : (type : FieldType) → Element double → Option (type.Value double)
  | .double, .scalar (.double v) => some (.double v)
  | .bool, .scalar (.bool v) => some (.bool v)
  | .int32, .scalar (.int32 v) => some (.int32 v)
  | .int64, .scalar (.int64 v) => some (.int64 v)
  | .string, .utf8 v => some (.string v)
  | _, _ => none

/-- The last element whose key is for the field, by `same`. -/
def Document.last (same : Bytes → Bool) : Document double → Option (Element double)
  | .empty => none
  | .cons key element rest =>
    match rest.last same with
    | some element' => some element'
    | none => if same key then some element else none

/-- What a field holds after the document: the value of the last element for it, or what it held. -/
def Document.held (same : Bytes → Bytes → Bool) (doc : Document double) (name : Bytes)
    (type : FieldType) (v : type.Value double) : type.Value double :=
  ((doc.last (same name)).bind type.ofElement).getD v

def sameHash (name key : Bytes) : Bool := hashOfCString name == hashOfCString key

def sameString (name key : Bytes) : Bool := name == key

/-- The elements for a field of this type. -/
def Document.Typed (same : Bytes → Bool) (type : FieldType) : Document double → Prop
  | .empty => True
  | .cons key element rest =>
    (same key = true → (type.ofElement element).isSome = true) ∧ rest.Typed same type

/-- **Every element for a field has exactly its type.** -/
def Document.Fits (same : Bytes → Bytes → Bool) (doc : Document double) (layout : Layout) : Prop :=
  ∀ name type, (name, type) ∈ layout.members → doc.Typed (same name) type

def Document.keys : Document double → List Bytes
  | .empty => []
  | .cons key _ rest => key :: rest.keys

/-- What a field holds after one element. -/
def Element.stored (same : Bytes → Bytes → Bool) (key : Bytes) (element : Element double) (name : Bytes)
    (type : FieldType) (v : type.Value double) : type.Value double :=
  if same name key then (type.ofElement element).getD v else v

theorem Document.Typed.last_isSome {same : Bytes → Bool} {type : FieldType} :
    {doc : Document double} → doc.Typed same type → {element : Element double} →
      doc.last same = some element → (type.ofElement element).isSome = true
  | .cons key element rest, htyped, element', hlast => by
      rw [last] at hlast
      cases hrest : rest.last same with
      | some element'' =>
          rw [hrest] at hlast
          rw [← Option.some.inj hlast]
          exact htyped.2.last_isSome hrest
      | none =>
          rw [hrest] at hlast
          by_cases hkey : same key = true
          · rw [if_pos hkey] at hlast
            rw [← Option.some.inj hlast]
            exact htyped.1 hkey
          · rw [if_neg hkey] at hlast
            exact absurd hlast (by simp)

theorem Document.last_congr {same same' : Bytes → Bool} :
    (doc : Document double) → (∀ key ∈ doc.keys, same key = same' key) → doc.last same = doc.last same'
  | .empty, _ => rfl
  | .cons key element rest, h => by
      have hrest : rest.last same = rest.last same' :=
        rest.last_congr fun key hmem => h key (List.mem_cons_of_mem _ hmem)
      rw [last, last, hrest, h key List.mem_cons_self]

/-- **One element more**: the rest of the document goes on from what the element has left. -/
theorem Document.held_cons {same : Bytes → Bytes → Bool} {key name : Bytes} {element : Element double}
    {rest : Document double} {type : FieldType} (htyped : rest.Typed (same name) type)
    (v : type.Value double) :
    (Document.cons key element rest).held same name type v =
      rest.held same name type (element.stored same key name type v) := by
  unfold held
  rw [last]
  cases hrest : rest.last (same name) with
  | some element' =>
      -- a later element for the field: what was held before does not matter
      obtain ⟨v', hv'⟩ := Option.isSome_iff_exists.mp (htyped.last_isSome hrest)
      rw [Option.bind_some, hv', Option.getD_some, Option.getD_some]
  | none =>
      by_cases hkey : same name key = true <;> simp [Element.stored, hkey]

/-! ## One element -/

theorem FieldType.ofScalar_of_ofElement [DoubleConversions double] {type : FieldType}
    {v : Scalar double} {x : type.Value double} (h : type.ofElement (.scalar v) = some x) : type.ofScalar v = some x := by
  cases type <;> cases v <;> simp_all [ofElement, ofScalar, Scalar.toDouble, Scalar.toBool, Scalar.toInt32,
    Scalar.toInt64]

/-- **A walk for a hash**: when the check stores at the field of the hash and goes on at every other, the
walk gives that field its value and passes the others. -/
theorem walk_eq_map {check : Bytes → (type : FieldType) → type.Value double → Check (type.Value double)}
    {f : Bytes → (type : FieldType) → type.Value double → type.Value double} {h : UInt32} :
    {layout : Layout} → (layout.memberNames.map hashOfCString).Nodup →
      (∀ name type, (name, type) ∈ layout.members → hashOfCString name = h →
        ∀ v, check name type v = .store (f name type v)) →
      (∀ name type, (name, type) ∈ layout.members → hashOfCString name ≠ h →
        ∀ v, check name type v = .next ∧ f name type v = v) →
      ∀ v, walk check layout v = some (v.map f)
  | .last name type, _, hstore, hnext, .last v => by
      have hmem : (name, type) ∈ (Layout.last name type).members := List.mem_singleton.mpr rfl
      by_cases hname : hashOfCString name = h
      · rw [walk, hstore name type hmem hname]
        rfl
      · obtain ⟨hcheck, hkept⟩ := hnext name type hmem hname v
        rw [walk, hcheck, Layout.Values.map, hkept]
  | .field name type rest, hnodup, hstore, hnext, .field v vs => by
      have hmem : (name, type) ∈ (Layout.field name type rest).members := List.mem_cons_self
      obtain ⟨hfresh, hrest⟩ := List.nodup_cons.mp hnodup
      by_cases hname : hashOfCString name = h
      · have hkept : vs.map f = vs := by
          apply vs.map_id
          intro name' type' hmem' v'
          have hother : hashOfCString name' ≠ h := by
            intro heq
            apply hfresh
            rw [hname, ← heq]
            exact List.mem_map_of_mem (rest.fst_mem_memberNames hmem')
          exact (hnext name' type' (List.mem_cons_of_mem _ hmem') hother v').2
        rw [walk, hstore name type hmem hname, Layout.Values.map, hkept]
      · obtain ⟨hcheck, hkept⟩ := hnext name type hmem hname v
        have hwalk := walk_eq_map hrest
          (fun name type hmem => hstore name type (List.mem_cons_of_mem _ hmem))
          (fun name type hmem => hnext name type (List.mem_cons_of_mem _ hmem)) vs
        rw [walk, hcheck, Layout.Values.map, hkept]
        simp only [hwalk, Option.map_some]

variable [DoubleConversions double]

/-- **One element** of a type that fits is stored to the field with the hash of its key. -/
theorem Element.visit_eq_map {layout : Layout} (hflat : layout.Flat)
    (hnodup : (layout.memberNames.map hashOfCString).Nodup) {key : Bytes} {element : Element double}
    (hfits : ∀ name type, (name, type) ∈ layout.members → hashOfCString name = hashOfCString key →
      (type.ofElement element).isSome = true) (v : layout.Values double) :
    element.visit key layout v = some (v.map (element.stored sameHash key)) := by
  have hskip : ∀ {name type}, hashOfCString name ≠ hashOfCString key → ∀ v : type.Value double,
      element.stored sameHash key name type v = v := by
    intro name type hname v
    simp [stored, sameHash, hname]
  have hsame : ∀ {name type x}, hashOfCString name = hashOfCString key → type.ofElement element = some x →
      ∀ v : type.Value double, element.stored sameHash key name type v = x := by
    intro name type x hname hx v
    simp [stored, sameHash, hname, hx]
  cases element with
  | scalar a =>
      rw [visit, checkAndStore]
      apply walk_eq_map (h := hashOfCString key) hnodup
      · intro name type hmem hname v
        obtain ⟨x, hx⟩ := Option.isSome_iff_exists.mp (hfits name type hmem hname)
        rw [hsame hname hx, FieldType.ofScalar_of_ofElement hx]
        simp [hname]
      · intro name type hmem hname v
        refine ⟨?_, hskip hname v⟩
        cases type.ofScalar a <;> simp [hname]
  | utf8 data =>
      rw [visit, checkAndStoreString]
      apply walk_eq_map (h := hashOfCString key) hnodup
      · intro name type hmem hname v
        have hx := hfits name type hmem hname
        cases type <;> simp_all [FieldType.ofElement, stored, sameHash]
      · intro name type hmem hname v
        refine ⟨?_, hskip hname v⟩
        cases type <;> simp [hname]
  | document doc =>
      rw [visit, checkAndRecurse]
      apply walk_eq_map (h := hashOfCString key) hnodup
      · intro name type hmem hname v
        have hx := hfits name type hmem hname
        cases type <;> simp [FieldType.ofElement] at hx
      · intro name type hmem hname v
        refine ⟨?_, hskip hname v⟩
        cases type with
        | document inner => exact absurd hmem (hflat name inner)
        | _ => simp [hname]
  | other =>
      rw [visit, v.map_id]
      intro name type hmem v
      by_cases hname : hashOfCString name = hashOfCString key
      · have hx := hfits name type hmem hname
        cases type <;> simp [FieldType.ofElement] at hx
      · exact hskip hname v

/-! ## The whole document -/

/-- **By hashes**, the document leaves in every field the last element for it. -/
theorem Document.visitAll_eq_map {layout : Layout} (hflat : layout.Flat)
    (hnodup : (layout.memberNames.map hashOfCString).Nodup) :
    (doc : Document double) → doc.Fits sameHash layout → (v : layout.Values double) →
      doc.visitAll layout v = some (v.map (doc.held sameHash))
  | .empty, _, v => by
      have hsame : v.map ((Document.empty : Document double).held sameHash) = v :=
        v.map_id fun _ _ _ _ => rfl
      rw [visitAll, hsame]
  | .cons key element rest, hfits, v => by
      have hvisit : element.visit key layout v = some (v.map (element.stored sameHash key)) := by
        apply Element.visit_eq_map hflat hnodup
        intro name type hmem hname
        exact (hfits name type hmem).1 (beq_iff_eq.mpr hname)
      have hrest : rest.Fits sameHash layout := fun name type hmem => (hfits name type hmem).2
      rw [visitAll, hvisit, Option.bind_some, rest.visitAll_eq_map hflat hnodup hrest,
        Layout.Values.map_map]
      congr 1
      apply v.map_congr
      intro name type hmem
      funext v'
      exact (held_cons (hrest name type hmem) v').symm

/-- **What a flat decode leaves.** In a struct of scalars and strings whose names have different hashes, and
a document whose elements with the hash of a name have the type of that field, no assertion fails and every
field holds the last element with the hash of its name; where no key has the hash of another name, the last
element with its name. -/
theorem visitAll_eq_holdLast {layout : Layout} (hflat : layout.Flat)
    (hnodup : (layout.memberNames.map hashOfCString).Nodup) {doc : Document double}
    (hfits : doc.Fits sameHash layout) (v : layout.Values double) :
    doc.visitAll layout v = some (v.map (doc.held sameHash)) ∧
      ((∀ name ∈ layout.memberNames, ∀ key ∈ doc.keys,
          hashOfCString name = hashOfCString key → name = key) →
        doc.visitAll layout v = some (v.map (doc.held sameString))) := by
  have hvisit := doc.visitAll_eq_map hflat hnodup hfits v
  refine ⟨hvisit, fun hinjective => ?_⟩
  rw [hvisit]
  congr 1
  apply v.map_congr
  intro name type hmem
  have hlast : doc.last (sameHash name) = doc.last (sameString name) := by
    apply doc.last_congr
    intro key hkey
    rw [Bool.eq_iff_iff, sameHash, sameString, beq_iff_eq, beq_iff_eq]
    exact ⟨hinjective name (layout.fst_mem_memberNames hmem) key hkey, congrArg hashOfCString⟩
  funext v'
  rw [Document.held, Document.held, hlast]

/-- Fields `"a"` and `"b"`, and the document `{"a": 5, "b": "x", "c": true, "a": 7}`. -/
theorem visitAll_eq_holdLast_twice :
    let layout : Layout := .field [97] .int32 (.last [98] .string)
    let doc : Document Int := .cons [97] (.scalar (.int32 5)) (.cons [98] (.utf8 [120])
      (.cons [99] (.scalar (.bool true)) (.cons [97] (.scalar (.int32 7)) .empty)))
    let v : layout.Values Int := .field (.int32 0) (.last (.string []))
    doc.visitAll layout v = some (v.map (doc.held sameHash)) ∧
      ((∀ name ∈ layout.memberNames, ∀ key ∈ doc.keys,
          hashOfCString name = hashOfCString key → name = key) →
        doc.visitAll layout v = some (v.map (doc.held sameString))) := by
  intro layout doc v
  apply visitAll_eq_holdLast
  · intro name inner hmem
    simp [layout, Layout.members] at hmem
  · decide
  · intro name type hmem
    have hab : hashOfCString [97] ≠ hashOfCString [98] := by decide
    have hac : hashOfCString [97] ≠ hashOfCString [99] := by decide
    have hbc : hashOfCString [98] ≠ hashOfCString [99] := by decide
    simp only [layout, Layout.members, List.mem_cons, Prod.mk.injEq, List.not_mem_nil, or_false] at hmem
    obtain ⟨rfl, rfl⟩ | ⟨rfl, rfl⟩ := hmem <;>
      simp [doc, Document.Typed, sameHash, FieldType.ofElement, hab, hac, hbc, hab.symm]

/-- `"costarring"` has the hash of `"liquid"`: it is stored to the field of that name. -/
theorem colliding_key_is_stored :
    ¬ ∀ (layout : Layout) (doc : Document Int) (v : layout.Values Int),
      layout.Flat → layout.memberNames.Nodup → doc.Fits sameString layout →
        doc.visitAll layout v = some (v.map (doc.held sameString)) := by
  intro h
  have hhash : hashOfCString [108, 105, 113, 117, 105, 100] =
      hashOfCString [99, 111, 115, 116, 97, 114, 114, 105, 110, 103] := by decide
  have hdecoded := h (.last [108, 105, 113, 117, 105, 100] .int32)
    (.cons [99, 111, 115, 116, 97, 114, 114, 105, 110, 103] (.scalar (.int32 1)) .empty)
    (.last (.int32 0)) (by intro name inner hmem; simp [Layout.members] at hmem) (by decide)
    (by
      intro name type hmem
      obtain ⟨rfl, rfl⟩ := Prod.mk.inj (List.mem_singleton.mp hmem)
      simp [Document.Typed, sameString])
  have hstored : (Document.cons [99, 111, 115, 116, 97, 114, 114, 105, 110, 103]
      (.scalar (.int32 1)) .empty : Document Int).visitAll (.last [108, 105, 113, 117, 105, 100] .int32)
        (.last (.int32 0)) = some (.last (.int32 1)) := by
    simp [Document.visitAll, Element.visit, checkAndStore, walk, FieldType.ofScalar, Scalar.toInt32, hhash]
  rw [hstored] at hdecoded
  simp [Layout.Values.map, Document.held, Document.last, sameString] at hdecoded

end Sekkeizu.BsonReflection
