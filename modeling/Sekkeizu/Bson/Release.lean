/-
# Sekkeizu.Bson.Release — decoding with and without the assertions.

The walks of `bson_reflection_struct` check the kind of an element with `assert` only. Where `NDEBUG` is
defined a field that should not have had the hash is passed like any other, and nothing fails. The two
builds are compared here: which documents stop the one with assertions (`Document.Clashes`), and that on
every other document, into whatever values, they do the same (`assertions_fail_iff_clashes`).

Whether a document stops a visit is a matter of the layout and the keys. Neither the values of the struct
nor the order of the elements has a say in it.
-/
import Sekkeizu.Bson.Embedded

namespace Sekkeizu.BsonReflection

variable {double : Type}

/-! ## The build without assertions -/

section Release

/-- The recursion over the index, without a check that fails. -/
def walkRelease (check : Bytes → (type : FieldType) → type.Value double → Option (type.Value double)) :
    (layout : Layout) → layout.Values double → layout.Values double
  | .last name type, .last v => .last ((check name type v).getD v)
  | .field name type rest, .field v vs =>
    match check name type v with
    | some v' => .field v' vs
    | none => .field v (walkRelease check rest vs)

variable [DoubleConversions double]

/-- `check_and_store` under `NDEBUG`. -/
def checkAndStoreRelease (v : Scalar double) (hash : UInt32) :
    (layout : Layout) → layout.Values double → layout.Values double :=
  walkRelease fun name type _ =>
    match type.ofScalar v with
    | some v' => if hashOfCString name = hash then some v' else none
    | none => none

/-- `check_and_store_string` under `NDEBUG`. -/
def checkAndStoreStringRelease (data : Bytes) (hash : UInt32) :
    (layout : Layout) → layout.Values double → layout.Values double :=
  walkRelease fun name type _ =>
    match type with
    | .string => if hashOfCString name = hash then some (.string data) else none
    | _ => none

/-- `check_and_recurse` under `NDEBUG`, where nothing is left of the hash. -/
def checkAndRecurseRelease
    (visitAll : (layout : Layout) → layout.Values double → layout.Values double) :
    (layout : Layout) → layout.Values double → layout.Values double :=
  walkRelease fun _ type v =>
    match type, v with
    | .document layout, .document v => some (.document (visitAll layout v))
    | _, _ => none

mutual

def Element.visitRelease (key : Bytes) :
    Element double → (layout : Layout) → layout.Values double → layout.Values double
  | .scalar v => checkAndStoreRelease v (hashOfCString key)
  | .utf8 data => checkAndStoreStringRelease data (hashOfCString key)
  | .document doc => checkAndRecurseRelease fun layout v => doc.visitAllRelease layout v
  | .other => fun _ v => v

/-- `visit_all` under `NDEBUG`. -/
def Document.visitAllRelease :
    Document double → (layout : Layout) → layout.Values double → layout.Values double
  | .empty, _, v => v
  | .cons key element rest, layout, v => rest.visitAllRelease layout (element.visitRelease key layout v)

end

end Release

/-! ## Clashes -/

/-- There is a branch that gives this element to a field of this type, or no visitor that would ask. -/
def FieldType.takes : FieldType → Element double → Bool
  | .double, .scalar _ | .bool, .scalar _ | .int32, .scalar _ | .int64, .scalar _ => true
  | .string, .utf8 _ => true
  | .document _, .document _ => true
  | _, .other => true
  | _, _ => false

/-- The walk for the element looks no further than this field: it has the hash of the key, or a document has
come to a struct. -/
def Element.endsAt (key : Bytes) : Element double → Bytes × FieldType → Bool
  | .document _, (_, .document _) => true
  | _, (name, _) => hashOfCString name == hashOfCString key

/-- **The field the element comes to**: the first that ends its walk. -/
def Element.target (key : Bytes) (element : Element double) (layout : Layout) :
    Option (Bytes × FieldType) :=
  layout.members.find? (element.endsAt key)

/-- The element comes to a field that cannot take it. -/
def Element.Clashes (key : Bytes) (element : Element double) (layout : Layout) : Prop :=
  ∃ name type, element.target key layout = some (name, type) ∧ type.takes element = false

/-- **Decoding the document into a struct of one layout has this element decoded into one of another**, down
through the embedded documents and the structs they come to. -/
inductive Document.Reaches (key : Bytes) (element : Element double) (inner : Layout) :
    Document double → Layout → Prop where
  | here {doc : Document double} : (key, element) ∈ doc.elements → Document.Reaches key element inner doc inner
  | inside {doc child : Document double} {layout layout' : Layout} {key' name : Bytes} :
      (key', .document child) ∈ doc.elements →
      (Element.document child).target key' layout = some (name, .document layout') →
      Document.Reaches key element inner child layout' → Document.Reaches key element inner doc layout

/-- **Some element, at some depth, comes to a field that cannot take it.** -/
def Document.Clashes (doc : Document double) (layout : Layout) : Prop :=
  ∃ key element inner, doc.Reaches key element inner layout ∧ element.Clashes key inner

/-- The element clashes, or the struct it comes to and its own elements do. -/
def Element.Fails (key : Bytes) (element : Element double) (layout : Layout) : Prop :=
  ∃ name type, element.target key layout = some (name, type) ∧
    (type.takes element = false ∨
      ∃ child inner, element = .document child ∧ type = .document inner ∧ child.Clashes inner)

theorem Document.clashes_iff_exists {doc : Document double} {layout : Layout} :
    doc.Clashes layout ↔ ∃ key element, (key, element) ∈ doc.elements ∧ element.Fails key layout := by
  constructor
  · rintro ⟨key, element, inner, hreach, hclash⟩
    cases hreach with
    | here hmem =>
        obtain ⟨name, type, htarget, htakes⟩ := hclash
        exact ⟨key, element, hmem, name, type, htarget, Or.inl htakes⟩
    | inside hmem htarget hreach =>
        exact ⟨_, _, hmem, _, _, htarget, Or.inr ⟨_, _, rfl, rfl, key, element, inner, hreach, hclash⟩⟩
  · rintro ⟨key, element, hmem, name, type, htarget, htakes | ⟨child, inner, rfl, rfl, hclash⟩⟩
    · exact ⟨key, element, layout, .here hmem, name, type, htarget, htakes⟩
    · obtain ⟨key', element', inner', hreach, hclash⟩ := hclash
      exact ⟨key', element', inner', .inside hmem htarget hreach, hclash⟩

theorem Document.clashes_of_perm {doc doc' : Document double} {layout : Layout}
    (h : doc'.elements.Perm doc.elements) : doc'.Clashes layout ↔ doc.Clashes layout := by
  rw [clashes_iff_exists, clashes_iff_exists]
  simp only [h.mem_iff]

theorem Document.not_clashes_empty {layout : Layout} : ¬ (Document.empty : Document double).Clashes layout := by
  rw [clashes_iff_exists]
  rintro ⟨key, element, hmem, -⟩
  exact absurd hmem List.not_mem_nil

theorem Document.clashes_cons_iff {key : Bytes} {element : Element double} {rest : Document double}
    {layout : Layout} :
    (Document.cons key element rest).Clashes layout ↔ element.Fails key layout ∨ rest.Clashes layout := by
  rw [clashes_iff_exists, clashes_iff_exists]
  simp only [elements, List.mem_cons, Prod.mk.injEq]
  constructor
  · rintro ⟨key', element', ⟨rfl, rfl⟩ | hmem, hfails⟩
    · exact Or.inl hfails
    · exact Or.inr ⟨key', element', hmem, hfails⟩
  · rintro (hfails | ⟨key', element', hmem, hfails⟩)
    · exact ⟨key, element, Or.inl ⟨rfl, rfl⟩, hfails⟩
    · exact ⟨key', element', Or.inr hmem, hfails⟩

/-! ## One walk -/

/-- **When a walk fails**: the first field that ends it fails. -/
theorem walk_eq_none_iff {check : Bytes → (type : FieldType) → type.Value double → Check (type.Value double)}
    {ends : Bytes × FieldType → Bool} {bad : FieldType → Prop}
    (hnext : ∀ name type v, ends (name, type) = false → check name type v = .next)
    (hends : ∀ name type v, ends (name, type) = true →
      (bad type ∧ check name type v = .fail) ∨ (¬ bad type ∧ ∃ v', check name type v = .store v')) :
    {layout : Layout} → (v : layout.Values double) →
      (walk check layout v = none ↔
        ∃ name type, layout.members.find? ends = some (name, type) ∧ bad type)
  | .last name type, .last v => by
      cases hfield : ends (name, type) with
      | false => simp [walk, hnext name type v hfield, Layout.members, hfield]
      | true =>
          obtain ⟨hbad, hcheck⟩ | ⟨hbad, v', hcheck⟩ := hends name type v hfield
          · simpa [walk, hcheck, Layout.members, hfield] using hbad
          · simpa [walk, hcheck, Layout.members, hfield] using hbad
  | .field name type rest, .field v vs => by
      cases hfield : ends (name, type) with
      | false =>
          have hrest := walk_eq_none_iff hnext hends vs
          simpa [walk, hnext name type v hfield, Layout.members, hfield] using hrest
      | true =>
          obtain ⟨hbad, hcheck⟩ | ⟨hbad, v', hcheck⟩ := hends name type v hfield
          · simpa [walk, hcheck, Layout.members, hfield] using hbad
          · simpa [walk, hcheck, Layout.members, hfield] using hbad

/-- **A walk that does not fail** does what it does without assertions. -/
theorem walkRelease_of_walk {check : Bytes → (type : FieldType) → type.Value double → Check (type.Value double)}
    {checkRelease : Bytes → (type : FieldType) → type.Value double → Option (type.Value double)}
    (hnext : ∀ name type v, check name type v = .next → checkRelease name type v = none)
    (hstore : ∀ name type v v', check name type v = .store v' → checkRelease name type v = some v') :
    {layout : Layout} → {v v' : layout.Values double} → walk check layout v = some v' →
      walkRelease checkRelease layout v = v'
  | .last name type, .last v, v', h => by
      rw [walk] at h
      split at h
      · rename_i a hcheck
        rw [walkRelease, hstore name type v a hcheck, ← Option.some.inj h, Option.getD_some]
      · rename_i hcheck
        rw [walkRelease, hnext name type v hcheck, ← Option.some.inj h, Option.getD_none]
      · exact absurd h (by simp)
  | .field name type rest, .field v vs, v', h => by
      rw [walk] at h
      split at h
      · rename_i a hcheck
        rw [walkRelease, hstore name type v a hcheck, ← Option.some.inj h]
      · rename_i hcheck
        obtain ⟨vs', hrest, rfl⟩ := Option.map_eq_some_iff.mp h
        rw [walkRelease, hnext name type v hcheck]
        simp only [walkRelease_of_walk hnext hstore hrest]
      · exact absurd h (by simp)

/-! ## One element -/

theorem checkAndStoreString_eq_none_iff {key data : Bytes} {layout : Layout} (v : layout.Values double) :
    checkAndStoreString data (hashOfCString key) layout v = none ↔
      (Element.utf8 data : Element double).Fails key layout := by
  have hfails : (Element.utf8 data : Element double).Fails key layout ↔
      ∃ name type, layout.members.find? ((Element.utf8 data : Element double).endsAt key) = some (name, type) ∧
        type.takes (.utf8 data : Element double) = false := by
    simp [Element.Fails, Element.target]
  rw [hfails]
  apply walk_eq_none_iff
  · intro name type v hname
    have hne : hashOfCString name ≠ hashOfCString key := by simpa [Element.endsAt] using hname
    cases type <;> simp [hne]
  · intro name type v hname
    have heq : hashOfCString name = hashOfCString key := by simpa [Element.endsAt] using hname
    cases type <;> simp [heq, FieldType.takes]

theorem Element.not_fails_other {key : Bytes} {layout : Layout} :
    ¬ (Element.other : Element double).Fails key layout := by
  rintro ⟨name, type, -, htakes | ⟨child, inner, hother, -⟩⟩
  · cases type <;> simp [FieldType.takes] at htakes
  · exact absurd hother (by simp)

variable [DoubleConversions double]

theorem FieldType.ofScalar_eq_none_iff {type : FieldType} {v : Scalar double} :
    type.ofScalar v = none ↔ type.takes (.scalar v) = false := by
  cases type <;> simp [ofScalar, takes]

theorem Element.fails_iff_of_scalar {key : Bytes} {v : Scalar double} {layout : Layout} :
    (Element.scalar v).Fails key layout ↔
      ∃ name type, layout.members.find? ((Element.scalar v).endsAt key) = some (name, type) ∧
        type.ofScalar v = none := by
  simp [Fails, target, FieldType.ofScalar_eq_none_iff]

theorem checkAndStore_eq_none_iff {key : Bytes} {a : Scalar double} {layout : Layout}
    (v : layout.Values double) :
    checkAndStore a (hashOfCString key) layout v = none ↔ (Element.scalar a).Fails key layout := by
  rw [Element.fails_iff_of_scalar]
  apply walk_eq_none_iff
  · intro name type v hname
    have hne : hashOfCString name ≠ hashOfCString key := by simpa [Element.endsAt] using hname
    cases type.ofScalar a <;> simp [hne]
  · intro name type v hname
    have heq : hashOfCString name = hashOfCString key := by simpa [Element.endsAt] using hname
    cases hconvert : type.ofScalar a with
    | none => simp [heq]
    | some v' => simp [heq]

/-- An embedded document, when whether its own visit fails does not depend on the values. -/
theorem checkAndRecurse_eq_none_iff {key : Bytes} {child : Document double} {layout : Layout}
    (hchild : ∀ inner (v : inner.Values double), child.visitAll inner v = none ↔ child.Clashes inner)
    (v : layout.Values double) :
    checkAndRecurse (fun layout v => child.visitAll layout v) (hashOfCString key) layout v = none ↔
      (Element.document child).Fails key layout := by
  apply walk_eq_none_iff
  · intro name type v hname
    cases v with
    | document v => simp [Element.endsAt] at hname
    | _ =>
        have hne : hashOfCString name ≠ hashOfCString key := by simpa [Element.endsAt] using hname
        simp [hne]
  · intro name type v hname
    cases v with
    | document v =>
        rename_i inner
        cases hvisit : child.visitAll inner v with
        | none => simp [FieldType.takes, hvisit, (hchild inner v).mp hvisit]
        | some v' =>
            have hclash : ¬ child.Clashes inner := by
              rw [← hchild inner v, hvisit]
              simp
            simp [FieldType.takes, hvisit, hclash]
    | _ =>
        have heq : hashOfCString name = hashOfCString key := by simpa [Element.endsAt] using hname
        simp [heq, FieldType.takes]

mutual

theorem Element.visit_eq_none_iff {key : Bytes} : (element : Element double) → {layout : Layout} →
    (v : layout.Values double) → (element.visit key layout v = none ↔ element.Fails key layout)
  | .scalar _, _, v => by rw [Element.visit, checkAndStore_eq_none_iff]
  | .utf8 _, _, v => by rw [Element.visit, checkAndStoreString_eq_none_iff]
  | .document child, _, v => by
      rw [Element.visit, checkAndRecurse_eq_none_iff]
      exact fun inner v => child.visitAll_eq_none_iff v
  | .other, _, v => by simp [Element.visit, Element.not_fails_other]

/-- **What stops a visit**: a clash at some depth, whatever the fields hold. -/
theorem Document.visitAll_eq_none_iff : (doc : Document double) → {layout : Layout} →
    (v : layout.Values double) → (doc.visitAll layout v = none ↔ doc.Clashes layout)
  | .empty, _, v => by simp [Document.visitAll, Document.not_clashes_empty]
  | .cons key element rest, layout, v => by
      have hfirst : element.visit key layout v = none ↔ element.Fails key layout :=
        element.visit_eq_none_iff v
      rw [Document.visitAll, Document.clashes_cons_iff, ← hfirst]
      cases hvisit : element.visit key layout v with
      | none => simp
      | some v' => simp [rest.visitAll_eq_none_iff v']

end

/-! ## The two builds -/

mutual

theorem Element.visitRelease_of_visit {key : Bytes} : (element : Element double) → {layout : Layout} →
    {v v' : layout.Values double} → element.visit key layout v = some v' →
      element.visitRelease key layout v = v'
  | .scalar a, _, _, _, h => by
      rw [Element.visit, checkAndStore] at h
      rw [Element.visitRelease, checkAndStoreRelease]
      apply walkRelease_of_walk _ _ h
      · intro name type v hnext
        cases hconvert : type.ofScalar a <;> grind
      · intro name type v v' hstore
        cases hconvert : type.ofScalar a <;> grind
  | .utf8 _, _, _, _, h => by
      rw [Element.visit, checkAndStoreString] at h
      rw [Element.visitRelease, checkAndStoreStringRelease]
      apply walkRelease_of_walk _ _ h
      · intro name type v hnext
        cases type <;> grind
      · intro name type v v' hstore
        cases type <;> grind
  | .document child, _, _, _, h => by
      rw [Element.visit, checkAndRecurse] at h
      rw [Element.visitRelease, checkAndRecurseRelease]
      apply walkRelease_of_walk _ _ h
      · intro name type v hnext
        cases v <;> grind
      · intro name type v v' hstore
        cases v with
        | document v =>
            rename_i inner
            cases hvisit : child.visitAll inner v with
            | none => simp [hvisit] at hstore
            | some w =>
                have hrelease : child.visitAllRelease inner v = w := child.visitAllRelease_of_visitAll hvisit
                simpa [hvisit, hrelease] using hstore
        | _ => grind
  | .other, _, v, _, h => by
      rw [Element.visit] at h
      rw [Element.visitRelease, Option.some.inj h]

theorem Document.visitAllRelease_of_visitAll : (doc : Document double) → {layout : Layout} →
    {v v' : layout.Values double} → doc.visitAll layout v = some v' → doc.visitAllRelease layout v = v'
  | .empty, _, v, _, h => by
      rw [Document.visitAll] at h
      rw [Document.visitAllRelease, Option.some.inj h]
  | .cons key element rest, layout, v, v', h => by
      rw [Document.visitAll] at h
      obtain ⟨w, hvisit, hrest⟩ := Option.bind_eq_some_iff.mp h
      rw [Document.visitAllRelease, element.visitRelease_of_visit hvisit, rest.visitAllRelease_of_visitAll hrest]

end

/-- **What the assertions do.** A visit fails exactly when some element at some depth comes to a field that
cannot take it, whatever the struct holds and in whatever order the elements are; every other visit leaves
what the build without assertions leaves. -/
theorem assertions_fail_iff_clashes (doc : Document double) (layout : Layout) (v : layout.Values double) :
    (doc.visitAll layout v = none ↔ doc.Clashes layout) ∧
      (¬ doc.Clashes layout → doc.visitAll layout v = some (doc.visitAllRelease layout v)) ∧
      ∀ (doc' : Document double) (v' : layout.Values double), doc'.elements.Perm doc.elements →
        (doc'.visitAll layout v' = none ↔ doc.visitAll layout v = none) := by
  refine ⟨doc.visitAll_eq_none_iff v, fun hclash => ?_, fun doc' v' hperm => ?_⟩
  · cases hvisit : doc.visitAll layout v with
    | none => exact absurd ((doc.visitAll_eq_none_iff v).mp hvisit) hclash
    | some w => rw [doc.visitAllRelease_of_visitAll hvisit]
  · rw [doc'.visitAll_eq_none_iff v', doc.visitAll_eq_none_iff v]
    exact Document.clashes_of_perm hperm

end Sekkeizu.BsonReflection
