/-
# Sekkeizu.Bson.Leaves — what a document writes, leaf by leaf.

The leaves of a struct are its fields of the plain types, at every depth. For each of them a document settles
beforehand what becomes of it: it gets the value of the last element that comes to it, down through the
embedded documents, or it keeps its own (`Document.written`). So decoding is an override, with or without
assertions, in every layout and with every collision of hashes, and what is known of overrides holds: a struct
that is sent its documents again, in the order of their last times, is none the worse for it
(`redelivery_absorbed`).
-/
import Sekkeizu.Bson.Release
import Sekkeizu.Semantics.Overrides

namespace Sekkeizu.BsonReflection

open PartialSystem

variable {double : Type}

/-! ## Leaves -/

mutual

/-- The leaves of a field. -/
inductive FieldType.Leaf : FieldType → Type where
  | double : FieldType.Leaf .double
  | string : FieldType.Leaf .string
  | bool : FieldType.Leaf .bool
  | int32 : FieldType.Leaf .int32
  | int64 : FieldType.Leaf .int64
  | document {layout : Layout} (leaf : Layout.Leaf layout) : FieldType.Leaf (.document layout)

/-- The leaves of a struct. -/
inductive Layout.Leaf : Layout → Type where
  | last {name : Bytes} {type : FieldType} (leaf : FieldType.Leaf type) : Layout.Leaf (.last name type)
  | here {name : Bytes} {type : FieldType} {rest : Layout} (leaf : FieldType.Leaf type) :
      Layout.Leaf (.field name type rest)
  | there {name : Bytes} {type : FieldType} {rest : Layout} (leaf : Layout.Leaf rest) :
      Layout.Leaf (.field name type rest)

end

mutual

/-- What a leaf holds, as the element that would be appended for it. -/
def FieldType.Value.get : {type : FieldType} → type.Value double → type.Leaf → Element double
  | _, .double v, _ => .scalar (.double v)
  | _, .string v, _ => .utf8 v
  | _, .bool v, _ => .scalar (.bool v)
  | _, .int32 v, _ => .scalar (.int32 v)
  | _, .int64 v, _ => .scalar (.int64 v)
  | _, .document v, .document leaf => v.get leaf

def Layout.Values.get : {layout : Layout} → layout.Values double → layout.Leaf → Element double
  | _, .last v, .last leaf => v.get leaf
  | _, .field v _, .here leaf => v.get leaf
  | _, .field _ vs, .there leaf => vs.get leaf

end

mutual

theorem FieldType.Value.ext_get : {type : FieldType} → (v w : type.Value double) →
    (∀ leaf, v.get leaf = w.get leaf) → v = w
  | _, .double _, .double _, h => by simpa [FieldType.Value.get] using h .double
  | _, .string _, .string _, h => by simpa [FieldType.Value.get] using h .string
  | _, .bool _, .bool _, h => by simpa [FieldType.Value.get] using h .bool
  | _, .int32 _, .int32 _, h => by simpa [FieldType.Value.get] using h .int32
  | _, .int64 _, .int64 _, h => by simpa [FieldType.Value.get] using h .int64
  | _, .document v, .document w, h => by
      have hvalues : v = w := v.ext_get w fun leaf => by
        simpa [FieldType.Value.get] using h (.document leaf)
      rw [hvalues]

/-- **The leaves are all there is** to the values of a struct. -/
theorem Layout.Values.ext_get : {layout : Layout} → (v w : layout.Values double) →
    (∀ leaf, v.get leaf = w.get leaf) → v = w
  | _, .last v, .last w, h => by
      have hlast : v = w := v.ext_get w fun leaf => by simpa [Layout.Values.get] using h (.last leaf)
      rw [hlast]
  | _, .field v vs, .field w ws, h => by
      have hfirst : v = w := v.ext_get w fun leaf => by simpa [Layout.Values.get] using h (.here leaf)
      have hrest : vs = ws := vs.ext_get ws fun leaf => by simpa [Layout.Values.get] using h (.there leaf)
      rw [hfirst, hrest]

end

/-! ## What is written -/

/-- The leaves of the field at which a walk ends, if there is one; `check` is `none` at the fields it passes. -/
def walkLeaf (check : Bytes → (type : FieldType) → Option (type.Leaf → Option (Element double))) :
    (layout : Layout) → layout.Leaf → Option (Element double)
  | .last name type, .last leaf => (check name type).bind fun written => written leaf
  | .field name type _, .here leaf => (check name type).bind fun written => written leaf
  | .field name type rest, .there leaf => if (check name type).isSome then none else walkLeaf check rest leaf

/-- **One walk**, when the check gives a field what is written to its leaves. -/
theorem walkRelease_overrides
    {check : Bytes → (type : FieldType) → type.Value double → Option (type.Value double)}
    {checkLeaf : Bytes → (type : FieldType) → Option (type.Leaf → Option (Element double))}
    (hpass : ∀ name type v, checkLeaf name type = none → check name type v = none)
    (hwrite : ∀ name type v written, checkLeaf name type = some written →
      ∃ v', check name type v = some v' ∧ ∀ leaf, v'.get leaf = (written leaf).getD (v.get leaf)) :
    {layout : Layout} → (v : layout.Values double) → (leaf : layout.Leaf) →
      (walkRelease check layout v).get leaf = (walkLeaf checkLeaf layout leaf).getD (v.get leaf)
  | .last name type, .last v, .last leaf => by
      cases hleaf : checkLeaf name type with
      | none => simp [walkRelease, walkLeaf, hpass name type v hleaf, hleaf, Layout.Values.get]
      | some written =>
          obtain ⟨v', hcheck, hget⟩ := hwrite name type v written hleaf
          simp [walkRelease, walkLeaf, hcheck, hleaf, Layout.Values.get, hget]
  | .field name type rest, .field v vs, leaf => by
      cases hleaf : checkLeaf name type with
      | none =>
          rw [walkRelease, hpass name type v hleaf]
          cases leaf with
          | here leaf => simp [walkLeaf, hleaf, Layout.Values.get]
          | there leaf =>
              have hrest := walkRelease_overrides hpass hwrite vs leaf
              simp [walkLeaf, hleaf, Layout.Values.get, hrest]
      | some written =>
          obtain ⟨v', hcheck, hget⟩ := hwrite name type v written hleaf
          rw [walkRelease, hcheck]
          cases leaf with
          | here leaf => simp [walkLeaf, hleaf, Layout.Values.get, hget]
          | there leaf => simp [walkLeaf, hleaf, Layout.Values.get]

variable [DoubleConversions double]

mutual

/-- The value that the element has for a leaf. -/
def Element.written (key : Bytes) :
    Element double → (layout : Layout) → layout.Leaf → Option (Element double)
  | .scalar a => walkLeaf fun name type =>
      if hashOfCString name = hashOfCString key then
        (type.ofScalar a).map fun v leaf => some (v.get leaf)
      else none
  | .utf8 data => walkLeaf fun name type =>
      match type with
      | .string => if hashOfCString name = hashOfCString key then some fun _ => some (.utf8 data) else none
      | _ => none
  | .document child => walkLeaf fun _ type =>
      match type with
      | .document inner => some fun (.document leaf) => child.written inner leaf
      | _ => none
  | .other => fun _ _ => none

/-- **The value that the document has for a leaf**: that of the last element that comes to it. -/
def Document.written : Document double → (layout : Layout) → layout.Leaf → Option (Element double)
  | .empty, _, _ => none
  | .cons key element rest, layout, leaf =>
    (rest.written layout leaf).or (element.written key layout leaf)

end

/-! ## Decoding is an override -/

mutual

theorem Element.visitRelease_get {key : Bytes} : (element : Element double) → {layout : Layout} →
    (v : layout.Values double) → (leaf : layout.Leaf) →
      (element.visitRelease key layout v).get leaf = (element.written key layout leaf).getD (v.get leaf)
  | .scalar a, _, v, leaf => by
      rw [Element.visitRelease, Element.written, checkAndStoreRelease]
      apply walkRelease_overrides
      · intro name type v hpass
        cases hconvert : type.ofScalar a <;> grind
      · intro name type v written hwrite
        by_cases hname : hashOfCString name = hashOfCString key
        · rw [if_pos hname] at hwrite
          obtain ⟨v', hconvert, rfl⟩ := Option.map_eq_some_iff.mp hwrite
          refine ⟨v', ?_, fun leaf => rfl⟩
          simp [hconvert, hname]
        · rw [if_neg hname] at hwrite
          exact absurd hwrite (by simp)
  | .utf8 data, _, v, leaf => by
      rw [Element.visitRelease, Element.written, checkAndStoreStringRelease]
      apply walkRelease_overrides
      · intro name type v hpass
        cases type <;> grind
      · intro name type v written hwrite
        cases type with
        | string =>
            by_cases hname : hashOfCString name = hashOfCString key
            · rw [if_pos hname] at hwrite
              refine ⟨.string data, if_pos hname, fun leaf => ?_⟩
              rw [← Option.some.inj hwrite]
              rfl
            · rw [if_neg hname] at hwrite
              exact absurd hwrite (by simp)
        | _ => exact absurd hwrite (by simp)
  | .document child, _, v, leaf => by
      rw [Element.visitRelease, Element.written, checkAndRecurseRelease]
      apply walkRelease_overrides
      · intro name type v hpass
        cases v <;> grind
      · intro name type v written hwrite
        cases v with
        | document v =>
            refine ⟨_, rfl, fun leaf => ?_⟩
            cases leaf with
            | document leaf =>
                rw [← Option.some.inj hwrite]
                exact child.visitAllRelease_get v leaf
        | _ => exact absurd hwrite (by simp)
  | .other, _, v, leaf => by rw [Element.visitRelease, Element.written, Option.getD_none]

theorem Document.visitAllRelease_get : (doc : Document double) → {layout : Layout} →
    (v : layout.Values double) → (leaf : layout.Leaf) →
      (doc.visitAllRelease layout v).get leaf = (doc.written layout leaf).getD (v.get leaf)
  | .empty, _, v, leaf => by rw [Document.visitAllRelease, Document.written, Option.getD_none]
  | .cons key element rest, layout, v, leaf => by
      have hfirst : (element.visitRelease key layout v).get leaf =
          (element.written key layout leaf).getD (v.get leaf) := element.visitRelease_get v leaf
      rw [Document.visitAllRelease, rest.visitAllRelease_get, hfirst, Document.written]
      cases rest.written layout leaf <;> simp

end

/-- **Decoding is an override.** -/
theorem Document.visitAllRelease_overrides (doc : Document double) (layout : Layout) :
    Overrides Layout.Values.get (doc.visitAllRelease layout) (doc.written layout) :=
  fun v leaf => doc.visitAllRelease_get v leaf

/-! ## Documents one after another -/

section Sequences

variable {layout : Layout} {docs : List (Document double)}

theorem foldlM_visitAll_eq_none_iff (v : layout.Values double) :
    docs.foldlM (fun v doc => doc.visitAll layout v) v = none ↔ ∃ doc ∈ docs, doc.Clashes layout := by
  induction docs generalizing v with
  | nil => simp
  | cons doc docs ih =>
      have hfirst : doc.visitAll layout v = none ↔ doc.Clashes layout := doc.visitAll_eq_none_iff v
      rw [List.foldlM_cons, List.exists_mem_cons_iff, ← hfirst]
      cases hvisit : doc.visitAll layout v with
      | none => simp
      | some v' => simpa using ih v'

/-- Documents that get through leave what the build without assertions leaves. -/
theorem foldlM_visitAll_eq_replay {v v' : layout.Values double}
    (h : docs.foldlM (fun v doc => doc.visitAll layout v) v = some v') :
    v' = replay (fun doc => doc.visitAllRelease layout) v docs := by
  induction docs generalizing v with
  | nil => exact (Option.some.inj h).symm
  | cons doc docs ih =>
      rw [List.foldlM_cons] at h
      obtain ⟨w, hvisit, hrest⟩ := Option.bind_eq_some_iff.mp h
      rw [replay_cons, doc.visitAllRelease_of_visitAll hvisit]
      exact ih hrest

end Sequences

/-- **Redelivered documents.** Of the documents decoded into a struct one after another, only the last time of
each counts, also for whether an assertion fails. A leaf holds the last value that they had for it, and two
structs that were sent the same documents are equal exactly when they agreed on the leaves for which none of
the documents had a value. -/
theorem redelivery_absorbed [DecidableEq (Document double)] (docs : List (Document double)) (layout : Layout)
    (v : layout.Values double) :
    let decode := fun (docs : List (Document double)) (v : layout.Values double) =>
      docs.foldlM (fun v doc => doc.visitAll layout v) v
    decode docs.dedup v = decode docs v ∧
      ∀ v', decode docs v = some v' →
        (∀ leaf, v'.get leaf =
          (docs.reverse.findSome? fun doc => doc.written layout leaf).getD (v.get leaf)) ∧
        ∀ w, ∃ w', decode docs w = some w' ∧
          (v' = w' ↔
            ∀ leaf, (∀ doc ∈ docs, doc.written layout leaf = none) → v.get leaf = w.get leaf) := by
  intro decode
  have hoverrides : ∀ doc ∈ docs,
      Overrides Layout.Values.get (doc.visitAllRelease layout) (doc.written layout) :=
    fun doc _ => doc.visitAllRelease_overrides layout
  have hlog := overrides_replay hoverrides
  constructor
  · cases hdecode : decode docs v with
    | none =>
        obtain ⟨doc, hmem, hclash⟩ := (foldlM_visitAll_eq_none_iff v).mp hdecode
        exact (foldlM_visitAll_eq_none_iff v).mpr ⟨doc, List.mem_dedup.mpr hmem, hclash⟩
    | some v' =>
        cases hdedup : decode docs.dedup v with
        | none =>
            obtain ⟨doc, hmem, hclash⟩ := (foldlM_visitAll_eq_none_iff v).mp hdedup
            have hnone : decode docs v = none :=
              (foldlM_visitAll_eq_none_iff v).mpr ⟨doc, List.mem_dedup.mp hmem, hclash⟩
            exact absurd (hnone.symm.trans hdecode) (by simp)
        | some w =>
            rw [foldlM_visitAll_eq_replay hdecode, foldlM_visitAll_eq_replay hdedup,
              replay_dedup Layout.Values.ext_get hoverrides]
  · intro v' hdecode
    obtain rfl := foldlM_visitAll_eq_replay hdecode
    refine ⟨fun leaf => hlog v leaf, fun w => ?_⟩
    cases hother : decode docs w with
    | none =>
        have hnone : decode docs v = none :=
          (foldlM_visitAll_eq_none_iff v).mpr ((foldlM_visitAll_eq_none_iff w).mp hother)
        exact absurd (hnone.symm.trans hdecode) (by simp)
    | some w' =>
        refine ⟨w', rfl, ?_⟩
        rw [foldlM_visitAll_eq_replay hother, hlog.eq_iff Layout.Values.ext_get]
        simp only [List.findSome?_eq_none_iff, List.mem_reverse]

end Sekkeizu.BsonReflection
