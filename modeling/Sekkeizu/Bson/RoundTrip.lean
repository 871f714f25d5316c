/-
# Sekkeizu.Bson.RoundTrip — serialized documents, decoded again.

`serialize` is meant to be inverted by `visit_all`. It is a template that nothing instantiates, and no
layout can: its alias `type` is a class of its own for every field (`serializeType`), so the dispatch takes
the branch of an embedded document for every field (`dispatch_serializeType`), and that branch needs a
reflected struct. Following embedded documents down, every layout comes to a field that is none
(`Layout.Values.serializeImpl_eq_none`). The decoding side compares `std::tuple_element_t` and has no such slip.
-/
import Sekkeizu.Bson.Reflection

namespace Sekkeizu.BsonReflection

variable {double : Type} [DoubleConversions double]

/-! ## The layouts and the values that should go round -/

mutual

def FieldType.WellNamed : FieldType → Prop
  | .document layout => layout.WellNamed
  | _ => True

/-- **At every level, no two names have one hash.** -/
def Layout.WellNamed : Layout → Prop
  | .last _ type => type.WellNamed
  | .field name type rest =>
    type.WellNamed ∧ rest.WellNamed ∧
      ∀ name' ∈ rest.memberNames, hashOfCString name' ≠ hashOfCString name

end

mutual

def FieldType.Value.NoNul : {type : FieldType} → type.Value double → Prop
  | _, .string v => (0 : UInt8) ∉ v
  | _, .document v => v.NoNul
  | _, .double _ | _, .bool _ | _, .int32 _ | _, .int64 _ => True

/-- **No string has an embedded NUL.** -/
def Layout.Values.NoNul : {layout : Layout} → layout.Values double → Prop
  | _, .last v => v.NoNul
  | _, .field v vs => v.NoNul ∧ vs.NoNul

end

/-- **The round trip** of these values: there is a document, and decoding it into any instance gives the
values back. -/
def Layout.Values.RoundTrips {layout : Layout} (v : layout.Values double) : Prop :=
  ∃ doc, v.serialize = some doc ∧ ∀ w, doc.visitAll layout w = some v

/-! ## The dispatch -/

/-- Every field is taken for an embedded document. -/
theorem dispatch_serializeType (index : Nat) (members : List FieldType) :
    dispatch (serializeType index members) = .appendDocument := rfl

mutual

theorem FieldType.Value.element_eq_none {type : FieldType} (v : type.Value double) :
    v.element .appendDocument = none := by
  cases v with
  | document v => rw [FieldType.Value.element, v.serializeImpl_eq_none, Option.map_none]
  | _ => rfl

/-- **No layout has an encoding**: the first field of every struct, or of the struct embedded there, or of
the one embedded in that, is not a document. -/
theorem Layout.Values.serializeImpl_eq_none {layout : Layout} (v : layout.Values double)
    (members : List FieldType) (index : Nat) (doc : Document double) :
    v.serializeImpl members index doc = none := by
  cases v with
  | last v =>
      rw [Layout.Values.serializeImpl, dispatch_serializeType, v.element_eq_none, Option.map_none]
  | field v vs =>
      rw [Layout.Values.serializeImpl, dispatch_serializeType, v.element_eq_none, Option.bind_none]

end

/-- No values of any layout go round. -/
theorem no_round_trip {layout : Layout} (v : layout.Values double) : ¬ v.RoundTrips := by
  rintro ⟨doc, hdoc, -⟩
  rw [Layout.Values.serialize, v.serializeImpl_eq_none] at hdoc
  exact absurd hdoc (by simp)

instance : DoubleConversions Int where
  toBool v := v != 0
  toInt32 := Int32.ofInt
  toInt64 := Int64.ofInt
  ofBool v := if v then 1 else 0
  ofInt32 := Int32.toInt
  ofInt64 := Int64.toInt

/-- A struct of one `int32_t` called `"a"`, with the value 5. -/
theorem int32_field_does_not_go_round :
    ¬ ∀ (layout : Layout) (v : layout.Values Int), layout.WellNamed → v.NoNul → v.RoundTrips := by
  intro h
  obtain ⟨doc, hdoc, -⟩ := h (.last [97] .int32) (.last (.int32 5)) trivial trivial
  have hnone : (Layout.Values.last (.int32 5) : (Layout.last [97] .int32).Values Int).serialize =
      none := rfl
  exact absurd (hdoc.symm.trans hnone) (by simp)

end Sekkeizu.BsonReflection
