/-
# Sekkeizu.Bson.Reflection — `bson_reflection_struct`: layouts, documents, decoding and encoding.

A reflected struct is a list of named references, walked twice by templates over the index of the field:
`visit_all` hands every element of a document to one of three walks over the fields (`check_and_store`,
`check_and_store_string`, `check_and_recurse`), and `serialize` appends the fields to a document. Which
branch is instantiated for a field is decided by its type at compile time, so the type of the struct is
data of the model: a `Layout`, and the values of the fields are a family of types over it.

Modelling choices:

* The three walks share their recursion (`walk`) and differ in the branch they take for a field
  (`Check`). A failed `assert` makes the result `none`. The walks return `true` whatever they find, so
  a visit never stops the iteration; the return value is left out.
* `serialize_impl` compares `std::decay_t<std::tuple_element<I, …>>` with the field types. That alias is
  modelled as the class it is (`CppType.tupleElement`), and a branch that is ill-formed for the field it is
  instantiated with gives `none`: there is no program.
* A `double` is a value of any type; the conversions to and from it are operations of `DoubleConversions`.
* Bytes are `UInt8`. The constant `StringLiteral::hash` of a name is `hash_of_c_string` of it, and `char` is
  signed.
* Of the elements of a document only the six kinds with a visitor are distinguished; libbson passes over the
  others (`Element.other`).
-/
import Mathlib.Tactic.Common

namespace Sekkeizu.BsonReflection

/-- The bytes of a string. For a C string, what is before the terminating NUL. -/
abbrev Bytes := List UInt8

/-! ## `hash_of_c_string` -/

/-- One turn of the loop: `char` is signed, so the byte is sign-extended before the exclusive or. -/
def hashByte (hash : UInt32) (c : UInt8) : UInt32 :=
  (hash ^^^ c.toInt8.toInt32.toUInt32) * 16777619

/-- The loop, which ends at the first NUL. -/
def hashFrom (hash : UInt32) : Bytes → UInt32
  | [] => hash
  | c :: str => if c = 0 then hash else hashFrom (hashByte hash c) str

def hashOfCString (str : Bytes) : UInt32 := hashFrom 2166136261 str

/-! ## Layouts and values -/

mutual

/-- The type of a field. -/
inductive FieldType where
  | double
  | string
  | bool
  | int32
  | int64
  /-- Another reflected struct. -/
  | document (layout : Layout)

/-- The fields of a reflected struct, at least one. -/
inductive Layout where
  | last (name : Bytes) (type : FieldType)
  | field (name : Bytes) (type : FieldType) (rest : Layout)

end

mutual

/-- What a field of this type holds. -/
inductive FieldType.Value (double : Type) : FieldType → Type where
  | double (v : double) : FieldType.Value double .double
  | string (v : Bytes) : FieldType.Value double .string
  | bool (v : Bool) : FieldType.Value double .bool
  | int32 (v : Int32) : FieldType.Value double .int32
  | int64 (v : Int64) : FieldType.Value double .int64
  | document {layout : Layout} (v : Layout.Values double layout) : FieldType.Value double (.document layout)

/-- What the fields refer to. -/
inductive Layout.Values (double : Type) : Layout → Type where
  | last {name : Bytes} {type : FieldType} (v : FieldType.Value double type) :
      Layout.Values double (.last name type)
  | field {name : Bytes} {type : FieldType} {rest : Layout} (v : FieldType.Value double type)
      (vs : Layout.Values double rest) : Layout.Values double (.field name type rest)

end

/-- `MemberTypes...`. -/
def Layout.memberTypes : Layout → List FieldType
  | .last _ type => [type]
  | .field _ type rest => type :: rest.memberTypes

def Layout.memberNames : Layout → List Bytes
  | .last name _ => [name]
  | .field name _ rest => name :: rest.memberNames

/-! ## Documents -/

/-- A value of one of the four arithmetic kinds. -/
inductive Scalar (double : Type) where
  | double (v : double)
  | bool (v : Bool)
  | int32 (v : Int32)
  | int64 (v : Int64)

mutual

inductive Element (double : Type) where
  | scalar (v : Scalar double)
  | utf8 (v : Bytes)
  | document (v : Document double)
  /-- An element of a kind without a visitor. -/
  | other

inductive Document (double : Type) where
  | empty
  | cons (key : Bytes) (element : Element double) (rest : Document double)

end

/-- The elements with their keys, in order. -/
def Document.elements {double : Type} : Document double → List (Bytes × Element double)
  | .empty => []
  | .cons key element rest => (key, element) :: rest.elements

/-- `bson_append`: the element goes to the end. -/
def Document.append {double : Type} (key : Bytes) (element : Element double) :
    Document double → Document double
  | .empty => .cons key element .empty
  | .cons key' element' rest => .cons key' element' (rest.append key element)

/-- The conversions of `double`. -/
class DoubleConversions (double : Type) where
  toBool : double → Bool
  toInt32 : double → Int32
  toInt64 : double → Int64
  ofBool : Bool → double
  ofInt32 : Int32 → double
  ofInt64 : Int64 → double

section Conversions

variable {double : Type} [DoubleConversions double]

namespace Scalar

def toDouble : Scalar double → double
  | .double v => v
  | .bool v => DoubleConversions.ofBool v
  | .int32 v => DoubleConversions.ofInt32 v
  | .int64 v => DoubleConversions.ofInt64 v

def toBool : Scalar double → Bool
  | .double v => DoubleConversions.toBool v
  | .bool v => v
  | .int32 v => v != 0
  | .int64 v => v != 0

def toInt32 : Scalar double → Int32
  | .double v => DoubleConversions.toInt32 v
  | .bool v => if v then 1 else 0
  | .int32 v => v
  | .int64 v => v.toInt32

def toInt64 : Scalar double → Int64
  | .double v => DoubleConversions.toInt64 v
  | .bool v => if v then 1 else 0
  | .int32 v => v.toInt64
  | .int64 v => v

end Scalar

/-- The implicit conversion to the type of a field, where `std::is_convertible_v` says there is one. -/
def FieldType.ofScalar (v : Scalar double) : (type : FieldType) → Option (type.Value double)
  | .double => some (.double v.toDouble)
  | .bool => some (.bool v.toBool)
  | .int32 => some (.int32 v.toInt32)
  | .int64 => some (.int64 v.toInt64)
  | .string => none
  | .document _ => none

end Conversions

/-! ## Decoding -/

section Decoding

variable {double : Type} [DoubleConversions double]

/-- What a walk does at a field. -/
inductive Check (α : Type) where
  /-- It ends here, with this value in the field. -/
  | store (v : α)
  /-- It goes on. -/
  | next
  /-- An `assert` fails. -/
  | fail

/-- The recursion over the index. A walk that comes to the end has changed nothing. -/
def walk (check : Bytes → (type : FieldType) → type.Value double → Check (type.Value double)) :
    (layout : Layout) → layout.Values double → Option (layout.Values double)
  | .last name type, .last v =>
    match check name type v with
    | .store v' => some (.last v')
    | .next => some (.last v)
    | .fail => none
  | .field name type rest, .field v vs =>
    match check name type v with
    | .store v' => some (.field v' vs)
    | .next => (walk check rest vs).map (.field v)
    | .fail => none

/-- A convertible field with this hash is stored to; any other field must not have it. -/
def checkAndStore (v : Scalar double) (hash : UInt32) :
    (layout : Layout) → layout.Values double → Option (layout.Values double) :=
  walk fun name type _ =>
    match type.ofScalar v with
    | some v' => if hashOfCString name = hash then .store v' else .next
    -- "Matching key is not the same type"
    | none => if hashOfCString name ≠ hash then .next else .fail

def checkAndStoreString (data : Bytes) (hash : UInt32) :
    (layout : Layout) → layout.Values double → Option (layout.Values double) :=
  walk fun name type _ =>
    match type with
    | .string => if hashOfCString name = hash then .store (.string data) else .next
    | _ => if hashOfCString name ≠ hash then .next else .fail

/-- The first reflected field gets the document, whatever its name. -/
def checkAndRecurse
    (visitAll : (layout : Layout) → layout.Values double → Option (layout.Values double))
    (hash : UInt32) : (layout : Layout) → layout.Values double → Option (layout.Values double) :=
  walk fun name type v =>
    match type, v with
    | .document layout, .document v =>
      -- the hash is not looked at
      match visitAll layout v with
      | some v' => .store (.document v')
      | none => .fail
    | _, _ => if hashOfCString name ≠ hash then .next else .fail

mutual

/-- `visit_double`, `visit_bool`, `visit_int32`, `visit_int64`, `visit_utf8` and `visit_document`. -/
def Element.visit (key : Bytes) :
    Element double → (layout : Layout) → layout.Values double → Option (layout.Values double)
  | .scalar v => checkAndStore v (hashOfCString key)
  | .utf8 data => checkAndStoreString data (hashOfCString key)
  | .document doc => checkAndRecurse (fun layout v => doc.visitAll layout v) (hashOfCString key)
  | .other => fun _ v => some v

/-- `visit_all`: the elements in their order. -/
def Document.visitAll :
    Document double → (layout : Layout) → layout.Values double → Option (layout.Values double)
  | .empty, _, v => some v
  | .cons key element rest, layout, v => (element.visit key layout v).bind (rest.visitAll layout)

end

end Decoding

/-! ## Encoding -/

/-- The types that `serialize_impl` compares. -/
inductive CppType where
  | double
  | string
  | bool
  | int32
  | int64
  /-- The class `std::tuple_element<index, std::tuple<members...>>`. -/
  | tupleElement (index : Nat) (members : List FieldType)

/-- The branches of `serialize_impl`. -/
inductive Branch where
  | appendDouble
  | appendUtf8
  | appendBool
  | appendInt32
  | appendInt64
  | appendDocument
  deriving DecidableEq, Repr

/-- `using type = std::decay_t<std::tuple_element<I, std::tuple<MemberTypes...>>>`. It has no `_t` or `::type`,
so it is the class, which `std::decay_t` leaves as it is. -/
def serializeType (index : Nat) (members : List FieldType) : CppType := .tupleElement index members

/-- The chain of `if constexpr (std::is_same_v<type, …>)`. -/
def dispatch : CppType → Branch
  | .double => .appendDouble
  | .string => .appendUtf8
  | .bool => .appendBool
  | .int32 => .appendInt32
  | .int64 => .appendInt64
  | .tupleElement .. => .appendDocument

section Encoding

variable {double : Type} [DoubleConversions double]

/-- The branch instantiated with an arithmetic field, which converts to the parameter of four of them. -/
def Branch.ofScalar (v : Scalar double) : Branch → Option (Element double)
  | .appendDouble => some (.scalar (.double v.toDouble))
  | .appendBool => some (.scalar (.bool v.toBool))
  | .appendInt32 => some (.scalar (.int32 v.toInt32))
  | .appendInt64 => some (.scalar (.int64 v.toInt64))
  | .appendUtf8 => none
  | .appendDocument => none

/-- The branch instantiated with a string, of which `c_str()` is read up to the first NUL. -/
def Branch.ofString (v : Bytes) : Branch → Option (Element double)
  | .appendUtf8 => some (.utf8 (v.takeWhile (· ≠ 0)))
  | _ => none

mutual

/-- The element a branch appends for a field of this type. -/
def FieldType.Value.element (branch : Branch) :
    {type : FieldType} → type.Value double → Option (Element double)
  | _, .double v => branch.ofScalar (.double v)
  | _, .bool v => branch.ofScalar (.bool v)
  | _, .int32 v => branch.ofScalar (.int32 v)
  | _, .int64 v => branch.ofScalar (.int64 v)
  | _, .string v => branch.ofString v
  | .document layout, .document v =>
    match branch with
    -- `std::get<I>(_refs).template serialize_impl<0>(&child)`
    | .appendDocument => (v.serializeImpl layout.memberTypes 0 .empty).map .document
    | _ => none

/-- The fields from `index` on. -/
def Layout.Values.serializeImpl (members : List FieldType) (index : Nat) :
    {layout : Layout} → layout.Values double → Document double → Option (Document double)
  | .last name _, .last v, doc =>
    (v.element (dispatch (serializeType index members))).map fun element => doc.append name element
  | .field name _ _, .field v vs, doc =>
    (v.element (dispatch (serializeType index members))).bind fun element =>
      vs.serializeImpl members (index + 1) (doc.append name element)

end

/-- `serialize`; `none` when it does not compile. -/
def Layout.Values.serialize {layout : Layout} (v : layout.Values double) :
    Option (Document double) :=
  v.serializeImpl layout.memberTypes 0 .empty

end Encoding

end Sekkeizu.BsonReflection
