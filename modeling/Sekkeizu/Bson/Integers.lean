/-
# Sekkeizu.Bson.Integers — what an integer field holds after a visit.

`check_and_store` stores an element where its type converts to the type of the field, and every arithmetic
type converts to every other. A `bool`, `int32_t` or `int64_t` element is stored to the field of its name
whichever of the three types that field has. The assignment keeps the integer when the type of the field
can represent it (`converted_eq_iff`) and reduces it otherwise (`wide_integer_is_truncated`). The assertion
for keys "not the same type" is in the branch that is not taken.
-/
import Sekkeizu.Semantics.Lists
import Sekkeizu.Bson.Embedded
import Sekkeizu.Bson.Flat

namespace Sekkeizu.BsonReflection

variable {double : Type}

/-! ## Integers -/

/-- A value of one of the three integer kinds, as an integer. -/
def Scalar.integer : Scalar double → Option Int
  | .double _ => none
  | .bool v => some v.toNat
  | .int32 v => some v.toInt
  | .int64 v => some v.toInt

def Element.integer : Element double → Option Int
  | .scalar v => v.integer
  | _ => none

/-- What a field of one of the three integer types holds, as an integer. -/
def FieldType.Value.integer : {type : FieldType} → type.Value double → Option Int
  | _, .double _ => none
  | _, .string _ => none
  | _, .bool v => some v.toNat
  | _, .int32 v => some v.toInt
  | _, .int64 v => some v.toInt
  | _, .document _ => none

/-- What the fields hold, in their order. -/
def Layout.Values.integers : {layout : Layout} → layout.Values double → List (Option Int)
  | .last _ _, .last v => [v.integer]
  | .field _ _ _, .field v vs => v.integer :: vs.integers

/-- One of the three integer types. -/
def FieldType.Integer (type : FieldType) : Prop := type = .bool ∨ type = .int32 ∨ type = .int64

/-- The integers a type represents. -/
def FieldType.InRange (type : FieldType) (n : Int) : Prop :=
  match type with
  | .bool => n = 0 ∨ n = 1
  | .int32 => -2147483648 ≤ n ∧ n < 2147483648
  | .int64 => -9223372036854775808 ≤ n ∧ n < 9223372036854775808
  | _ => False

/-- All fields are integers. -/
def Layout.Integers (layout : Layout) : Prop := ∀ type ∈ layout.memberTypes, type.Integer

/-- All elements are integers. -/
def Document.Integers (doc : Document double) : Prop :=
  ∀ entry ∈ doc.elements, entry.2.integer.isSome = true

/-- Every element with the name of a field is in the range of its type. Of several fields of one name, this
is about the first. -/
def Document.InRange (layout : Layout) (doc : Document double) : Prop :=
  ∀ entry ∈ doc.elements, ∀ type ∈ layout.members.lookup entry.1, ∀ n ∈ entry.2.integer, type.InRange n

/-! ## The fields of a name -/

theorem Layout.Values.length_integers :
    {layout : Layout} → (v : layout.Values double) → v.integers.length = layout.memberNames.length
  | .last _ _, .last _ => rfl
  | .field _ _ _, .field _ vs => by
      rw [integers, Layout.memberNames, List.length_cons, List.length_cons, vs.length_integers]

theorem Layout.map_fst_members (layout : Layout) :
    layout.members.map Prod.fst = layout.memberNames := by
  cases layout with
  | last name type => rfl
  | field name type rest => exact congrArg (name :: ·) rest.map_fst_members

theorem Layout.map_snd_members (layout : Layout) :
    layout.members.map Prod.snd = layout.memberTypes := by
  cases layout with
  | last name type => rfl
  | field name type rest => exact congrArg (type :: ·) rest.map_snd_members

theorem Layout.mem_of_lookup {key : Bytes} {type : FieldType} (layout : Layout)
    (h : layout.members.lookup key = some type) : key ∈ layout.memberNames ∧ type ∈ layout.memberTypes := by
  obtain ⟨before, after, hsplit, -⟩ := List.lookup_eq_some_iff.mp h
  have hmem : (key, type) ∈ layout.members := by
    rw [hsplit]
    exact List.mem_append_right _ List.mem_cons_self
  rw [← layout.map_fst_members, ← layout.map_snd_members]
  exact ⟨List.mem_map_of_mem hmem, List.mem_map_of_mem hmem⟩

theorem Layout.notMem_of_lookup {key : Bytes} (layout : Layout)
    (h : layout.members.lookup key = none) : key ∉ layout.memberNames := by
  rw [← layout.map_fst_members]
  intro hmem
  obtain ⟨member, hmember, rfl⟩ := List.mem_map.mp hmem
  have hne := List.lookup_eq_none_iff.mp h member hmember
  simp at hne

/-! ## One conversion -/

variable [DoubleConversions double]

/-- The integer that a field of this type holds when the value is stored to it. -/
def FieldType.converted (v : Scalar double) (type : FieldType) : Option Int :=
  (type.ofScalar v).bind FieldType.Value.integer

theorem exists_ofScalar {type : FieldType} (htype : type.Integer) (v : Scalar double) :
    ∃ x, type.ofScalar v = some x := by
  obtain rfl | rfl | rfl := htype
  · exact ⟨_, rfl⟩
  · exact ⟨_, rfl⟩
  · exact ⟨_, rfl⟩

/-- An integer that is converted to `bool`. -/
theorem toNat_ne_zero_eq_iff {n : Int} {nonzero : Bool} (h : nonzero = true ↔ n ≠ 0) :
    (nonzero.toNat : Int) = n ↔ n = 0 ∨ n = 1 := by
  cases nonzero with
  | false =>
      have hzero : n = 0 := not_not.mp (mt h.mpr Bool.false_ne_true)
      simp [hzero]
  | true =>
      have hnonzero : n ≠ 0 := h.mp rfl
      simp [hnonzero, eq_comm]

/-- An integer that is reduced to 32 bits. -/
theorem bmod_eq_self_iff_inRange {n : Int} : n.bmod 4294967296 = n ↔ FieldType.int32.InRange n := by
  rw [Int.bmod_eq_iff (by decide), FieldType.InRange]
  omega

theorem Int32.inRange (v : Int32) : FieldType.int32.InRange v.toInt := ⟨v.le_toInt, v.toInt_lt⟩

theorem Int64.inRange (v : Int64) : FieldType.int64.InRange v.toInt := ⟨v.le_toInt, v.toInt_lt⟩

/-- **The three conversions** keep exactly the integers that the type represents. -/
theorem converted_eq_iff {type : FieldType} (htype : type.Integer) {v : Scalar double} {n : Int}
    (hv : v.integer = some n) : type.converted v = some n ↔ type.InRange n := by
  obtain rfl | rfl | rfl := htype
  · -- to `bool`: whether it is zero
    have hconverted : FieldType.bool.converted v = some (v.toBool.toNat : Int) := rfl
    rw [hconverted, Option.some_inj]
    apply toNat_ne_zero_eq_iff
    cases v with
    | double v => cases hv
    | bool v =>
        obtain rfl := Option.some.inj hv
        cases v <;> simp [Scalar.toBool]
    | int32 v =>
        obtain rfl := Option.some.inj hv
        simp [Scalar.toBool, ← Int32.toInt_inj]
    | int64 v =>
        obtain rfl := Option.some.inj hv
        simp [Scalar.toBool, ← Int64.toInt_inj]
  · -- to `int32_t`: the low 32 bits
    have hconverted : FieldType.int32.converted v = some v.toInt32.toInt := rfl
    rw [hconverted, Option.some_inj]
    cases v with
    | double v => cases hv
    | bool v =>
        obtain rfl := Option.some.inj hv
        exact iff_of_true (by cases v <;> rfl) (by cases v <;> simp [FieldType.InRange])
    | int32 v =>
        obtain rfl := Option.some.inj hv
        exact iff_of_true rfl (Int32.inRange v)
    | int64 v =>
        obtain rfl := Option.some.inj hv
        rw [Scalar.toInt32, Int64.toInt_toInt32]
        exact bmod_eq_self_iff_inRange
  · -- to `int64_t`: the same integer
    have hconverted : FieldType.int64.converted v = some v.toInt64.toInt := rfl
    rw [hconverted, Option.some_inj]
    cases v with
    | double v => cases hv
    | bool v =>
        obtain rfl := Option.some.inj hv
        exact iff_of_true (by cases v <;> rfl) (by cases v <;> simp [FieldType.InRange])
    | int32 v =>
        obtain rfl := Option.some.inj hv
        have hsame : (Scalar.int32 v : Scalar double).toInt64.toInt = v.toInt := Int32.toInt_toInt64 v
        exact iff_of_true hsame (hsame ▸ Int64.inRange v.toInt64)
    | int64 v =>
        obtain rfl := Option.some.inj hv
        exact iff_of_true rfl (Int64.inRange v)

/-! ## One visit -/

/-- A convertible field with another hash is passed. -/
theorem checkAndStore_field {v : Scalar double} {hash : UInt32} {name : Bytes} {type : FieldType}
    {rest : Layout} {x : type.Value double} (hx : type.ofScalar v = some x)
    (hname : hashOfCString name ≠ hash) (before : type.Value double) (others : rest.Values double) :
    checkAndStore v hash (.field name type rest) (.field before others) =
      (checkAndStore v hash rest others).map (.field before) := by
  rw [checkAndStore, walk, hx]
  simp only [if_neg hname]

/-- **The walk of an integer** ends at the first field of its name, which then holds the integer as its type
represents it. -/
theorem checkAndStore_integers {v : Scalar double} {key : Bytes} :
    {layout : Layout} → layout.Integers → layout.NoCollision key → (before : layout.Values double) →
      ∃ after, checkAndStore v (hashOfCString key) layout before = some after ∧
        after.integers = before.integers.set (layout.memberNames.idxOf key)
          ((layout.members.lookup key).bind (FieldType.converted v))
  | .last name type, hintegers, hfree, .last before => by
      obtain ⟨x, hx⟩ := exists_ofScalar (hintegers type List.mem_cons_self) v
      by_cases hname : name = key
      · subst hname
        refine ⟨.last x, ?_, ?_⟩
        · simp [checkAndStore, walk, hx]
        · simp [Layout.Values.integers, Layout.memberNames, Layout.members, FieldType.converted, hx]
      · have hhash : hashOfCString name ≠ hashOfCString key :=
          hfree.hash_ne (List.mem_singleton.mpr rfl) hname
        have hkey : (name == key) = false := beq_false_of_ne hname
        refine ⟨.last before, ?_, ?_⟩
        · simp [checkAndStore, walk, hx, hhash]
        · simp [Layout.Values.integers, Layout.memberNames, List.idxOf_cons, hkey]
  | .field name type rest, hintegers, hfree, .field before others => by
      obtain ⟨x, hx⟩ := exists_ofScalar (hintegers type List.mem_cons_self) v
      by_cases hname : name = key
      · subst hname
        refine ⟨.field x others, ?_, ?_⟩
        · simp [checkAndStore, walk, hx]
        · simp [Layout.Values.integers, Layout.memberNames, Layout.members, FieldType.converted, hx]
      · have hhash : hashOfCString name ≠ hashOfCString key := hfree.hash_ne List.mem_cons_self hname
        have hkey : (name == key) = false := beq_false_of_ne hname
        have hkey' : (key == name) = false := beq_false_of_ne (Ne.symm hname)
        obtain ⟨after, hafter, hset⟩ := checkAndStore_integers (v := v)
          (fun type hmem => hintegers type (List.mem_cons_of_mem _ hmem)) hfree.rest others
        refine ⟨.field before after, ?_, ?_⟩
        · rw [checkAndStore_field hx hhash, hafter, Option.map_some]
        · simp [Layout.Values.integers, Layout.memberNames, Layout.members, List.idxOf_cons, hkey,
            List.lookup_cons, hkey', hset]

/-- **One element.** The first field of its name holds its integer, and every other field holds what it
held. Where there is no field of its name, none is touched. -/
def Element.Keeps (key : Bytes) (element : Element double) {layout : Layout}
    (before after : layout.Values double) : Prop :=
  after.integers = before.integers.set (layout.memberNames.idxOf key) element.integer

/-- **One visit** keeps the integer of its element exactly when the field it goes to can. -/
theorem visit_keeps_iff {layout : Layout} (hintegers : layout.Integers) {key : Bytes}
    (hfree : layout.NoCollision key) {element : Element double} (helement : element.integer.isSome = true)
    (before : layout.Values double) :
    ∃ after, element.visit key layout before = some after ∧
      (element.Keeps key before after ↔
        ∀ type ∈ layout.members.lookup key, ∀ n ∈ element.integer, type.InRange n) := by
  cases element with
  | utf8 data => cases helement
  | document doc => cases helement
  | other => cases helement
  | scalar v =>
      obtain ⟨n, hn⟩ := Option.isSome_iff_exists.mp helement
      obtain ⟨after, hvisit, hafter⟩ := checkAndStore_integers (v := v) hintegers hfree before
      refine ⟨after, hvisit, ?_⟩
      rw [Element.Keeps, hafter, hn]
      cases hlookup : layout.members.lookup key with
      | none =>
          -- no field has this name: the position is past the last field
          have habsent : key ∉ layout.memberNames := layout.notMem_of_lookup hlookup
          have hpast : before.integers.length ≤ layout.memberNames.idxOf key :=
            Nat.le_of_eq (before.length_integers.trans (List.idxOf_eq_length habsent).symm)
          rw [List.set_eq_of_length_le hpast, List.set_eq_of_length_le hpast]
          refine iff_of_true rfl ?_
          intro type htype
          cases htype
      | some type =>
          obtain ⟨hname, htype⟩ := layout.mem_of_lookup hlookup
          have hfield : layout.memberNames.idxOf key < before.integers.length := by
            rw [before.length_integers]
            exact List.idxOf_lt_length_of_mem hname
          rw [List.set_inj_of_lt hfield, Option.bind_some, converted_eq_iff (hintegers type htype) hn]
          simp

/-! ## Whole documents -/

/-- **No integer is corrupted** on the way through a document: every visit keeps the integer of its
element. -/
def Document.Keeps {layout : Layout} : Document double → layout.Values double → Prop
  | .empty, _ => True
  | .cons key element rest, before =>
    ∃ after, element.visit key layout before = some after ∧ element.Keeps key before after ∧
      rest.Keeps after

/-- What a document that keeps every integer leaves: one store after the other. -/
theorem Document.Keeps.visitAll {layout : Layout} :
    {doc : Document double} → {before : layout.Values double} → doc.Keeps before →
      ∃ after, doc.visitAll layout before = some after ∧
        after.integers = doc.elements.foldl
          (fun integers entry => integers.set (layout.memberNames.idxOf entry.1) entry.2.integer)
          before.integers
  | .empty, before, _ => ⟨before, rfl, rfl⟩
  | .cons key element rest, before, hkeeps => by
      obtain ⟨between, hvisit, hkept, hrest⟩ := hkeeps
      obtain ⟨after, hafter, hintegers⟩ := hrest.visitAll
      refine ⟨after, ?_, ?_⟩
      · rw [Document.visitAll, hvisit, Option.bind_some, hafter]
      · rw [hintegers, hkept, Document.elements, List.foldl_cons]

/-- **Decoding keeps integers** exactly when every integer is in the range of the field it goes to. -/
theorem decoding_keeps_integers_iff {layout : Layout} (hintegers : layout.Integers) :
    (doc : Document double) → doc.Integers → (∀ key ∈ doc.keys, layout.NoCollision key) →
      (before : layout.Values double) → (doc.Keeps before ↔ doc.InRange layout)
  | .empty, _, _, _ => by simp [Document.Keeps, Document.InRange, Document.elements]
  | .cons key element rest, hdoc, hfree, before => by
      obtain ⟨helement, hrest⟩ := List.forall_mem_cons.mp hdoc
      obtain ⟨hkey, hkeys⟩ := List.forall_mem_cons.mp hfree
      obtain ⟨after, hvisit, hkeeps⟩ := visit_keeps_iff hintegers hkey helement before
      have hothers := decoding_keeps_integers_iff hintegers rest hrest hkeys after
      have hsplit : (Document.cons key element rest).InRange layout ↔
          (∀ type ∈ layout.members.lookup key, ∀ n ∈ element.integer, type.InRange n) ∧
            rest.InRange layout := by
        simp only [Document.InRange, Document.elements, List.forall_mem_cons]
      rw [hsplit, Document.Keeps, ← hkeeps, ← hothers]
      constructor
      · rintro ⟨after', hvisit', hkept, hrest⟩
        obtain rfl : after = after' := Option.some.inj (hvisit.symm.trans hvisit')
        exact ⟨hkept, hrest⟩
      · rintro ⟨hkept, hrest⟩
        exact ⟨after, hvisit, hkept, hrest⟩

/-- A flag, a count and an identifier, each stored from an element of another type. -/
theorem decoding_keeps_integers_iff_other_types :
    let layout : Layout := .field [97] .bool (.field [98] .int32 (.last [99] .int64))
    let doc : Document Int := .cons [98] (.scalar (.int64 (-7))) (.cons [97] (.scalar (.int32 1))
      (.cons [99] (.scalar (.bool true)) .empty))
    doc.Keeps (.field (.bool false) (.field (.int32 0) (.last (.int64 0))) : layout.Values Int) := by
  intro layout doc
  apply (decoding_keeps_integers_iff ?_ doc ?_ ?_ _).mpr
  · simp [doc, Document.InRange, Document.elements, Layout.members, Element.integer, Scalar.integer,
      FieldType.InRange, List.lookup_cons]
  · simp [Layout.Integers, Layout.memberTypes, FieldType.Integer]
  · simp [doc, Document.Integers, Document.elements, Element.integer, Scalar.integer]
  · simp only [doc, Document.keys, Layout.NoCollision, Layout.memberNames]
    decide

/-- **An `int64` element in an `int32_t` field**: `2 ^ 32 + 5` goes in and `5` is held. The branch of the
assertion about keys of another type is not instantiated. -/
theorem wide_integer_is_truncated :
    let layout : Layout := .last [97] .int32
    let doc : Document Int := .cons [97] (.scalar (.int64 4294967301)) .empty
    let before : layout.Values Int := .last (.int32 0)
    layout.Integers ∧ doc.Integers ∧ (∀ key ∈ doc.keys, layout.NoCollision key) ∧
      doc.visitAll layout before = some (.last (.int32 5)) ∧ ¬ doc.Keeps before := by
  intro layout doc before
  have hvisit : (Element.scalar (.int64 4294967301) : Element Int).visit [97] layout before =
      some (.last (.int32 5)) := by
    simp [layout, before, Element.visit, checkAndStore, walk, FieldType.ofScalar, Scalar.toInt32]
  refine ⟨?_, ?_, ?_, ?_, ?_⟩
  · simp [layout, Layout.Integers, Layout.memberTypes, FieldType.Integer]
  · simp [doc, Document.Integers, Document.elements, Element.integer, Scalar.integer]
  · simp [doc, layout, Document.keys, Layout.NoCollision, Layout.memberNames]
  · rw [Document.visitAll, hvisit]
    rfl
  · rintro ⟨after, hafter, hkept, -⟩
    obtain rfl := Option.some.inj (hvisit.symm.trans hafter)
    have hheld : [some (5 : Int)] = [some 4294967301] := hkept
    exact absurd hheld (by decide)

end Sekkeizu.BsonReflection
