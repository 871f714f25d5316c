/-
# Sekkeizu.Bson.Hashes — names that cannot collide.

Decoding compares hashes, so which names share a struct safely is a matter of `hash_of_c_string`. Its turns
can be taken back: the multiplier is odd, the exclusive or undoes itself, and the sign extension loses nothing
(`hashByte_left_inj`, `hashByte_right_inj`). Hence strings that end alike collide exactly when they already do
before the common end, and strings that differ in one byte never do. A struct whose names differ in
one byte therefore decodes what is sent to its fields by their names, without a word on their hashes; only a key
of the document that is no field's name can still collide (`siblings_decoded_by_name`).
-/
import Sekkeizu.Bson.Flat
import Mathlib.Data.List.Nodup

namespace Sekkeizu.BsonReflection

/-! ## One turn -/

/-- The multiplier has an inverse. -/
theorem multiplier_mul_inverse : (16777619 : UInt32) * 899433627 = 1 := by decide

theorem hashByte_left_inj {hash hash' : UInt32} (c : UInt8) :
    hashByte hash c = hashByte hash' c ↔ hash = hash' := by
  refine ⟨fun h => ?_, fun h => by rw [h]⟩
  have hxor := congrArg (· * (899433627 : UInt32)) h
  simp only [hashByte, UInt32.mul_assoc, multiplier_mul_inverse, UInt32.mul_one] at hxor
  exact (UInt32.xor_left_inj _).mp hxor

theorem signExtend_inj {c d : UInt8} (h : c.toInt8.toInt32.toUInt32 = d.toInt8.toInt32.toUInt32) : c = d := by
  have hnarrow := congrArg (fun word : UInt32 => word.toInt32.toInt8.toUInt8) h
  simpa using hnarrow

theorem hashByte_right_inj {c d : UInt8} (hash : UInt32) : hashByte hash c = hashByte hash d ↔ c = d := by
  refine ⟨fun h => ?_, fun h => by rw [h]⟩
  have hxor := congrArg (· * (899433627 : UInt32)) h
  simp only [hashByte, UInt32.mul_assoc, multiplier_mul_inverse, UInt32.mul_one] at hxor
  exact signExtend_inj ((UInt32.xor_right_inj _).mp hxor)

/-! ## Strings -/

/-- What follows a string without NUL goes on from its hash. -/
theorem hashFrom_append {str : Bytes} (hnul : 0 ∉ str) (hash : UInt32) (rest : Bytes) :
    hashFrom hash (str ++ rest) = hashFrom (hashFrom hash str) rest := by
  induction str generalizing hash with
  | nil => rfl
  | cons c str ih =>
      obtain ⟨hc, hstr⟩ := not_or.mp (List.mem_cons.not.mp hnul)
      rw [List.cons_append, hashFrom, hashFrom, if_neg (Ne.symm hc), if_neg (Ne.symm hc), ih hstr]

/-- **The loop loses nothing of the hash it starts from.** -/
theorem hashFrom_inj {hash hash' : UInt32} (str : Bytes) :
    hashFrom hash str = hashFrom hash' str ↔ hash = hash' := by
  induction str generalizing hash hash' with
  | nil => rfl
  | cons c str ih =>
      rw [hashFrom, hashFrom]
      split
      · rfl
      · rw [ih, hashByte_left_inj]

/-- **A common end** neither makes nor undoes a collision. -/
theorem hashOfCString_append_right_inj {a b : Bytes} (ha : 0 ∉ a) (hb : 0 ∉ b) (rest : Bytes) :
    hashOfCString (a ++ rest) = hashOfCString (b ++ rest) ↔ hashOfCString a = hashOfCString b := by
  rw [hashOfCString, hashOfCString, hashFrom_append ha, hashFrom_append hb, hashFrom_inj]
  rfl

/-- **One byte of difference** is enough. -/
theorem hashOfCString_sibling_inj {before after : Bytes} (hbefore : 0 ∉ before) {c d : UInt8} (hc : c ≠ 0)
    (hd : d ≠ 0) :
    hashOfCString (before ++ c :: after) = hashOfCString (before ++ d :: after) ↔ c = d := by
  rw [hashOfCString, hashOfCString, hashFrom_append hbefore, hashFrom_append hbefore, hashFrom, hashFrom,
    if_neg hc, if_neg hd, hashFrom_inj, hashByte_right_inj]

/-- The strings are equal, or differ in one byte. -/
def Siblings (a b : Bytes) : Prop :=
  a = b ∨ ∃ before c d after, (0 ∉ before ∧ c ≠ 0 ∧ d ≠ 0) ∧ a = before ++ c :: after ∧ b = before ++ d :: after

theorem Siblings.hashOfCString_inj {a b : Bytes} (h : Siblings a b) :
    hashOfCString a = hashOfCString b ↔ a = b := by
  obtain rfl | ⟨before, c, d, after, ⟨hbefore, hc, hd⟩, rfl, rfl⟩ := h
  · exact iff_of_true rfl rfl
  · rw [hashOfCString_sibling_inj hbefore hc hd, List.append_cancel_left_eq, List.cons.injEq]
    exact ⟨fun h => ⟨h, rfl⟩, And.left⟩

/-! ## Structs -/

variable {double : Type}

theorem Document.Typed.congr {same same' : Bytes → Bool} {type : FieldType} : {doc : Document double} →
    (∀ key ∈ doc.keys, same' key = same key) → doc.Typed same type → doc.Typed same' type
  | .empty, _, _ => trivial
  | .cons key element rest, hsame, htyped => by
      refine ⟨fun hkey => htyped.1 ?_, htyped.2.congr fun key' hmem => hsame key' (List.mem_cons_of_mem _ hmem)⟩
      rwa [← hsame key List.mem_cons_self]

/-- **Sibling fields are told apart.** In a struct of scalars and strings whose names are different and differ in
one byte, no two names have one hash; and when the elements with the name of a field have its type, and the keys
that are no field's name have no field's hash: no assertion fails, and every field holds the last element with its
name. -/
theorem siblings_decoded_by_name [DoubleConversions double] {layout : Layout} (hflat : layout.Flat)
    (hnames : layout.memberNames.Nodup)
    (hsiblings : ∀ name ∈ layout.memberNames, ∀ other ∈ layout.memberNames, Siblings name other)
    {doc : Document double}
    (hforeign : ∀ key ∈ doc.keys, key ∈ layout.memberNames ∨
      ∀ name ∈ layout.memberNames, hashOfCString name ≠ hashOfCString key)
    (hfits : doc.Fits sameString layout) (v : layout.Values double) :
    (layout.memberNames.map hashOfCString).Nodup ∧
      doc.visitAll layout v = some (v.map (doc.held sameString)) := by
  have hinj : ∀ name ∈ layout.memberNames, ∀ other ∈ layout.memberNames,
      (hashOfCString name = hashOfCString other ↔ name = other) :=
    fun name hname other hother => (hsiblings name hname other hother).hashOfCString_inj
  have hsame : ∀ name ∈ layout.memberNames, ∀ key ∈ doc.keys, sameHash name key = sameString name key := by
    intro name hname key hkey
    have hiff : hashOfCString name = hashOfCString key ↔ name = key := by
      rcases hforeign key hkey with hin | hout
      · exact hinj name hname key hin
      · exact iff_of_false (hout name hname) fun heq => hout name hname (congrArg hashOfCString heq)
    rw [Bool.eq_iff_iff, sameHash, sameString, beq_iff_eq, beq_iff_eq, hiff]
  have hnodup : (layout.memberNames.map hashOfCString).Nodup :=
    List.Nodup.map_on (fun name hname other hother heq => (hinj name hname other hother).mp heq) hnames
  have hfitsHash : doc.Fits sameHash layout := fun name type hmem =>
    (hfits name type hmem).congr (hsame name (layout.fst_mem_memberNames hmem))
  refine ⟨hnodup, ?_⟩
  rw [doc.visitAll_eq_map hflat hnodup hfitsHash v]
  congr 1
  apply v.map_congr
  intro name type hmem
  funext v'
  rw [Document.held, Document.held, doc.last_congr (hsame name (layout.fst_mem_memberNames hmem))]

/-- Fields `"px"` and `"py"`, and the document `{"py": 1, "pz": 2, "px": 3}`. -/
theorem siblings_decoded_by_name_coordinates :
    let layout : Layout := .field [112, 120] .int32 (.last [112, 121] .int32)
    let doc : Document Int := .cons [112, 121] (.scalar (.int32 1)) (.cons [112, 122] (.scalar (.int32 2))
      (.cons [112, 120] (.scalar (.int32 3)) .empty))
    let v : layout.Values Int := .field (.int32 0) (.last (.int32 0))
    doc.visitAll layout v = some (v.map (doc.held sameString)) := by
  intro layout doc v
  have hflat : layout.Flat := by
    intro name inner hmem
    simp [layout, Layout.members] at hmem
  have hfits : doc.Fits sameString layout := by
    intro name type hmem
    simp only [layout, Layout.members, List.mem_cons, Prod.mk.injEq, List.not_mem_nil, or_false] at hmem
    obtain ⟨rfl, rfl⟩ | ⟨rfl, rfl⟩ := hmem <;>
      simp [doc, Document.Typed, sameString, FieldType.ofElement]
  have hnames : ∀ name ∈ layout.memberNames, ∃ c, c ≠ 0 ∧ name = [112] ++ c :: [] := by
    intro name hmem
    simp only [layout, Layout.memberNames, List.mem_cons, List.not_mem_nil, or_false] at hmem
    obtain rfl | rfl := hmem
    · exact ⟨120, by decide, rfl⟩
    · exact ⟨121, by decide, rfl⟩
  have hforeign : ∀ key ∈ doc.keys, key ∈ layout.memberNames ∨
      ∀ name ∈ layout.memberNames, hashOfCString name ≠ hashOfCString key := by
    decide
  refine (siblings_decoded_by_name hflat (by decide) ?_ hforeign hfits v).2
  intro name hname other hother
  obtain ⟨c, hc, rfl⟩ := hnames name hname
  obtain ⟨d, hd, rfl⟩ := hnames other hother
  exact Or.inr ⟨[112], c, d, [], ⟨by decide, hc, hd⟩, rfl, rfl⟩

end Sekkeizu.BsonReflection
