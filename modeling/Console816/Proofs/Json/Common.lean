import Console816.Proofs.Json.Record

namespace Console816.Json

-- Whether a name is the same with and without escapes.
def isPlain (name : String) : Bool := name.toList.all fun char => char.isLower || char == '_'

-- What printers and readers of JSON agree on without regard to their options: no literals but
-- natural numbers of 64 bits and the three words, and objects whose names differ and are plain.
inductive Common : Json → Prop
  | null : Common null
  | bool (value : Bool) : Common (bool value)
  | nat {value : Nat} (hfits : value < UInt64.size) : Common (nat value)
  | array {items : List Json} (hitems : ∀ item ∈ items, Common item) : Common (array items)
  | record {fields : List (String × Json)}
      (hplain : ∀ field ∈ fields, isPlain field.1 = true)
      (hnodup : (fields.map (·.1)).Nodup) (hvalues : ∀ field ∈ fields, Common field.2) :
      Common (record fields)

theorem Common.writable {document : Json} (hcommon : document.Common) : document.Writable := by
  induction hcommon with
  | null => exact .null
  | bool value => exact .bool value
  | nat _ => exact .integer false _
  | array _ ih => exact .array ih
  | record _ _ _ ih => exact writable_record ih

section Values

variable {α : Type} {item : α → Json}

theorem common_ofByte (byte : UInt8) : (ofByte byte).Common :=
  .nat (byte.toNat_lt.trans (by decide))

theorem common_uint16 (word : UInt16) : (nat word.toNat).Common :=
  .nat (word.toNat_lt.trans (by decide))

theorem common_uint32 (word : UInt32) : (nat word.toNat).Common :=
  .nat (word.toNat_lt.trans (by decide))

theorem common_uint64 (word : UInt64) : (nat word.toNat).Common := .nat word.toNat_lt

theorem common_items (hitem : ∀ value, (item value).Common) (values : List α) :
    (array (values.map item)).Common := by
  refine .array ?_
  intro document hmem
  obtain ⟨value, -, rfl⟩ := List.mem_map.mp hmem
  exact hitem value

theorem common_ofByteArray (data : ByteArray) : (ofByteArray data).Common :=
  common_items common_ofByte data.data.toList

theorem common_ofVector {count : Nat} (hitem : ∀ value, (item value).Common)
    (values : Vector α count) : (ofVector item values).Common :=
  common_items hitem values.toList

theorem common_ofOption (hitem : ∀ value, (item value).Common) (value : Option α) :
    (ofOption item value).Common := by
  cases value with
  | none => exact .null
  | some value => exact hitem value

end Values

end Console816.Json
