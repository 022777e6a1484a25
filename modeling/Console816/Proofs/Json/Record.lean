import Console816.Json.Record
import Console816.Proofs.Json.RoundTrip

namespace Console816.Json

section Values

variable {α β γ : Type}

theorem natBelow?_nat {bound n : Nat} (hlt : n < bound) : (nat n).natBelow? bound = some n := by
  simp [natBelow?, nat, nat?, hlt]

theorem uint8?_ofByte (byte : UInt8) : (ofByte byte).uint8? = some byte := by
  simp [uint8?, ofByte, natBelow?_nat byte.toNat_lt]

theorem uint16?_nat (word : UInt16) : (nat word.toNat).uint16? = some word := by
  simp [uint16?, natBelow?_nat word.toNat_lt]

theorem uint32?_nat (word : UInt32) : (nat word.toNat).uint32? = some word := by
  simp [uint32?, natBelow?_nat word.toNat_lt]

theorem uint64?_nat (word : UInt64) : (nat word.toNat).uint64? = some word := by
  simp [uint64?, natBelow?_nat word.toNat_lt]

-- Reading a list part by part gives what each part gives.
theorem mapM_map {part : α → β} {read? : β → Option γ} {result : α → γ} {values : List α}
    (hread : ∀ value ∈ values, read? (part value) = some (result value)) :
    (values.map part).mapM read? = some (values.map result) := by
  induction values with
  | nil => rfl
  | cons value values ih =>
      have hfirst := hread value List.mem_cons_self
      have hrest := ih fun value hmem => hread value (List.mem_cons_of_mem _ hmem)
      simp [hfirst, hrest]

variable {item : α → Json} {item? : Json → Option α}

theorem items_mapM (hitem : ∀ value, item? (item value) = some value) (values : List α) :
    (values.map item).mapM item? = some values := by
  rw [mapM_map fun value _ => hitem value, List.map_id']

theorem byteArray?_ofByteArray (data : ByteArray) : (ofByteArray data).byteArray? = some data := by
  simp [byteArray?, ofByteArray, items?, items_mapM uint8?_ofByte]

theorem vector?_ofVector {count : Nat} (hitem : ∀ value, item? (item value) = some value)
    (values : Vector α count) : (ofVector item values).vector? count item? = some values := by
  simp only [vector?, ofVector, items?, Option.bind_eq_bind, Option.bind_some, items_mapM hitem]
  simp [Vector.toList]

theorem option?_ofOption (hitem : ∀ value, item? (item value) = some value)
    (hnull : ∀ value, item value ≠ null) (value : Option α) :
    option? item? (some (ofOption item value)) = some value := by
  have hsome (document : Json) (hne : document ≠ null) :
      option? item? (some document) = (item? document).map some := by
    cases document <;> first | rfl | exact absurd rfl hne
  cases value with
  | none => rfl
  | some value => exact (hsome _ (hnull value)).trans (by rw [hitem]; rfl)

end Values

section Fields

variable {fields : List (String × Json)}

theorem filter_name (hnames : (fields.map (·.1)).Nodup) {field : String × Json}
    (hmem : field ∈ fields) : fields.filter (·.1 == field.1) = [field] := by
  induction fields with
  | nil => cases hmem
  | cons first rest ih =>
      obtain ⟨hfirst, hrest⟩ := List.nodup_cons.mp hnames
      rcases List.mem_cons.mp hmem with rfl | hmem
      · have hnone : rest.filter (·.1 == field.1) = [] := by
          rw [List.filter_eq_nil_iff]
          intro other hother heq
          exact hfirst (List.mem_map.mpr ⟨other, hother, beq_iff_eq.mp heq⟩)
        simp [hnone]
      · have hne : first.1 ≠ field.1 := fun heq =>
          hfirst (List.mem_map.mpr ⟨field, hmem, heq.symm⟩)
        simp [hne, ih hrest hmem]

-- A record whose names differ is read field by field.
theorem fields?_record {names : List String} (hnames : fields.map (·.1) = names)
    (hnodup : names.Nodup) (mayEndEarly : Bool) :
    (record fields).fields? names mayEndEarly = some (fields.map (some ·.2)) := by
  subst hnames
  have hmembers : (fields.map fun field => (escape field.1.toUTF8.data.toList, field.2)).mapM
      (fun member => do return (← decoded? member.1, member.2)) = some fields := by
    have hone (field : String × Json) (_ : field ∈ fields) :
        (do return (← decoded? (escape field.1.toUTF8.data.toList), field.2)) =
          some (id field) := by
      simp only [decoded?_escape]
      rfl
    rw [mapM_map hone, List.map_id]
  have hfields : (fields.map (·.1)).mapM (fieldOf? fields) = some (fields.map (some ·.2)) :=
    mapM_map fun field hmem => by rw [fieldOf?, filter_name hnodup hmem]
  simp only [record, fields?]
  rw [hmembers]
  exact hfields

theorem writable_record (hvalues : ∀ field ∈ fields, field.2.Writable) :
    (record fields).Writable := by
  refine .object ?_ ?_
  · intro member hmem
    obtain ⟨field, -, rfl⟩ := List.mem_map.mp hmem
    exact ⟨_, rfl⟩
  · intro member hmem
    obtain ⟨field, hfield, rfl⟩ := List.mem_map.mp hmem
    exact hvalues field hfield

end Fields

end Console816.Json
