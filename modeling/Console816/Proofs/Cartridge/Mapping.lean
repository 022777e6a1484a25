import Console816.Cartridge.Mapping

namespace Console816

namespace Address

variable (address : Address)

-- Banks 00 to 3F and 80 to BF. Their lower halves belong to the console.
def InSystemBank : Prop := address.bank.toNat % 0x80 < 0x40

-- Banks 7E and 7F.
def InWorkRamBank : Prop := address.bank.toNat / 2 = 0x3F

instance : Decidable address.InSystemBank := inferInstanceAs (Decidable (_ < _))

instance : Decidable address.InWorkRamBank := inferInstanceAs (Decidable (_ = _))

-- The decoders look at banks through masks.

private theorem bank_of_table (test : UInt8 → Bool) (inside : Nat → Prop) [DecidablePred inside]
    (hall : ∀ bank : Fin 0x100, test (UInt8.ofNat bank) = decide (inside bank)) (bank : UInt8) :
    test bank = decide (inside bank.toNat) := by
  simpa using hall ⟨bank.toNat, bank.toNat_lt⟩

theorem bank_and_workRam : (address.bank &&& 0xFE == 0x7E) = decide address.InWorkRamBank :=
  bank_of_table (· &&& 0xFE == 0x7E) (· / 2 = 0x3F) (by decide +kernel) _

theorem bank_and_system : (address.bank &&& 0x40 == 0) = decide address.InSystemBank :=
  bank_of_table (· &&& 0x40 == 0) (· % 0x80 < 0x40) (by decide +kernel) _

theorem bank_and_sram :
    (address.bank &&& 0x70 == 0x70) = decide (0x70 ≤ address.bank.toNat % 0x80) :=
  bank_of_table (· &&& 0x70 == 0x70) (0x70 ≤ · % 0x80) (by decide +kernel) _

theorem bank_and_half : address.bank &&& 0x80 = 0 ↔ address.bank.toNat < 0x80 := by
  have htable := bank_of_table (· &&& 0x80 == 0) (· < 0x80) (by decide +kernel) address.bank
  rw [← beq_iff_eq, htable, decide_eq_true_eq]

end Address

namespace Mapping

variable (mapping : Mapping) (address : Address)

-- The part of the system banks' lower halves that a cartridge may take over: 8 KiB in each of the
-- upper ones.
def InExpansion : Prop :=
  mapping ≠ loRom ∧ 0x20 ≤ address.bank.toNat % 0x80 ∧ address.bank.toNat % 0x80 < 0x40 ∧
    0x6000 ≤ address.offset.toNat ∧ address.offset.toNat < 0x8000

instance : Decidable (mapping.InExpansion address) := inferInstanceAs (Decidable (_ ∧ _))

-- Where a cartridge answers at all.
def Answers : Prop :=
  ¬address.InWorkRamBank ∧
    (address.InSystemBank → 0x8000 ≤ address.offset.toNat ∨ mapping.InExpansion address)

instance : Decidable (mapping.Answers address) := inferInstanceAs (Decidable (_ ∧ _))

-- The byte of SRAM that is seen at an address. LoROM shows half a bank of it in the lower half of
-- each of the upper banks, the others 8 KiB of it in each of their expansion areas.
def sramIndex? : Option Nat :=
  if mapping = loRom then
    if 0x70 ≤ address.bank.toNat % 0x80 ∧ address.offset.toNat < 0x8000 then
      some (address.bank.toNat % 0x10 * 0x8000 + address.offset.toNat)
    else none
  else if mapping.InExpansion address then
    some (address.bank.toNat % 0x20 * 0x2000 + (address.offset.toNat - 0x6000))
  else none

-- The byte of ROM that is seen where it is not SRAM. ExHiROM shows its first 4 MiB in the upper
-- half of the address space and the rest in the lower one.
def romIndex : Nat :=
  match mapping with
  | loRom => address.bank.toNat % 0x80 * 0x8000 + address.offset.toNat % 0x8000
  | hiRom => address.bank.toNat % 0x40 * 0x10000 + address.offset.toNat
  | exHiRom =>
    address.bank.toNat % 0x40 * 0x10000 + address.offset.toNat +
      if address.bank.toNat < 0x80 then 0x400000 else 0

def cellAt : Cell :=
  match mapping.sramIndex? address with
  | some index => .sram index
  | none => .rom (mapping.romIndex address)

theorem answersExpansion_eq :
    mapping.answersExpansion address = decide (mapping.InExpansion address) := by
  have hbank : (address.bank &&& 0x7F).toNat = address.bank.toNat % 0x80 :=
    Nat.and_two_pow_sub_one_eq_mod address.bank.toNat 7
  cases mapping <;>
    simp [answersExpansion, InExpansion, UInt8.le_iff_toNat_le, UInt8.lt_iff_toNat_lt,
      UInt16.le_iff_toNat_le, UInt16.lt_iff_toNat_lt, hbank, Bool.and_assoc]

private theorem loRom_cell?_eq :
    loRom.cell? address = if loRom.Answers address then some (loRom.cellAt address) else none := by
  change (if address.bank &&& 0xFE == 0x7E then none
    else if address.bank &&& 0x70 == 0x70 && address.offset < 0x8000 then
      some (Cell.sram ((address.bank &&& 0x0F).toNat * 0x8000 + address.offset.toNat))
    else if address.bank &&& 0x40 == 0 && address.offset < 0x8000 then none
    else some (Cell.rom
      ((address.bank &&& 0x7F).toNat * 0x8000 + (address.offset &&& 0x7FFF).toNat))) = _
  have hsram : (address.bank &&& 0x0F).toNat = address.bank.toNat % 0x10 :=
    Nat.and_two_pow_sub_one_eq_mod address.bank.toNat 4
  have hrom : (address.bank &&& 0x7F).toNat = address.bank.toNat % 0x80 :=
    Nat.and_two_pow_sub_one_eq_mod address.bank.toNat 7
  have hoffset : (address.offset &&& 0x7FFF).toNat = address.offset.toNat % 0x8000 :=
    Nat.and_two_pow_sub_one_eq_mod address.offset.toNat 15
  simp only [address.bank_and_workRam, address.bank_and_sram, address.bank_and_system, hsram, hrom,
    hoffset, UInt16.lt_iff_toNat_lt, Bool.and_eq_true, decide_eq_true_eq, UInt16.reduceToNat]
  grind [Answers, InExpansion, cellAt, sramIndex?, romIndex, Address.InSystemBank,
    Address.InWorkRamBank]

private theorem hiRom_cell?_eq (hmapping : mapping ≠ loRom) :
    mapping.cell? address =
      if mapping.Answers address then some (mapping.cellAt address) else none := by
  have hmasks : mapping.cell? address =
      if address.bank &&& 0xFE == 0x7E then none
      else if mapping.answersExpansion address then
        some (Cell.sram ((address.bank &&& 0x1F).toNat * 0x2000 + (address.offset.toNat - 0x6000)))
      else if address.bank &&& 0x40 == 0 && address.offset < 0x8000 then none
      else if mapping = exHiRom ∧ address.bank &&& 0x80 = 0 then
        some (.rom ((address.bank &&& 0x3F).toNat * 0x10000 + address.offset.toNat + 0x400000))
      else some (.rom ((address.bank &&& 0x3F).toNat * 0x10000 + address.offset.toNat)) := by
    cases mapping with
    | loRom => exact absurd rfl hmapping
    | hiRom | exHiRom => rfl
  have hsram : (address.bank &&& 0x1F).toNat = address.bank.toNat % 0x20 :=
    Nat.and_two_pow_sub_one_eq_mod address.bank.toNat 5
  have hrom : (address.bank &&& 0x3F).toNat = address.bank.toNat % 0x40 :=
    Nat.and_two_pow_sub_one_eq_mod address.bank.toNat 6
  rw [hmasks]
  simp only [address.bank_and_workRam, address.bank_and_system, address.bank_and_half,
    answersExpansion_eq, hsram, hrom, UInt16.lt_iff_toNat_lt, Bool.and_eq_true, decide_eq_true_eq,
    UInt16.reduceToNat]
  cases mapping <;>
    grind [Answers, InExpansion, cellAt, sramIndex?, romIndex, Address.InSystemBank,
      Address.InWorkRamBank]

-- What the decoder finds: nothing where the cartridge does not answer, and else SRAM or ROM.
theorem cell?_eq :
    mapping.cell? address =
      if mapping.Answers address then some (mapping.cellAt address) else none := by
  by_cases hmapping : mapping = loRom
  · subst hmapping
    exact loRom_cell?_eq address
  · exact hiRom_cell?_eq mapping address hmapping

theorem isSome_cell?_iff : (mapping.cell? address).isSome ↔ mapping.Answers address := by
  rw [cell?_eq]
  split <;> simp [*]

end Mapping

end Console816
