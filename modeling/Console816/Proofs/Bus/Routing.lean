import Console816.Proofs.Bus.Steady
import Console816.Proofs.Cartridge.Mapping

namespace Console816

namespace Address

-- The windows of the console's registers.

def InBRegisters (address : Address) : Prop :=
  address.InSystemBank ∧ 0x2100 ≤ address.offset.toNat ∧ address.offset.toNat < 0x2200

def InIoRegisters (address : Address) : Prop :=
  address.InSystemBank ∧ 0x4000 ≤ address.offset.toNat ∧ address.offset.toNat < 0x4400

instance (address : Address) : Decidable address.InBRegisters :=
  inferInstanceAs (Decidable (_ ∧ _))

instance (address : Address) : Decidable address.InIoRegisters :=
  inferInstanceAs (Decidable (_ ∧ _))

end Address

namespace Cartridge

variable (cartridge : Cartridge) (address : Address)

-- What a cell holds, unless it is of SRAM that is not there. Both memories repeat.
def contents? : Cell → Option UInt8
  | .rom index => some (cartridge.rom.byteAt index)
  | .sram index => (cartridge.sramIndex? index).map cartridge.sram.get!

theorem contents?_eq_none_iff (cell : Cell) :
    cartridge.contents? cell = none ↔ cartridge.sram.size = 0 ∧ ∃ index, cell = .sram index := by
  cases cell with
  | rom index => simp [contents?]
  | sram index => simp [contents?, sramIndex?]

theorem read_eq :
    cartridge.read address =
      match (cartridge.mapping.cell? address).bind cartridge.contents? with
      | some value => .ok value
      | none => .error (.unmappedCartridgeRead address) := by
  unfold read
  cases cartridge.mapping.cell? address with
  | none => rfl
  | some cell =>
      cases cell with
      | rom index => rfl
      | sram index =>
          simp only [Option.bind_some, contents?]
          cases cartridge.sramIndex? index <;> rfl

end Cartridge

namespace Bus

variable (bus : Bus) (address : Address)

-- Who answers where. No two of these overlap, so that their order makes no difference.
theorem responder_eq :
    bus.responder address =
      if address.InWorkRamBank then
        .workRam (address.bank.toNat % 2 * 0x10000 + address.offset.toNat)
      else if address.InSystemBank ∧ address.offset.toNat < 0x2000 then
        .workRam address.offset.toNat
      else if address.InBRegisters then .bRegister address.offset.toUInt8
      else if address.InIoRegisters then .ioRegister address.offset
      else if ¬address.InSystemBank ∨ 0x8000 ≤ address.offset.toNat ∨
          ∃ cartridge, bus.cartridge = some cartridge ∧ cartridge.mapping.InExpansion address then
        .cartridge
      else .nobody := by
  have hhalf : (address.bank &&& 1).toNat = address.bank.toNat % 2 :=
    Nat.and_two_pow_sub_one_eq_mod address.bank.toNat 1
  have hsystem : (address.bank &&& 0x40 != 0) = decide ¬address.InSystemBank := by
    rw [bne, address.bank_and_system, decide_not]
  simp only [responder, address.bank_and_workRam, hsystem, hhalf, Cartridge.answersExpansion,
    Mapping.answersExpansion_eq, UInt16.le_iff_toNat_le, UInt16.lt_iff_toNat_lt, Bool.and_eq_true,
    Bool.or_eq_true, decide_eq_true_eq, Option.any_eq_true, UInt16.reduceToNat]
  grind [Address.InBRegisters, Address.InIoRegisters]

theorem responder_eq_bRegister_iff (register : UInt8) :
    bus.responder address = .bRegister register ↔
      address.InBRegisters ∧ address.offset.toUInt8 = register := by
  rw [responder_eq]
  grind [Address.InBRegisters, Address.InSystemBank, Address.InWorkRamBank]

theorem responder_eq_ioRegister_iff (offset : UInt16) :
    bus.responder address = .ioRegister offset ↔
      address.InIoRegisters ∧ address.offset = offset := by
  rw [responder_eq]
  grind [Address.InBRegisters, Address.InIoRegisters, Address.InSystemBank, Address.InWorkRamBank]

-- MDMAEN shows in every system bank.
theorem responder_mdmaen {bank : UInt8} (hbank : Address.InSystemBank ⟨bank, 0x420B⟩) :
    bus.responder ⟨bank, 0x420B⟩ = .ioRegister 0x420B := by
  rw [responder_eq_ioRegister_iff]
  exact ⟨⟨hbank, show 0x4000 ≤ 0x420B by decide, show 0x420B < 0x4400 by decide⟩, rfl⟩

theorem responder_eq_cartridge_iff {bus : Bus} {cartridge : Cartridge}
    (hin : bus.cartridge = some cartridge) (address : Address) :
    bus.responder address = .cartridge ↔ cartridge.mapping.Answers address := by
  have hexpansion : (∃ inserted, bus.cartridge = some inserted ∧
      inserted.mapping.InExpansion address) ↔ cartridge.mapping.InExpansion address := by
    simp [hin]
  rw [responder_eq]
  simp only [hexpansion]
  grind [Mapping.Answers, Mapping.InExpansion, Address.InBRegisters, Address.InIoRegisters]

-- All but the cartridge answer without fail.
theorem read_ok_of_ne {bus : Bus} {address : Address} (hne : bus.responder address ≠ .cartridge) :
    ∃ value, (bus.read address).1 = .ok value := by
  have hhold (answer : Option UInt8 × Bus) : ∃ value, (holdIfAny answer).1 = .ok value := by
    rcases answer with ⟨value, after⟩
    cases value <;> exact ⟨_, rfl⟩
  unfold read
  cases hresponder : bus.responder address with
  | workRam index => exact ⟨_, rfl⟩
  | bRegister register => exact hhold _
  | ioRegister offset => exact hhold _
  | cartridge => exact absurd hresponder hne
  | nobody => exact ⟨_, rfl⟩

-- Where the cartridge is asked, it is its cell that is read.
theorem read_of_responder {bus : Bus} {cartridge : Cartridge}
    (hin : bus.cartridge = some cartridge) {address : Address}
    (hresponder : bus.responder address = .cartridge) :
    bus.read address =
      match (cartridge.mapping.cell? address).bind cartridge.contents? with
      | some value => (.ok value, bus.hold value)
      | none => (.error (.unmappedCartridgeRead address), bus) := by
  unfold read
  simp only [hresponder, readCartridge, hin, Cartridge.read_eq]
  cases (cartridge.mapping.cell? address).bind cartridge.contents? <;> rfl

-- The bus asks the cartridge exactly where its mapping has something.
theorem responder_eq_cartridge_iff_isSome {bus : Bus} {cartridge : Cartridge}
    (hin : bus.cartridge = some cartridge) (address : Address) :
    bus.responder address = .cartridge ↔ (cartridge.mapping.cell? address).isSome := by
  rw [responder_eq_cartridge_iff hin, Mapping.isSome_cell?_iff]

theorem read_error_iff {bus : Bus} {cartridge : Cartridge} (hin : bus.cartridge = some cartridge)
    (address : Address) (error : BusError) :
    (bus.read address).1 = .error error ↔
      error = .unmappedCartridgeRead address ∧ cartridge.sram.size = 0 ∧
        ∃ index, cartridge.mapping.cell? address = some (.sram index) := by
  have hroute := responder_eq_cartridge_iff_isSome hin address
  cases hcell : cartridge.mapping.cell? address with
  | none =>
      have hne : bus.responder address ≠ .cartridge := by simp [hroute, hcell]
      obtain ⟨value, hread⟩ := read_ok_of_ne hne
      simp [hread]
  | some cell =>
      have hresponder := hroute.mpr (Option.isSome_of_eq_some hcell)
      rw [read_of_responder hin hresponder, hcell, Option.bind_some]
      simp only [Option.some.injEq, ← cartridge.contents?_eq_none_iff cell]
      cases cartridge.contents? cell <;> simp [eq_comm]

-- Bus and mapping agree on what is the cartridge's. So whatever the mapping reaches is what is read
-- there, and a read fails at SRAM that is not there and nowhere else.
theorem routes_with_mapping {bus : Bus} {cartridge : Cartridge}
    (hin : bus.cartridge = some cartridge) (address : Address) :
    (bus.responder address = .cartridge ↔ (cartridge.mapping.cell? address).isSome) ∧
      (∀ cell value, cartridge.mapping.cell? address = some cell →
        cartridge.contents? cell = some value → bus.read address = (.ok value, bus.hold value)) ∧
      ∀ error, (bus.read address).1 = .error error ↔
        error = .unmappedCartridgeRead address ∧ cartridge.sram.size = 0 ∧
          ∃ index, cartridge.mapping.cell? address = some (.sram index) := by
  have hroute := responder_eq_cartridge_iff_isSome hin address
  refine ⟨hroute, fun cell value hcell hvalue => ?_, read_error_iff hin address⟩
  have hresponder := hroute.mpr (Option.isSome_of_eq_some hcell)
  rw [read_of_responder hin hresponder, hcell, Option.bind_some, hvalue]

-- The smallest ROM there is.
def blankRom : Rom := ⟨⟨zeroBytes 0x400⟩, by simp, by simp⟩

-- Without SRAM there is nothing to read in the expansion area, though the mapping reaches it.
theorem routes_with_mapping_expansion :
    let cartridge := Cartridge.withMapping blankRom .exHiRom 0
    let bus := powerOn.insert cartridge
    bus.cartridge = some cartridge ∧ bus.responder ⟨0xA0, 0x6000⟩ = .cartridge ∧
      (bus.read ⟨0xA0, 0x6000⟩).1 = .error (.unmappedCartridgeRead ⟨0xA0, 0x6000⟩) := by
  intro cartridge bus
  have hin : bus.cartridge = some cartridge := rfl
  obtain ⟨hroute, -, hfails⟩ := routes_with_mapping hin ⟨0xA0, 0x6000⟩
  exact ⟨hin, hroute.mpr rfl, (hfails _).mpr ⟨rfl, size_zeroBytes 0, 0, rfl⟩⟩

end Bus

end Console816
