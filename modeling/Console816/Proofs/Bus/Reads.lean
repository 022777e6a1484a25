import Console816.Proofs.Bus.Channels
import Console816.Proofs.Bus.Routing

namespace Console816.Bus

variable (bus : Bus) (address : Address)

-- The two registers that are changed by being read.

theorem responder_eq_port_iff :
    bus.responder address = .bRegister 0x80 ↔ address.InSystemBank ∧ address.offset = 0x2180 := by
  rw [responder_eq_bRegister_iff, Address.InBRegisters, and_assoc, ← UInt8.toNat_inj,
    ← UInt16.toNat_inj, UInt16.toNat_toUInt8]
  refine and_congr_right fun _ => ?_
  change _ ∧ address.offset.toNat % 256 = 0x80 ↔ address.offset.toNat = 0x2180
  omega

theorem responder_eq_nmiFlag_iff :
    bus.responder address = .ioRegister 0x4210 ↔
      address.InSystemBank ∧ address.offset = 0x4210 := by
  rw [responder_eq_ioRegister_iff, Address.InIoRegisters, and_assoc, ← UInt16.toNat_inj]
  refine and_congr_right fun _ => ?_
  change _ ∧ address.offset.toNat = 0x4210 ↔ address.offset.toNat = 0x4210
  omega

-- Reading the data register of the work RAM moves on to the next byte, and reading RDNMI clears the
-- flag it tells. Both are in all the system banks.
def afterRead : Bus :=
  if address.InSystemBank ∧ address.offset = 0x2180 then
    { bus with workRam.cursor := ((bus.workRam.cursor.toNat + 1) % WorkRam.size).toUInt32 }
  else if address.InSystemBank ∧ address.offset = 0x4210 then { bus with io.nmiFlag := false }
  else bus

-- SRAM is asked for, and the cartridge that is in has none.
def Refuses : Prop :=
  ∃ cartridge ∈ bus.cartridge, ∃ cell ∈ cartridge.mapping.cell? address,
    cartridge.contents? cell = none

instance : Decidable (bus.Refuses address) :=
  inferInstanceAs (Decidable (∃ cartridge ∈ bus.cartridge,
    ∃ cell ∈ cartridge.mapping.cell? address, cartridge.contents? cell = none))

variable {bus address}

theorem responder_of_refuses (hrefuses : bus.Refuses address) :
    bus.responder address = .cartridge := by
  obtain ⟨cartridge, hin, cell, hcell, -⟩ := hrefuses
  exact (responder_eq_cartridge_iff_isSome hin address).mpr (Option.isSome_of_mem hcell)

theorem afterRead_of_ne (hport : bus.responder address ≠ .bRegister 0x80)
    (hflag : bus.responder address ≠ .ioRegister 0x4210) : bus.afterRead address = bus := by
  rw [ne_eq, responder_eq_port_iff] at hport
  rw [ne_eq, responder_eq_nmiFlag_iff] at hflag
  rw [afterRead, if_neg hport, if_neg hflag]

theorem afterRead_of_bRegister {register : UInt8}
    (hresponder : bus.responder address = .bRegister register) :
    bus.afterRead address = (bus.readB register).2 := by
  unfold readB
  by_cases hport : register = 0x80
  · subst hport
    have hcursor : ((bus.workRam.cursor.toNat + 1) % WorkRam.size).toUInt32 =
        bus.workRam.advance.cursor := by
      rw [← bus.workRam.toNat_advance]
      exact UInt32.ofNat_toNat
    rw [afterRead, if_pos ((bus.responder_eq_port_iff address).mp hresponder), hcursor]
    rfl
  · rw [afterRead_of_ne (by simp [hresponder, hport]) (by simp [hresponder]), if_neg hport]

theorem afterRead_of_ioRegister {offset : UInt16}
    (hresponder : bus.responder address = .ioRegister offset) :
    bus.afterRead address = (bus.readIo offset).2 := by
  unfold readIo IoRegisters.read
  by_cases hflag : offset = 0x4210
  · subst hflag
    have hat := (bus.responder_eq_nmiFlag_iff address).mp hresponder
    rw [afterRead, if_neg (by simp [hat.2]), if_pos hat]
    rfl
  · rw [afterRead_of_ne (by simp [hresponder]) (by simp [hresponder, hflag])]
    simp [hflag]

-- A register that cannot be read answers with the latch, which then stays what it is.
theorem holdIfAny_eq (answer : Option UInt8 × Bus) :
    holdIfAny answer =
      (.ok (answer.1.getD answer.2.latch), answer.2.hold (answer.1.getD answer.2.latch)) := by
  rcases answer with ⟨value, bus⟩
  cases value <;> rfl

theorem latch_readB (bus : Bus) (register : UInt8) : (bus.readB register).2.latch = bus.latch := by
  unfold readB
  split <;> rfl

theorem readCartridge_eq (hresponder : bus.responder address = .cartridge) :
    bus.readCartridge address =
      if bus.Refuses address then (.error (.unmappedCartridgeRead address), bus)
      else (.ok (bus.peek address), bus.hold (bus.peek address)) := by
  unfold readCartridge Refuses
  simp only [peek, hresponder]
  cases hin : bus.cartridge with
  | none => simp [hold]
  | some cartridge =>
      obtain ⟨cell, hcell⟩ := Option.isSome_iff_exists.mp
        ((responder_eq_cartridge_iff_isSome hin address).mp hresponder)
      simp only [Cartridge.read_eq, hcell, Option.bind_some]
      cases hcontents : cartridge.contents? cell <;> simp [hcell, hcontents, Except.toOption]

end Console816.Bus
