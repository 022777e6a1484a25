import Console816.Console
import Console816.Proofs.Bus.Routing
import Console816.Proofs.Cartridge.Construction
import Console816.Proofs.Processor.Lockstep

namespace Console816

-- A reset looks at nothing but its vector.
theorem Execution.enterReset_of_loads {μ : Type} [Memory μ] {memory middle after : μ}
    {low high : UInt8} (hlow : Memory.load ⟨0, 0xFFFC⟩ memory = (.ok low, middle))
    (hhigh : Memory.load ⟨0, 0xFFFD⟩ middle = (.ok high, after)) (r : Registers)
    (interrupts : InterruptState) (cycles : Nat) :
    enterReset ⟨r, interrupts, memory, cycles⟩ =
      (.ok (), ⟨{ r.reset with pc := Word.join low high }, {}, after, cycles + 7⟩) := by
  have hfirst (r : Registers) :
      loadByte ⟨0, Interrupt.vector true .reset⟩ ⟨r, {}, memory, cycles⟩ =
        (.ok low, ⟨r, {}, middle, cycles⟩) := by
    simp only [loadByte, Interrupt.vector, hlow]
  have hsecond (r : Registers) :
      loadByte (Address.advance ⟨0, Interrupt.vector true .reset⟩ 1) ⟨r, {}, middle, cycles⟩ =
        (.ok high, ⟨r, {}, after, cycles⟩) := by
    have hnext : Address.advance ⟨0, Interrupt.vector true .reset⟩ 1 = ⟨0, 0xFFFD⟩ := rfl
    simp only [loadByte, hnext, hhigh]
  change (loadVector .reset true >>= fun _ => charge 7 : Execution μ Unit)
    ⟨r.reset, {}, memory, cycles⟩ = _
  simp only [loadVector, loadWord, bind_apply, hfirst, hsecond]
  rfl

-- Every mapping has ROM in the upper half of bank 0.
theorem Mapping.cell?_top (mapping : Mapping) (offset : UInt16) (htop : 0x8000 ≤ offset.toNat) :
    mapping.cell? ⟨0, offset⟩ = some (.rom (mapping.romIndex ⟨0, offset⟩)) := by
  have hbank : ¬Address.InWorkRamBank ⟨0, offset⟩ := by simp [Address.InWorkRamBank]
  have hanswers : mapping.Answers ⟨0, offset⟩ := ⟨hbank, fun _ => .inl htop⟩
  have hsram : mapping.sramIndex? ⟨0, offset⟩ = none := by
    simp [sramIndex?, InExpansion]
  rw [cell?_eq, if_pos hanswers, cellAt, hsram]

namespace Bus

variable (bus : Bus)

-- What is read in the upper half of bank 0.
def topByte (offset : UInt16) : UInt8 :=
  match bus.cartridge with
  | some cartridge => cartridge.rom.byteAt (cartridge.mapping.romIndex ⟨0, offset⟩)
  | none => bus.latch

theorem read_top (offset : UInt16) (htop : 0x8000 ≤ offset.toNat) :
    bus.read ⟨0, offset⟩ = (.ok (bus.topByte offset), bus.hold (bus.topByte offset)) := by
  have hresponder : bus.responder ⟨0, offset⟩ = .cartridge := by
    rw [responder_eq]
    grind [Address.InWorkRamBank, Address.InBRegisters, Address.InIoRegisters]
  unfold topByte
  cases hin : bus.cartridge with
  | none =>
      simp only [read, hresponder, readCartridge, hin]
      rfl
  | some cartridge =>
      rw [read_of_responder hin hresponder, cartridge.mapping.cell?_top offset htop]
      rfl

-- One read there makes no difference to the next.
theorem topByte_hold (offset other : UInt16) :
    (bus.hold (bus.topByte offset)).topByte other = bus.topByte other := by
  obtain ⟨workRam, io, bRegisters, cartridge, latch, pause⟩ := bus
  cases cartridge <;> rfl

end Bus

namespace Console

-- The console as a reset leaves it, from a vector of these two bytes. Work RAM and its cursor, the
-- cartridge, A and the low bytes of X and Y stay, and the cycles are counted on.
def restarted (console : Console) (low high : UInt8) : Console where
  processor :=
    { console.processor with
      registers :=
        { a := console.processor.registers.a
          x := console.processor.registers.x &&& 0x00FF
          y := console.processor.registers.y &&& 0x00FF
          s := 0x0100
          d := 0x0000
          dbr := 0x00
          k := 0x00
          pc := Word.join low high
          p := ⟨0x34⟩
          emulation := true }
      interrupts := ⟨0x00, false, false⟩
      cycles := console.processor.cycles + 7 }
  bus :=
    { console.bus with
      io := .powerOn
      bRegisters := zeroBytes 0x100
      latch := high
      pause := 0 }

-- A reset never fails.
theorem reset_eq (console : Console) :
    console.reset =
      (.ok (), console.restarted (console.bus.reset.topByte 0xFFFC)
        (console.bus.reset.topByte 0xFFFD)) := by
  obtain ⟨⟨registers, interrupts, opcodes, cycles⟩, bus⟩ := console
  let middle := bus.reset.hold (bus.reset.topByte 0xFFFC)
  have hlow : Memory.load ⟨0, 0xFFFC⟩ bus.reset = (.ok (bus.reset.topByte 0xFFFC), middle) :=
    bus.reset.read_top 0xFFFC (by decide)
  have hhigh : Memory.load ⟨0, 0xFFFD⟩ middle =
      (.ok (bus.reset.topByte 0xFFFD), middle.hold (bus.reset.topByte 0xFFFD)) := by
    rw [← bus.reset.topByte_hold 0xFFFC 0xFFFD]
    exact middle.read_top 0xFFFD (by decide)
  have henter := Execution.enterReset_of_loads hlow hhigh registers interrupts 0
  simp only [reset, Processor.reset, Processor.execute, Execution.enter, henter, afterProcessor]
  rfl

theorem insert_eq (console : Console) (cartridge : Cartridge) :
    console.insert cartridge =
      (.ok (), { console with bus := console.bus.insert cartridge }.restarted
        (cartridge.rom.byteAt (cartridge.mapping.romIndex ⟨0, 0xFFFC⟩))
        (cartridge.rom.byteAt (cartridge.mapping.romIndex ⟨0, 0xFFFD⟩))) :=
  reset_eq _

-- An image that makes no cartridge changes nothing. Any other puts its cartridge in, without
-- anything in the SRAM, and resets the console from the vector that the mapping finds in the ROM.
-- No reset fails, whatever is in.
theorem load_all_or_nothing (console : Console) (data : ByteArray) :
    console.reset.1 = .ok () ∧
      match Cartridge.ofBytes data with
      | .error error => console.load data = (.error (.cartridge error), console)
      | .ok cartridge =>
        cartridge.sram = zeroBytes cartridge.sram.size ∧
          ∃ low high,
            cartridge.mapping.cell? ⟨0, 0xFFFC⟩ = some (.rom low) ∧
              cartridge.mapping.cell? ⟨0, 0xFFFD⟩ = some (.rom high) ∧
              console.load data =
                (.ok (), { console with bus := console.bus.insert cartridge }.restarted
                  (cartridge.rom.byteAt low) (cartridge.rom.byteAt high)) := by
  refine ⟨by rw [reset_eq], ?_⟩
  cases hmade : Cartridge.ofBytes data with
  | error error => simp only [load, hmade]
  | ok cartridge =>
      have hlow := cartridge.mapping.cell?_top 0xFFFC (by decide)
      have hhigh := cartridge.mapping.cell?_top 0xFFFD (by decide)
      refine ⟨Cartridge.sram_of_ofBytes hmade, _, _, hlow, hhigh, ?_⟩
      simp only [load, hmade, insert_eq]

end Console

end Console816
