import Console816.Bus.Dma

namespace Console816

@[simp] theorem size_zeroBytes (count : Nat) : (zeroBytes count).size = count :=
  Array.size_replicate

-- What a cartridge is, apart from its title and from what its SRAM holds.
structure Cartridge.Hardware where
  rom : Rom
  mapping : Mapping
  sramBytes : Nat

namespace Cartridge

def hardware (cartridge : Cartridge) : Hardware :=
  ⟨cartridge.rom, cartridge.mapping, cartridge.sram.size⟩

theorem hardware_write (cartridge : Cartridge) (address : Address) (value : UInt8) :
    (cartridge.write address value).hardware = cartridge.hardware := by
  unfold write
  split
  · split
    · simp only [hardware, ByteArray.size_set!]
    · rfl
  · rfl

end Cartridge

namespace WorkRam

theorem toNat_masked (cursor : UInt32) : (cursor &&& 0x1FFFF).toNat = cursor.toNat % size := by
  rw [UInt32.toNat_and]
  exact Nat.and_two_pow_sub_one_eq_mod cursor.toNat 17

theorem masked_lt (cursor : UInt32) : cursor &&& 0x1FFFF < 0x20000 := by
  rw [UInt32.lt_iff_toNat_lt, toNat_masked]
  exact Nat.mod_lt _ (by decide)

theorem advance_cursor_lt (ram : WorkRam) : ram.advance.cursor < 0x20000 := masked_lt _

theorem setCursorByte_cursor_lt (ram : WorkRam) (byte value : UInt8) :
    (ram.setCursorByte byte value).cursor < 0x20000 :=
  masked_lt _

@[simp] theorem size_write (ram : WorkRam) (index : Nat) (value : UInt8) :
    (ram.write index value).data.size = ram.data.size :=
  ByteArray.size_set! ..

end WorkRam

namespace Bus

-- What each access of a transfer respects, on either side, its bytes respect as well.
structure Respected (kept : Bus → Bus → Prop) : Prop where
  refl : ∀ bus, kept bus bus
  trans : ∀ {bus middle after}, kept bus middle → kept middle after → kept bus after
  readB : ∀ bus register, kept bus (readB bus register).2
  writeB : ∀ bus register value, kept bus (writeB bus register value)
  readA : ∀ bus address, kept bus (readA bus address).2
  writeA : ∀ bus address value, kept bus (writeA bus address value)

namespace Respected

variable {kept : Bus → Bus → Prop} (hkept : Respected kept)
include hkept

theorem transferByte (bus : Bus) (channel : DmaChannel) (index : Nat) (offset : UInt16) :
    kept bus (bus.transferByte channel index offset).2 := by
  simp only [Bus.transferByte]
  split
  · exact hkept.trans (hkept.readB bus _) (hkept.writeA _ _ _)
  · have hread := hkept.readA bus ⟨channel.aBank, offset⟩
    rcases hstep : bus.readA ⟨channel.aBank, offset⟩ with ⟨answer, after⟩
    rw [hstep] at hread
    cases answer with
    | ok value => exact hkept.trans hread (hkept.writeB after _ value)
    | error error => exact hread

theorem transferBytes (bus : Bus) (channel : DmaChannel) (index : Nat) (offset : UInt16)
    (count : Nat) : kept bus (bus.transferBytes channel index offset count).2 := by
  induction count generalizing bus index offset with
  | zero => exact hkept.refl bus
  | succ remaining ih =>
      have hbyte := hkept.transferByte bus channel index offset
      unfold Bus.transferBytes
      rcases hstep : bus.transferByte channel index offset with ⟨answer, after⟩
      rw [hstep] at hbyte
      cases answer with
      | ok => exact hkept.trans hbyte (ih after _ _)
      | error error => exact hbyte

end Respected

-- Memories keep their sizes and the cartridge stays what it is. The cursor is left alone, or it
-- comes out in range.
structure Steady (bus after : Bus) : Prop where
  workRam : after.workRam.data.size = bus.workRam.data.size
  bRegisters : after.bRegisters.size = bus.bRegisters.size
  cartridge : after.cartridge.map Cartridge.hardware = bus.cartridge.map Cartridge.hardware
  cursor : after.workRam.cursor = bus.workRam.cursor ∨ after.workRam.cursor < 0x20000

namespace Steady

theorem refl (bus : Bus) : Steady bus bus := ⟨rfl, rfl, rfl, .inl rfl⟩

theorem trans {bus middle after : Bus} (hfirst : Steady bus middle)
    (hsecond : Steady middle after) : Steady bus after where
  workRam := hsecond.workRam.trans hfirst.workRam
  bRegisters := hsecond.bRegisters.trans hfirst.bRegisters
  cartridge := hsecond.cartridge.trans hfirst.cartridge
  cursor := by
    rcases hsecond.cursor with hsame | hlt
    · rw [hsame]
      exact hfirst.cursor
    · exact .inr hlt

end Steady

theorem steady_hold (bus : Bus) (value : UInt8) : Steady bus (bus.hold value) :=
  ⟨rfl, rfl, rfl, .inl rfl⟩

theorem steady_holdIfAny {bus : Bus} {answer : Option UInt8 × Bus} (hanswer : Steady bus answer.2) :
    Steady bus (holdIfAny answer).2 := by
  rcases answer with ⟨value, after⟩
  cases value with
  | none => exact hanswer
  | some value => exact hanswer.trans (after.steady_hold value)

theorem steady_readB (bus : Bus) (register : UInt8) : Steady bus (bus.readB register).2 := by
  simp only [readB]
  split
  · exact ⟨rfl, rfl, rfl, .inr bus.workRam.advance_cursor_lt⟩
  · exact .refl bus

theorem steady_writeRam (bus : Bus) (index : Nat) (value : UInt8) :
    Steady bus { bus with workRam := bus.workRam.write index value } :=
  ⟨bus.workRam.size_write index value, rfl, rfl, .inl rfl⟩

theorem steady_writeB (bus : Bus) (register value : UInt8) :
    Steady bus (bus.writeB register value) := by
  unfold writeB
  split
  · exact ⟨bus.workRam.size_write _ value, rfl, rfl, .inr (WorkRam.advance_cursor_lt _)⟩
  · split
    · exact ⟨rfl, rfl, rfl, .inr (WorkRam.setCursorByte_cursor_lt ..)⟩
    · exact ⟨rfl, ByteArray.size_set! .., rfl, .inl rfl⟩

theorem steady_readCartridge (bus : Bus) (address : Address) :
    Steady bus (bus.readCartridge address).2 := by
  unfold readCartridge
  split
  · exact .refl bus
  · split
    · exact bus.steady_hold _
    · exact .refl bus

theorem steady_writeCartridge (bus : Bus) (address : Address) (value : UInt8) :
    Steady bus (bus.writeCartridge address value) := by
  unfold writeCartridge
  split
  · exact ⟨rfl, rfl, congrArg some (Cartridge.hardware_write ..), .inl rfl⟩
  · exact .refl bus

theorem steady_read (bus : Bus) (address : Address) : Steady bus (bus.read address).2 := by
  unfold read
  split
  · exact bus.steady_hold _
  · exact steady_holdIfAny (bus.steady_readB _)
  · exact steady_holdIfAny ⟨rfl, rfl, rfl, .inl rfl⟩
  · exact bus.steady_readCartridge address
  · exact .refl bus

theorem steady_readA (bus : Bus) (address : Address) : Steady bus (bus.readA address).2 := by
  unfold readA
  split
  · exact .refl bus
  · exact .refl bus
  · exact bus.steady_read address

theorem steady_writeA (bus : Bus) (address : Address) (value : UInt8) :
    Steady bus (bus.writeA address value) := by
  unfold writeA
  split
  · exact bus.steady_writeRam _ value
  · exact bus.steady_writeCartridge address value
  · exact .refl bus

theorem respected_steady : Respected Steady where
  refl := .refl
  trans := .trans
  readB := steady_readB
  writeB := steady_writeB
  readA := steady_readA
  writeA := steady_writeA

theorem steady_runChannel (bus : Bus) (index : Fin 8) : Steady bus (bus.runChannel index).2 := by
  have hbytes := respected_steady.transferBytes bus bus.io.channels[index] 0
    bus.io.channels[index].aOffset bus.io.channels[index].transferSize
  simp only [runChannel]
  rcases hstep : bus.transferBytes bus.io.channels[index] 0 bus.io.channels[index].aOffset
    bus.io.channels[index].transferSize with ⟨answer, after⟩
  rw [hstep] at hbytes
  cases answer with
  | ok offset => exact hbytes.trans ⟨rfl, rfl, rfl, .inl rfl⟩
  | error error => exact hbytes

theorem steady_runChannels (bus : Bus) (indices : List (Fin 8)) :
    Steady bus (bus.runChannels indices).2 := by
  induction indices generalizing bus with
  | nil => exact .refl bus
  | cons index indices ih =>
      have hchannel := bus.steady_runChannel index
      unfold runChannels
      rcases hstep : bus.runChannel index with ⟨answer, after⟩
      rw [hstep] at hchannel
      cases answer with
      | ok => exact hchannel.trans (ih after)
      | error error => exact hchannel

theorem steady_write (bus : Bus) (address : Address) (value : UInt8) :
    Steady bus (bus.write address value).2 := by
  unfold write
  split
  · exact bus.steady_writeRam _ value
  · exact bus.steady_writeB _ value
  · rename_i offset _
    have hio : Steady bus { bus with io := bus.io.write offset value } := ⟨rfl, rfl, rfl, .inl rfl⟩
    dsimp only
    split
    · exact hio.trans (steady_runChannels _ _)
    · exact hio
  · exact bus.steady_writeCartridge address value
  · exact .refl bus

-- The sizes that every access relies on, and the cartridge that is in.
structure Sized (inserted : Option Cartridge.Hardware) (bus : Bus) : Prop where
  workRam : bus.workRam.data.size = 0x20000
  bRegisters : bus.bRegisters.size = 0x100
  cartridge : bus.cartridge.map Cartridge.hardware = inserted

theorem sized_powerOn : powerOn.Sized none :=
  ⟨size_zeroBytes _, size_zeroBytes _, rfl⟩

namespace Sized

variable {inserted : Option Cartridge.Hardware} {bus : Bus}

theorem steady (hsized : bus.Sized inserted) {after : Bus} (hsteady : Steady bus after) :
    after.Sized inserted where
  workRam := hsteady.workRam.trans hsized.workRam
  bRegisters := hsteady.bRegisters.trans hsized.bRegisters
  cartridge := hsteady.cartridge.trans hsized.cartridge

theorem insert (hsized : bus.Sized inserted) (cartridge : Cartridge) :
    (bus.insert cartridge).Sized (some cartridge.hardware) :=
  ⟨hsized.workRam, hsized.bRegisters, rfl⟩

theorem reset (hsized : bus.Sized inserted) : bus.reset.Sized inserted :=
  ⟨hsized.workRam, size_zeroBytes _, hsized.cartridge⟩

end Sized

end Bus

end Console816
