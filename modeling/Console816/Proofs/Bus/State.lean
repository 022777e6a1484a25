import Console816.Bus.State
import Console816.Proofs.Bus.Steady

namespace Console816

theorem Cartridge.hardware_restoreSram {cartridge restored : Cartridge} {data : ByteArray}
    (hrestored : cartridge.restoreSram data = .ok restored) :
    restored.hardware = cartridge.hardware := by
  unfold restoreSram at hrestored
  split at hrestored
  · rename_i hsize
    obtain rfl := Except.ok.inj hrestored
    simp only [hardware, hsize]
  · cases hrestored

namespace Bus

theorem hardware_cartridgeWith {cartridge after : Option Cartridge} {sram : Option ByteArray}
    (hafter : cartridgeWith cartridge sram = .ok after) :
    after.map Cartridge.hardware = cartridge.map Cartridge.hardware := by
  unfold cartridgeWith at hafter
  split at hafter
  · rename_i cartridge sram
    cases hrestore : cartridge.restoreSram sram with
    | error error =>
        rw [hrestore] at hafter
        cases hafter
    | ok restored =>
        rw [hrestore] at hafter
        obtain rfl := Except.ok.inj hafter
        exact congrArg some (Cartridge.hardware_restoreSram hrestore)
  · cases hafter
  · obtain rfl := Except.ok.inj hafter
    rfl

theorem loadState_of_sizes {bus : Bus} {state : BusState} {cartridge : Option Cartridge}
    (hram : state.workRam.data.size = WorkRam.size)
    (hregisters : state.bRegisters.size = bRegisterCount)
    (hcartridge : cartridgeWith bus.cartridge state.sram = .ok cartridge) :
    bus.loadState state =
      (.ok (), ⟨state.workRam, state.io, state.bRegisters, cartridge, state.latch, 0⟩) := by
  unfold loadState
  rw [if_neg (not_not_intro hram), if_neg (not_not_intro hregisters), hcartridge]

-- A state is refused and changes nothing, or it has the sizes of the bus and takes the place of
-- all but the cartridge, whose SRAM it may bring.
theorem loadState_cases (bus : Bus) (state : BusState) :
    (∃ error, bus.loadState state = (.error error, bus)) ∨
      ∃ cartridge, cartridgeWith bus.cartridge state.sram = .ok cartridge ∧
        state.workRam.data.size = WorkRam.size ∧ state.bRegisters.size = bRegisterCount ∧
        bus.loadState state =
          (.ok (), ⟨state.workRam, state.io, state.bRegisters, cartridge, state.latch, 0⟩) := by
  by_cases hram : state.workRam.data.size = WorkRam.size
  · by_cases hregisters : state.bRegisters.size = bRegisterCount
    · cases hcartridge : cartridgeWith bus.cartridge state.sram with
      | error error =>
          unfold loadState
          rw [if_neg (not_not_intro hram), if_neg (not_not_intro hregisters), hcartridge]
          exact .inl ⟨error, rfl⟩
      | ok cartridge =>
          have hloaded := loadState_of_sizes hram hregisters hcartridge
          exact .inr ⟨cartridge, rfl, hram, hregisters, hloaded⟩
    · unfold loadState
      rw [if_neg (not_not_intro hram), if_pos hregisters]
      exact .inl ⟨_, rfl⟩
  · unfold loadState
    rw [if_pos hram]
    exact .inl ⟨_, rfl⟩

end Bus

end Console816
