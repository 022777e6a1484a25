import Console816.Proofs.Bus.State

namespace Console816

def Bus.sramBytes (bus : Bus) : Nat := (bus.cartridge.map (·.sram.size)).getD 0

def BusState.sramBytes (state : BusState) : Nat := (state.sram.map (·.size)).getD 0

-- What can keep a state out of a bus.
inductive Misfit where
  | workRam
  | bRegisters
  | unclaimedSram
  | sram

namespace Misfit

-- The first that is found is reported.
def order : List Misfit := [workRam, bRegisters, unclaimedSram, sram]

def Found (bus : Bus) (state : BusState) : Misfit → Prop
  | workRam => state.workRam.data.size ≠ 0x20000
  | bRegisters => state.bRegisters.size ≠ 0x100
  | unclaimedSram => state.sram.isSome ∧ bus.cartridge.isNone
  | sram => state.sram.isSome ∧ bus.cartridge.isSome ∧ state.sramBytes ≠ bus.sramBytes

instance (bus : Bus) (state : BusState) : DecidablePred (Found bus state)
  | workRam | bRegisters => instDecidableNot
  | unclaimedSram | sram => instDecidableAnd

def error (bus : Bus) (state : BusState) : Misfit → StateError
  | workRam => .size "WRAM" 0x20000 state.workRam.data.size
  | bRegisters => .size "B-bus registers" 0x100 state.bRegisters.size
  | unclaimedSram => .noCartridge
  | sram => .sram (.sramSize bus.sramBytes state.sramBytes)

def first? (bus : Bus) (state : BusState) : Option Misfit :=
  order.find? fun misfit => misfit.Found bus state

theorem mem_order (misfit : Misfit) : misfit ∈ order := by
  cases misfit <;> simp [order]

theorem first?_eq_none_iff {bus : Bus} {state : BusState} :
    first? bus state = none ↔ ∀ misfit : Misfit, ¬misfit.Found bus state := by
  simp only [first?, List.find?_eq_none, decide_eq_true_eq]
  exact ⟨fun hnone misfit => hnone misfit misfit.mem_order, fun hnone misfit _ => hnone misfit⟩

end Misfit

namespace Bus

open Misfit

-- The cartridge with the SRAM that a state brings, or with its own.
def restored (bus : Bus) (state : BusState) : Option Cartridge :=
  bus.cartridge.map fun cartridge => { cartridge with sram := state.sram.getD cartridge.sram }

theorem cartridgeWith_eq (bus : Bus) (state : BusState) :
    cartridgeWith bus.cartridge state.sram =
      if Found bus state unclaimedSram then .error (unclaimedSram.error bus state)
      else if Found bus state sram then .error (sram.error bus state)
      else .ok (bus.restored state) := by
  obtain ⟨workRam, io, bRegisters, cartridge, latch, pause⟩ := bus
  obtain ⟨latch', workRam', io', bRegisters', data⟩ := state
  cases cartridge with
  | none => cases data <;> rfl
  | some cartridge =>
      cases data with
      | none => rfl
      | some data =>
          simp only [cartridgeWith, Cartridge.restoreSram]
          by_cases hsize : data.size = cartridge.sram.size
          · simp [hsize, Found, restored, BusState.sramBytes, sramBytes]
          · simp [hsize, Found, error, BusState.sramBytes, sramBytes]

-- A state is refused for its first misfit and changes nothing, or it has none and takes the place
-- of all but the cartridge, whose SRAM it may bring.
theorem loadState_eq (bus : Bus) (state : BusState) :
    bus.loadState state =
      match first? bus state with
      | some misfit => (.error (misfit.error bus state), bus)
      | none =>
        (.ok (),
          ⟨state.workRam, state.io, state.bRegisters, bus.restored state, state.latch, 0⟩) := by
  unfold loadState
  rw [cartridgeWith_eq]
  simp only [first?, order, List.find?_cons, List.find?_nil]
  change (if Found bus state .workRam then _ else if Found bus state .bRegisters then _ else _) = _
  by_cases hram : Found bus state .workRam
  · rw [if_pos hram, decide_eq_true hram]
    rfl
  rw [if_neg hram, decide_eq_false hram]
  by_cases hregisters : Found bus state .bRegisters
  · rw [if_pos hregisters, decide_eq_true hregisters]
    rfl
  rw [if_neg hregisters, decide_eq_false hregisters]
  by_cases hunclaimed : Found bus state unclaimedSram
  · rw [if_pos hunclaimed, decide_eq_true hunclaimed]
  rw [if_neg hunclaimed, decide_eq_false hunclaimed]
  by_cases hsram : Found bus state sram
  · rw [if_pos hsram, decide_eq_true hsram]
  · rw [if_neg hsram, decide_eq_false hsram]

end Bus

end Console816
