import Console816.Bus.Dma

namespace Console816

inductive StateError where
  | malformed
  | corrupt
  | noCartridge
  | sram (error : CartridgeError)
  | size (what : String) (expected actual : Nat)
  deriving DecidableEq, Repr

namespace StateError

def message : StateError → String
  | malformed => "Encoding state: not a state"
  | corrupt => "Compressing state: not a whole frame"
  | noCartridge => "State carries SRAM but no cartridge is inserted"
  | sram error => "Restoring SRAM:\n- " ++ error.message
  | size what expected actual =>
    "State " ++ what ++ " has " ++ toString actual ++ " bytes, expected " ++ toString expected

def trail : StateError → List String
  | sram error => message (sram error) :: error.trail
  | error => [error.message]

end StateError

-- What a saved state holds of the bus. The ROM is not part of it. States may come from elsewhere,
-- so their memories may have any size.
structure BusState where
  latch : UInt8
  workRam : WorkRam
  io : IoRegisters
  bRegisters : ByteArray
  sram : Option ByteArray
  deriving DecidableEq

namespace Bus

def saveState (bus : Bus) : BusState where
  latch := bus.latch
  workRam := bus.workRam
  io := bus.io
  bRegisters := bus.bRegisters
  sram := bus.cartridge.map (·.sram)

-- A state without SRAM leaves that of the cartridge alone.
def cartridgeWith (cartridge : Option Cartridge) (sram : Option ByteArray) :
    Except StateError (Option Cartridge) :=
  match cartridge, sram with
  | some cartridge, some sram =>
    match cartridge.restoreSram sram with
    | .ok cartridge => .ok (some cartridge)
    | .error error => .error (.sram error)
  | none, some _ => .error .noCartridge
  | cartridge, none => .ok cartridge

-- A state that does not fit changes nothing.
def loadState (bus : Bus) (state : BusState) : Except StateError Unit × Bus :=
  if state.workRam.data.size ≠ WorkRam.size then
    (.error (.size "WRAM" WorkRam.size state.workRam.data.size), bus)
  else if state.bRegisters.size ≠ bRegisterCount then
    (.error (.size "B-bus registers" bRegisterCount state.bRegisters.size), bus)
  else
    match cartridgeWith bus.cartridge state.sram with
    | .error error => (.error error, bus)
    | .ok cartridge =>
      (.ok (), ⟨state.workRam, state.io, state.bRegisters, cartridge, state.latch, 0⟩)

end Bus

end Console816
