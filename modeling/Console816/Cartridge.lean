import Console816.Bytes
import Console816.Cartridge.Header
import Console816.Cartridge.Mapping
import Console816.Memory

namespace Console816

inductive CartridgeError where
  | rom (error : RomError)
  | header (error : HeaderError)
  | unsupportedMapping (byte : UInt8)
  | sramSize (expected actual : Nat)
  deriving DecidableEq, Repr

namespace CartridgeError

def message : CartridgeError → String
  | rom error => "Reading ROM image:\n- " ++ error.message
  | header error => "Parsing internal ROM header:\n- " ++ error.message
  | unsupportedMapping byte => "Unsupported mapping id " ++ Text.markedByte byte
  | sramSize expected actual =>
    "SRAM image has " ++ toString actual ++ " bytes, cartridge has " ++ toString expected

def trail : CartridgeError → List String
  | rom error => message (rom error) :: error.trail
  | header error => message (header error) :: error.trail
  | error => [error.message]

end CartridgeError

-- A ROM, the battery-backed RAM beside it, and how both are mapped.
structure Cartridge where
  rom : Rom
  sram : ByteArray
  mapping : Mapping
  title : String

namespace Cartridge

def withMapping (rom : Rom) (mapping : Mapping) (sramBytes : Nat) : Cartridge where
  rom
  sram := zeroBytes sramBytes
  mapping
  title := ""

-- The mapping and the size of the SRAM are taken from the header.
def ofRom (rom : Rom) : Except CartridgeError Cartridge :=
  match Header.parse rom.toImage with
  | .error error => .error (.header error)
  | .ok header =>
    match Mapping.ofLayout? header.mapMode.layout with
    | none => .error (.unsupportedMapping header.mapMode.byte)
    | some mapping =>
      .ok { withMapping rom mapping header.sramBytes with title := header.title }

def ofBytes (data : ByteArray) : Except CartridgeError Cartridge :=
  match Rom.ofBytes data with
  | .error error => .error (.rom error)
  | .ok rom => ofRom rom

def answersExpansion (cartridge : Cartridge) (address : Address) : Bool :=
  cartridge.mapping.answersExpansion address

-- SRAM repeats over its range, if there is any.
def sramIndex? (cartridge : Cartridge) (index : Nat) : Option Nat :=
  if cartridge.sram.size = 0 then none else some (index % cartridge.sram.size)

def read (cartridge : Cartridge) (address : Address) : Except BusError UInt8 :=
  match cartridge.mapping.cell? address with
  | some (.rom index) => .ok (cartridge.rom.byteAt index)
  | some (.sram index) =>
    match cartridge.sramIndex? index with
    | some index => .ok (cartridge.sram.get! index)
    | none => .error (.unmappedCartridgeRead address)
  | none => .error (.unmappedCartridgeRead address)

-- Writes to anything but SRAM are lost.
def write (cartridge : Cartridge) (address : Address) (value : UInt8) : Cartridge :=
  match cartridge.mapping.cell? address with
  | some (.sram index) =>
    match cartridge.sramIndex? index with
    | some index => { cartridge with sram := cartridge.sram.set! index value }
    | none => cartridge
  | _ => cartridge

def restoreSram (cartridge : Cartridge) (data : ByteArray) : Except CartridgeError Cartridge :=
  if data.size = cartridge.sram.size then .ok { cartridge with sram := data }
  else .error (.sramSize cartridge.sram.size data.size)

end Cartridge

end Console816
