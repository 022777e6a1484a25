import Console816.Address
import Console816.Cartridge.Codes

namespace Console816

-- The layouts that can be decoded.
inductive Mapping where
  | loRom
  | hiRom
  | exHiRom
  deriving DecidableEq, Repr

-- What an address of the cartridge stands for. Indices may lie past the end of the memory, which
-- repeats.
inductive Cell where
  | rom (index : Nat)
  | sram (index : Nat)
  deriving DecidableEq, Repr

namespace Mapping

def name : Mapping → String
  | loRom => "LoROM"
  | hiRom => "HiROM"
  | exHiRom => "ExHiROM"

-- ExLoROM cannot be decoded, and the speed of the ROM makes no difference.
def ofLayout? : Layout → Option Mapping
  | .loRom => some loRom
  | .hiRom => some hiRom
  | .exLoRom => none
  | .exHiRom => some exHiRom

def ofByte? (byte : UInt8) : Option Mapping := do
  ofLayout? (← MapMode.ofByte? byte).layout

-- In the system banks the cartridge may answer between 0x6000 and 0x7FFF.
def answersExpansion (mapping : Mapping) (address : Address) : Bool :=
  match mapping with
  | loRom => false
  | hiRom | exHiRom =>
    0x20 ≤ address.bank &&& 0x7F && address.bank &&& 0x7F < 0x40 &&
      0x6000 ≤ address.offset && address.offset < 0x8000

-- The lower halves of banks 00 to 3F and 80 to BF belong to the console.
private def isSystem (address : Address) : Bool :=
  address.bank &&& 0x40 == 0 && address.offset < 0x8000

-- Each bank shows half a bank of ROM, in its upper half.
private def loRomCell? (address : Address) : Option Cell :=
  if address.bank &&& 0x70 == 0x70 && address.offset < 0x8000 then
    some (.sram ((address.bank &&& 0x0F).toNat * 0x8000 + address.offset.toNat))
  else if isSystem address then none
  else some (.rom ((address.bank &&& 0x7F).toNat * 0x8000 + (address.offset &&& 0x7FFF).toNat))

private def hiRomCell? (mapping : Mapping) (address : Address) : Option Cell :=
  if mapping.answersExpansion address then
    some (.sram ((address.bank &&& 0x1F).toNat * 0x2000 + (address.offset.toNat - 0x6000)))
  else if isSystem address then none
  else
    let index := (address.bank &&& 0x3F).toNat * 0x10000 + address.offset.toNat
    if mapping = exHiRom ∧ address.bank &&& 0x80 = 0 then some (.rom (index + 0x400000))
    else some (.rom index)

-- Banks 7E and 7F are work RAM.
def cell? (mapping : Mapping) (address : Address) : Option Cell :=
  if address.bank &&& 0xFE == 0x7E then none
  else
    match mapping with
    | loRom => loRomCell? address
    | hiRom | exHiRom => hiRomCell? mapping address

-- The canonical address of a ROM byte. It avoids the banks of the work RAM.
def canonicalAddress (mapping : Mapping) (index : Nat) : Address :=
  match mapping with
  | loRom =>
    let bank := index / 0x8000 % 0x80
    Address.wrap (bank * 0x10000 + index % 0x8000 + 0x8000 + if 0x7E ≤ bank then 0x800000 else 0)
  | hiRom => Address.wrap (index % 0x400000 + 0xC00000)
  | exHiRom =>
    if index < 0x400000 then Address.wrap (index + 0xC00000)
    else Address.wrap (index % 0x400000 + 0x400000)

end Mapping

end Console816
