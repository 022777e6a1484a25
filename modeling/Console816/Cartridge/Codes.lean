namespace Console816

-- How ROM and SRAM are laid out in the address space, as far as headers name it.
inductive Layout where
  | loRom
  | hiRom
  | exLoRom
  | exHiRom
  deriving DecidableEq, Repr

namespace Layout

def name : Layout → String
  | loRom => "LoROM"
  | hiRom => "HiROM"
  | exLoRom => "ExLoROM"
  | exHiRom => "ExHiROM"

-- Three bits: HiROM, ExLoROM and ExHiROM.
def code : Layout → UInt8
  | loRom => 0
  | hiRom => 1
  | exLoRom => 2
  | exHiRom => 5

end Layout

-- The map mode of a header: a layout, and whether the ROM is fast.
structure MapMode where
  layout : Layout
  fast : Bool
  deriving DecidableEq, Repr

namespace MapMode

def byte (mode : MapMode) : UInt8 := (if mode.fast then 0x30 else 0x20) ||| mode.layout.code

def all : List MapMode :=
  [false, true].flatMap fun fast =>
    [Layout.loRom, .hiRom, .exLoRom, .exHiRom].map fun layout => ⟨layout, fast⟩

def ofByte? (byte : UInt8) : Option MapMode := all.find? (·.byte == byte)

def name (mode : MapMode) : String := (if mode.fast then "Fast " else "") ++ mode.layout.name

def isHiRom (mode : MapMode) : Bool := mode.byte &&& 1 != 0

def isExLoRom (mode : MapMode) : Bool := mode.byte &&& 2 != 0

def isExHiRom (mode : MapMode) : Bool := mode.byte &&& 4 != 0

end MapMode

-- The chips a cartridge may carry beside its memory.
inductive Coprocessor where
  | dsp
  | superFx
  | obc1
  | sa1
  | sdd1
  | srtc
  | other
  | custom
  deriving DecidableEq, Repr

-- The memory beside the ROM.
inductive Extra where
  | bare
  | ram
  | ramSram
  | sram
  deriving DecidableEq, Repr

-- What a cartridge is made of. SRAM without RAM comes with a coprocessor only.
inductive RomType where
  | plain (extra : Extra)
  | chip (coprocessor : Coprocessor) (extra : Extra)
  deriving DecidableEq, Repr

namespace RomType

private def extraName : Extra → String
  | .bare => ""
  | .ram => "Ram"
  | .ramSram => "RamSram"
  | .sram => "Sram"

private def chipName (extra : Extra) : Coprocessor → String
  | .dsp => "Dsp"
  | .superFx => "SuperFx"
  | .obc1 => "Obc1"
  | .sa1 => "Sa1"
  | .sdd1 => "Sdd1"
  | .srtc => if extra = .bare then "Srtc" else "SRtc"
  | .other => "Other"
  | .custom => "Custom"

def name : RomType → String
  | plain extra => "Rom" ++ extraName extra
  | chip coprocessor extra => "Rom" ++ chipName extra coprocessor ++ extraName extra

private def chip? (code : Nat) : Option Coprocessor :=
  match code with
  | 0x0 => some .dsp
  | 0x1 => some .superFx
  | 0x2 => some .obc1
  | 0x3 => some .sa1
  | 0x4 => some .sdd1
  | 0x5 => some .srtc
  | 0xE => some .other
  | 0xF => some .custom
  | _ => none

-- The low digit tells the memory, the high one the coprocessor.
def ofByte? (byte : UInt8) : Option RomType :=
  match byte.toNat % 16 with
  | 0 => if byte = 0 then some (plain .bare) else none
  | 1 => if byte = 1 then some (plain .ram) else none
  | 2 => if byte = 2 then some (plain .ramSram) else none
  | 3 => (chip? (byte.toNat / 16)).map (chip · .bare)
  | 4 => (chip? (byte.toNat / 16)).map (chip · .ram)
  | 5 => (chip? (byte.toNat / 16)).map (chip · .ramSram)
  | 6 => (chip? (byte.toNat / 16)).map (chip · .sram)
  | _ => none

end RomType

-- Where a cartridge was sold. The codes count from zero.
structure Region where
  code : Fin 21
  deriving DecidableEq, Repr

namespace Region

def names : Vector String 21 :=
  #v["Japan", "North America", "Europe", "Sweden", "Finland", "Denmark", "France", "Netherlands",
    "Spain", "Germany", "Italy", "China", "Indonesia", "Korea", "Global", "Canada", "Brazil",
    "Australia", "Other (1)", "Other (2)", "Other (3)"]

def name (region : Region) : String := names[region.code]

def ofByte? (byte : UInt8) : Option Region :=
  if h : byte.toNat < 21 then some ⟨⟨byte.toNat, h⟩⟩ else none

end Region

end Console816
