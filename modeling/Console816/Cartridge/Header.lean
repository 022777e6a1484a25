import Console816.Cartridge.Codes
import Console816.Cartridge.Rom
import Console816.Text.Utf8

namespace Console816

inductive HeaderError where
  | notFound
  | checksum (location : Nat) (error : RomError)
  | name (error : RomError)
  | info (error : RomError)
  | vectors (error : RomError)
  | unsupportedMapMode (byte : UInt8)
  deriving DecidableEq, Repr

namespace HeaderError

def message : HeaderError → String
  | notFound => "Couldn't find internal ROM header"
  | checksum location error =>
    "Reading checksum and complement at " ++ Text.marked location ++ ":\n- " ++ error.message
  | name error => "Reading Internal ROM Name:\n- " ++ error.message
  | info error => "Reading cartridge info bytes:\n- " ++ error.message
  | vectors error => "Reading interrupt vectors:\n- " ++ error.message
  | unsupportedMapMode byte => "Unsupported map mode " ++ Text.markedByte byte

def trail : HeaderError → List String
  | checksum location error => message (checksum location error) :: error.trail
  | error => [error.message]

end HeaderError

-- Interrupt vectors as the header has them. Native mode has no RESET and emulation mode no BRK;
-- their slots hold whatever the image has there.
structure VectorTable where
  cop : UInt16
  brk : UInt16
  abort : UInt16
  nmi : UInt16
  reset : UInt16
  irq : UInt16
  deriving DecidableEq, Repr

structure HeaderLocation where
  offset : Nat
  name : String
  deriving DecidableEq, Repr

-- What led to a header: its checksum, or for want of one its map mode.
inductive Evidence where
  | checksum
  | mapMode
  deriving DecidableEq, Repr

structure Header where
  location : Nat
  title : String
  mapMode : MapMode
  romType : Option RomType
  romSize : UInt8
  sramSize : UInt8
  region : Option Region
  developer : UInt8
  version : UInt8
  checksum : UInt16
  native : VectorTable
  emulation : VectorTable
  deriving DecidableEq, Repr

namespace HeaderLocation

def size : Nat := 64

-- In the order they are tried.
def all : List HeaderLocation :=
  [⟨0x7FC0, "LoROM"⟩, ⟨0xFFC0, "HiROM"⟩, ⟨0x40FFC0, "ExHiROM"⟩]

def fits (image : Image) (location : HeaderLocation) : Bool := location.offset + size ≤ image.size

-- The checksum and its complement have no bit in common.
def hasChecksum (image : Image) (location : HeaderLocation) : Except HeaderError Bool := do
  let words := do
    let complement ← ByteReader.word
    let checksum ← ByteReader.word
    return (complement, checksum)
  match image.parse (location.offset + 0x1C) 4 words with
  | .ok (complement, checksum) => .ok (complement ^^^ checksum == 0xFFFF)
  | .error error => .error (.checksum location.offset error)

def hasMapMode (image : Image) (location : HeaderLocation) : Bool :=
  match image.parse (location.offset + 0x15) 1 ByteReader.byte with
  | .ok byte => (MapMode.ofByte? byte).isSome
  | .error _ => false

def firstWithChecksum (image : Image) :
    List HeaderLocation → Except HeaderError (Option HeaderLocation)
  | [] => .ok none
  | location :: locations => do
    if ← location.hasChecksum image then return some location
    else firstWithChecksum image locations

-- A map mode alone is believed only where no checksum holds.
def search (image : Image) : Except HeaderError (HeaderLocation × Evidence) := do
  let candidates := all.filter (fits image)
  match ← firstWithChecksum image candidates with
  | some location => return (location, .checksum)
  | none =>
    match candidates.find? (hasMapMode image) with
    | some location => return (location, .mapMode)
    | none => throw .notFound

end HeaderLocation

namespace Header

private def vectorWords : ByteReader VectorTable := do
  let cop ← ByteReader.word
  let brk ← ByteReader.word
  let abort ← ByteReader.word
  let nmi ← ByteReader.word
  let reset ← ByteReader.word
  let irq ← ByteReader.word
  return { cop, brk, abort, nmi, reset, irq }

structure Info where
  mapMode : UInt8
  romType : UInt8
  romSize : UInt8
  sramSize : UInt8
  region : UInt8
  developer : UInt8
  version : UInt8

private def infoBytes : ByteReader Info := do
  let mapMode ← ByteReader.byte
  let romType ← ByteReader.byte
  let romSize ← ByteReader.byte
  let sramSize ← ByteReader.byte
  let region ← ByteReader.byte
  let developer ← ByteReader.byte
  let version ← ByteReader.byte
  return { mapMode, romType, romSize, sramSize, region, developer, version }

private def explain {α : Type} (wrap : RomError → HeaderError) :
    Except RomError α → Except HeaderError α
  | .ok value => .ok value
  | .error error => .error (wrap error)

def parseAt (image : Image) (location : Nat) : Except HeaderError Header := do
  let title ← explain .name (image.parse location 21 (ByteReader.take 21))
  let info ← explain .info (image.parse (location + 0x15) 7 infoBytes)
  let mapMode ←
    match MapMode.ofByte? info.mapMode with
    | some mapMode => pure mapMode
    | none => throw (.unsupportedMapMode info.mapMode)
  let checksum ← explain (.checksum location) (image.parse (location + 0x1E) 2 ByteReader.word)
  let native ← explain .vectors (image.parse (location + 0x24) 12 vectorWords)
  let emulation ← explain .vectors (image.parse (location + 0x34) 12 vectorWords)
  return {
    location
    title := String.ofList (Text.trimEnd (Text.decodeUtf8 title))
    mapMode
    romType := RomType.ofByte? info.romType
    romSize := info.romSize
    sramSize := info.sramSize
    region := Region.ofByte? info.region
    developer := info.developer
    version := info.version
    checksum
    native
    emulation }

def parse (image : Image) : Except HeaderError Header := do
  let (location, _) ← HeaderLocation.search image
  parseAt image location.offset

-- Sizes are given as powers of two, and stop at the largest 32-bit number.
private def kibibytes (exponent : UInt8) : Nat := min (1 <<< exponent.toNat) 0xFFFFFFFF

def romKibibytes (header : Header) : Nat := kibibytes header.romSize

-- An exponent of zero stands for no SRAM.
def sramKibibytes (header : Header) : Nat :=
  if header.sramSize = 0 then 0 else kibibytes header.sramSize

-- At most 256 KiB are provided, whatever the header says.
def sramBytes (header : Header) : Nat :=
  if header.sramSize = 0 then 0 else 0x400 <<< min header.sramSize.toNat 8

end Header

end Console816
