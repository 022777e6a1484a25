import Console816.Journal.Remark

namespace Console816

def Rom.remarks (data : ByteArray) : List Remark :=
  if hasCopierHeader data then [.strippingCopierHeader] else []

namespace HeaderLocation

def remarks (image : Image) : List Remark :=
  match search image with
  | .ok (location, evidence) => [.headerFound location evidence]
  | .error .notFound => [.headerMissing]
  | .error _ => []

end HeaderLocation

namespace Cartridge

private def sizeRemarks (header : Header) (romBytes : Nat) : List Remark :=
  (if romBytes / 1024 = header.romKibibytes then []
    else [.romSizeDiffers header.romKibibytes (romBytes / 1024)]) ++
  (if header.sramBytes / 1024 = header.sramKibibytes then []
    else [.sramSizeDiffers header.sramKibibytes (header.sramBytes / 1024)])

-- What there is to say when a cartridge is made of a ROM, whether that succeeds or not.
def romRemarks (rom : Rom) : List Remark :=
  HeaderLocation.remarks rom.toImage ++
    match Header.parse rom.toImage with
    | .error _ => []
    | .ok header =>
      match Mapping.ofLayout? header.mapMode.layout with
      | none => []
      | some mapping => .cartridgeFound header mapping rom.size :: sizeRemarks header rom.size

def remarks (data : ByteArray) : List Remark :=
  Rom.remarks data ++
    match Rom.ofBytes data with
    | .error _ => []
    | .ok rom => romRemarks rom

def writeRemarks (cartridge : Cartridge) (address : Address) (value : UInt8) : List Remark :=
  match cartridge.mapping.cell? address with
  | some (.rom index) => [.romWriteIgnored value address index]
  | some (.sram _) => if cartridge.sram.size = 0 then [.unmappedWrite value address] else []
  | none => [.unmappedWrite value address]

end Cartridge

end Console816
