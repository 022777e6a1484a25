import Console816.Bus.Dma
import Console816.Journal.Cartridge
import Console816.Journal.Observed

namespace Console816

namespace IoRegisters

private def takesWrites (offset : UInt16) : Bool :=
  [0x4200, 0x4202, 0x4203, 0x4204, 0x4205, 0x4206, 0x420B].contains offset ||
    isDmaRegister offset

def writeRemarks (offset : UInt16) (value : UInt8) : List Remark :=
  if offset = 0x420C then [.hdmaIgnored value]
  else if takesWrites offset then []
  else [.ioWriteIgnored value offset]

end IoRegisters

namespace Bus

private def cartridgeRemarks (bus : Bus) (address : Address) (value : UInt8) : List Remark :=
  match bus.cartridge with
  | some cartridge => cartridge.writeRemarks address value
  | none => [.missingCartridgeWrite value address]

private def writeARemarks (bus : Bus) (address : Address) (value : UInt8) : List Remark :=
  match bus.responder address with
  | .workRam _ => []
  | .bRegister _ | .ioRegister _ => [.transferWriteDropped value address]
  | .cartridge => bus.cartridgeRemarks address value
  | .nobody => [.unansweredWrite value address]

private def byteRemarks (bus : Bus) (channel : DmaChannel) (index : Nat) (offset : UInt16) :
    List Remark :=
  if channel.towardsA then
    let value := (bus.readB (channel.bRegister index)).1.getD bus.latch
    bus.writeARemarks ⟨channel.aBank, offset⟩ value
  else []

-- Follows a transfer byte by byte.
private def transferRemarks (bus : Bus) (channel : DmaChannel) (index : Nat) (offset : UInt16)
    (noted : Array Remark) : Nat → Array Remark
  | 0 => noted
  | remaining + 1 =>
    let noted := noted ++ bus.byteRemarks channel index offset
    match bus.transferByte channel index offset with
    | (.ok _, bus) =>
      transferRemarks bus channel (index + 1) (channel.nextOffset offset) noted remaining
    | (.error _, _) => noted

private def channelsRemarks (bus : Bus) (noted : Array Remark) : List (Fin 8) → Array Remark
  | [] => noted
  | index :: indices =>
    let channel := bus.io.channels[index]
    let start := Remark.transferring index channel.transferSize
      ⟨channel.aBank, channel.aOffset⟩ channel.towardsA channel.bAddress channel.mode
    let noted :=
      transferRemarks bus channel 0 channel.aOffset (noted.push start) channel.transferSize
    match bus.runChannel index with
    | (.ok _, bus) => channelsRemarks bus noted indices
    | (.error _, _) => noted

def writeRemarks (bus : Bus) (address : Address) (value : UInt8) : List Remark :=
  match bus.responder address with
  | .workRam _ | .bRegister _ => []
  | .ioRegister offset =>
    IoRegisters.writeRemarks offset value ++
      match IoRegisters.startedChannels offset value with
      | some mask => (channelsRemarks bus #[] (selected mask)).toList
      | none => []
  | .cartridge => bus.cartridgeRemarks address value
  | .nobody => [.unansweredWrite value address]

instance : Remarking Bus where
  storeRemarks := writeRemarks

end Bus

end Console816
