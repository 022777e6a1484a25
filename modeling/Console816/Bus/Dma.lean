import Console816.Bus

namespace Console816.Bus

-- The A side of a transfer reaches memory only. Where it meets registers, it reads the latch and
-- its writes are lost, so that a transfer cannot start another one.
def readA (bus : Bus) (address : Address) : Except BusError UInt8 × Bus :=
  match bus.responder address with
  | .bRegister _ | .ioRegister _ => (.ok bus.latch, bus)
  | _ => bus.read address

def writeA (bus : Bus) (address : Address) (value : UInt8) : Bus :=
  match bus.responder address with
  | .workRam index => { bus with workRam := bus.workRam.write index value }
  | .cartridge => bus.writeCartridge address value
  | _ => bus

def transferByte (bus : Bus) (channel : DmaChannel) (index : Nat) (offset : UInt16) :
    Except BusError Unit × Bus :=
  let register := channel.bRegister index
  let address : Address := ⟨channel.aBank, offset⟩
  if channel.towardsA then
    let (value, bus) := bus.readB register
    (.ok (), bus.writeA address (value.getD bus.latch))
  else
    match bus.readA address with
    | (.ok value, bus) => (.ok (), bus.writeB register value)
    | (.error error, bus) => (.error error, bus)

-- Transfers the bytes from `index` on, and answers with the offset after the last.
def transferBytes (bus : Bus) (channel : DmaChannel) (index : Nat) (offset : UInt16) :
    Nat → Except BusError UInt16 × Bus
  | 0 => (.ok offset, bus)
  | remaining + 1 =>
    match bus.transferByte channel index offset with
    | (.ok _, bus) =>
      transferBytes bus channel (index + 1) (channel.nextOffset offset) remaining
    | (.error error, bus) => (.error error, bus)

-- The channel's registers are updated once the transfer is complete. The processor is paused for
-- a cycle per byte and one more.
def finishTransfer (bus : Bus) (index : Fin 8) (channel : DmaChannel) (offset : UInt16) : Bus :=
  { bus with
    io :=
      { bus.io with
        channels := bus.io.channels.set index ((channel.setAOffset offset).setByteCount 0) }
    pause := bus.pause + (channel.transferSize + 1).toUInt32 }

def runChannel (bus : Bus) (index : Fin 8) : Except BusError Unit × Bus :=
  let channel := bus.io.channels[index]
  match bus.transferBytes channel 0 channel.aOffset channel.transferSize with
  | (.ok offset, bus) => (.ok (), bus.finishTransfer index channel offset)
  | (.error error, bus) => (.error error, bus)

-- A failure also keeps later channels from running.
def runChannels (bus : Bus) : List (Fin 8) → Except BusError Unit × Bus
  | [] => (.ok (), bus)
  | index :: indices =>
    match bus.runChannel index with
    | (.ok _, bus) => runChannels bus indices
    | (.error error, bus) => (.error error, bus)

-- The channels whose bits are set, lowest first.
def selected (mask : UInt8) : List (Fin 8) :=
  (List.finRange 8).filter fun index => mask.toNat.testBit index

def write (bus : Bus) (address : Address) (value : UInt8) : Except BusError Unit × Bus :=
  match bus.responder address with
  | .workRam index => (.ok (), { bus with workRam := bus.workRam.write index value })
  | .bRegister register => (.ok (), bus.writeB register value)
  | .ioRegister offset =>
    let bus := { bus with io := bus.io.write offset value }
    match IoRegisters.startedChannels offset value with
    | some mask => bus.runChannels (selected mask)
    | none => (.ok (), bus)
  | .cartridge => (.ok (), bus.writeCartridge address value)
  | .nobody => (.ok (), bus)

instance : Memory Bus where
  load address bus := bus.read address
  store address value bus := bus.write address value

end Console816.Bus
