import Console816.Bus.IoRegisters
import Console816.Bus.WorkRam
import Console816.Cartridge

namespace Console816

-- Who answers at an address.
inductive Responder where
  | workRam (index : Nat)
  | bRegister (register : UInt8)
  | ioRegister (offset : UInt16)
  | cartridge
  | nobody
  deriving DecidableEq, Repr

-- The address space as the processor sees it.
structure Bus where
  workRam : WorkRam
  io : IoRegisters
  -- the last values written for the video and audio side, 0x2100 to 0x21FF
  bRegisters : ByteArray
  cartridge : Option Cartridge
  -- the last value read, which is read again where nobody answers
  latch : UInt8
  -- cycles the processor was paused for DMA since they were last taken
  pause : UInt32

namespace Bus

def bRegisterCount : Nat := 0x100

def powerOn : Bus where
  workRam := .powerOn
  io := .powerOn
  bRegisters := zeroBytes bRegisterCount
  cartridge := none
  latch := 0
  pause := 0

instance : Inhabited Bus := ⟨powerOn⟩

def insert (bus : Bus) (cartridge : Cartridge) : Bus := { bus with cartridge := some cartridge }

-- Memory is left alone.
def reset (bus : Bus) : Bus :=
  { bus with io := .powerOn, bRegisters := zeroBytes bRegisterCount, latch := 0, pause := 0 }

def takePause (bus : Bus) : UInt32 × Bus := (bus.pause, { bus with pause := 0 })

-- Banks 7E and 7F are work RAM, the other banks with bit 6 set are the cartridge's. The system
-- banks begin with the first 8 KiB of the work RAM and end with half a bank of cartridge.
def responder (bus : Bus) (address : Address) : Responder :=
  if address.bank &&& 0xFE == 0x7E then
    .workRam ((address.bank &&& 1).toNat * 0x10000 + address.offset.toNat)
  else if address.bank &&& 0x40 != 0 || 0x8000 ≤ address.offset then .cartridge
  else if address.offset < 0x2000 then .workRam address.offset.toNat
  else if 0x2100 ≤ address.offset && address.offset < 0x2200 then
    .bRegister address.offset.toUInt8
  else if 0x4000 ≤ address.offset && address.offset < 0x4400 then .ioRegister address.offset
  else if bus.cartridge.any (·.answersExpansion address) then .cartridge
  else .nobody

-- The data register of the work RAM is at 0x80, and its address is written at 0x81 to 0x83.
def peekB (bus : Bus) (register : UInt8) : Option UInt8 :=
  if register = 0x80 then some bus.workRam.peekNext
  else if 0x81 ≤ register ∧ register ≤ 0x83 then none
  else some (bus.bRegisters.get! register.toNat)

def readB (bus : Bus) (register : UInt8) : Option UInt8 × Bus :=
  (bus.peekB register,
    if register = 0x80 then { bus with workRam := bus.workRam.advance } else bus)

def writeB (bus : Bus) (register value : UInt8) : Bus :=
  if register = 0x80 then { bus with workRam := bus.workRam.writeNext value }
  else if 0x81 ≤ register ∧ register ≤ 0x83 then
    { bus with workRam := bus.workRam.setCursorByte (register - 0x81) value }
  else { bus with bRegisters := bus.bRegisters.set! register.toNat value }

-- What is read becomes what is read next where nobody answers.
def hold (bus : Bus) (value : UInt8) : Bus := { bus with latch := value }

def readCartridge (bus : Bus) (address : Address) : Except BusError UInt8 × Bus :=
  match bus.cartridge with
  | none => (.ok bus.latch, bus)
  | some cartridge =>
    match cartridge.read address with
    | .ok value => (.ok value, bus.hold value)
    | .error error => (.error error, bus)

def writeCartridge (bus : Bus) (address : Address) (value : UInt8) : Bus :=
  match bus with
  | ⟨workRam, io, bRegisters, some cartridge, latch, pause⟩ =>
    ⟨workRam, io, bRegisters, some (cartridge.write address value), latch, pause⟩
  | bus => bus

def holdIfAny : Option UInt8 × Bus → Except BusError UInt8 × Bus
  | (some value, bus) => (.ok value, bus.hold value)
  | (none, bus) => (.ok bus.latch, bus)

def readIo (bus : Bus) (offset : UInt16) : Option UInt8 × Bus :=
  let (value, io) := bus.io.read offset
  (value, { bus with io })

def read (bus : Bus) (address : Address) : Except BusError UInt8 × Bus :=
  match bus.responder address with
  | .workRam index =>
    let value := bus.workRam.read index
    (.ok value, bus.hold value)
  | .bRegister register => holdIfAny (bus.readB register)
  | .ioRegister offset => holdIfAny (bus.readIo offset)
  | .cartridge => bus.readCartridge address
  | .nobody => (.ok bus.latch, bus)

-- What would be read, without reading it.
def peek (bus : Bus) (address : Address) : UInt8 :=
  let value : Option UInt8 :=
    match bus.responder address with
    | .workRam index => some (bus.workRam.read index)
    | .bRegister register => bus.peekB register
    | .ioRegister offset => bus.io.peek offset
    | .cartridge => bus.cartridge.bind fun cartridge => (cartridge.read address).toOption
    | .nobody => none
  value.getD bus.latch

end Bus

end Console816
