import Console816.Bus.DmaChannel

namespace Console816

-- The registers of the processor's own I/O, from 0x4000 to 0x43FF.
structure IoRegisters where
  nmiControl : UInt8
  nmiFlag : Bool
  multiplicand : UInt8
  dividend : UInt16
  quotient : UInt16
  -- also holds the remainder of a division
  product : UInt16
  channels : Vector DmaChannel 8
  deriving DecidableEq

namespace IoRegisters

def powerOn : IoRegisters where
  nmiControl := 0
  nmiFlag := false
  multiplicand := 0
  dividend := 0
  quotient := 0
  product := 0
  channels := Vector.replicate 8 .powerOn

instance : Inhabited IoRegisters := ⟨powerOn⟩

def nmiEnabled (io : IoRegisters) : Bool := io.nmiControl &&& 0x80 != 0

def raiseNmiFlag (io : IoRegisters) : IoRegisters := { io with nmiFlag := true }

def isDmaRegister (offset : UInt16) : Bool := 0x4300 ≤ offset && offset ≤ 0x437F

-- Sixteen registers to a channel.
def channelIndex (offset : UInt16) : Fin 8 := ⟨offset.toNat / 16 % 8, by omega⟩

def registerIndex (offset : UInt16) : Fin 16 := ⟨offset.toNat % 16, by omega⟩

-- The value of a register that can be read. The low bits of RDNMI tell the processor's version.
def peek (io : IoRegisters) (offset : UInt16) : Option UInt8 :=
  match offset with
  | 0x4210 => some ((if io.nmiFlag then 0x80 else 0) ||| 0x02)
  | 0x4211 | 0x4212 => some 0
  | 0x4214 => some (Word.low io.quotient)
  | 0x4215 => some (Word.high io.quotient)
  | 0x4216 => some (Word.low io.product)
  | 0x4217 => some (Word.high io.product)
  | _ =>
    if isDmaRegister offset then
      some io.channels[channelIndex offset].registers[registerIndex offset]
    else none

-- Reading RDNMI clears the flag it tells.
def read (io : IoRegisters) (offset : UInt16) : Option UInt8 × IoRegisters :=
  (io.peek offset, if offset = 0x4210 then { io with nmiFlag := false } else io)

-- The quotient register is left holding the multiplier.
def multiply (io : IoRegisters) (multiplier : UInt8) : IoRegisters :=
  { io with
    product := io.multiplicand.toUInt16 * multiplier.toUInt16
    quotient := multiplier.toUInt16 }

-- Dividing by zero has the largest quotient, and the dividend as remainder.
def divide (io : IoRegisters) (divisor : UInt8) : IoRegisters :=
  if divisor = 0 then { io with quotient := 0xFFFF, product := io.dividend }
  else
    { io with
      quotient := io.dividend / divisor.toUInt16
      product := io.dividend % divisor.toUInt16 }

def setDmaRegister (io : IoRegisters) (offset : UInt16) (value : UInt8) : IoRegisters :=
  let index := channelIndex offset
  let channel := io.channels[index].setRegister (registerIndex offset) value
  { io with channels := io.channels.set index channel }

-- Writes to registers without a meaning are lost.
def write (io : IoRegisters) (offset : UInt16) (value : UInt8) : IoRegisters :=
  match offset with
  | 0x4200 => { io with nmiControl := value }
  | 0x4202 => { io with multiplicand := value }
  | 0x4203 => io.multiply value
  | 0x4204 => { io with dividend := Word.join value (Word.high io.dividend) }
  | 0x4205 => { io with dividend := Word.join (Word.low io.dividend) value }
  | 0x4206 => io.divide value
  | _ => if isDmaRegister offset then io.setDmaRegister offset value else io

-- The channels that a write to MDMAEN starts.
def startedChannels (offset : UInt16) (value : UInt8) : Option UInt8 :=
  if offset = 0x420B ∧ value ≠ 0 then some value else none

end IoRegisters

end Console816
